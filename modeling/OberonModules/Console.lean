import OberonModules.Console.Snippet
import OberonModules.Diagnostic
import OberonModules.Reporter

/-!
# The console

A reporter that has every diagnostic rendered as soon as it arrives, against the source
it is about. The renderer is told where the diagnostic is only after the span has been
taken back into the source.

A writer that fails costs output and nothing else: a warning is logged, and the
diagnostic counts all the same.
-/

namespace OberonModules

/-- What a diagnostic is to its renderer. The span is taken back to ends in order and not past the
end of the source. -/
def Report.ofDiagnostic (diagnostic : Diagnostic) (source : List Char) (colored : Bool) : Report :=
  let stop := min diagnostic.span.stop (Text.byteLength source)
  let start := min diagnostic.span.start stop
  { code := diagnostic.code.label
    message := diagnostic.message
    offset := start
    label := ⟨start, stop⟩
    labelMessage := diagnostic.message
    help := diagnostic.hint
    colored }

/-- A console writes frames to a sink if nothing else is said. -/
structure Console (ω : Type := Sink) (renderer : Renderer := .framed) where
  source : List Char
  colored : Bool
  sink : ω
  count : Nat
  /-- Renderings that broke off so far. A report that breaks off takes down the analysis that made
  it, so once this number has risen nothing the analysis still does is ever seen. -/
  interruptions : Nat

namespace Console

variable {ω : Type} {renderer : Renderer}

def new (source : List Char) (colored : Bool) (sink : ω) : Console ω renderer :=
  ⟨source, colored, sink, 0, 0⟩

variable [Writer ω]

/-- The sink after the rendering of a diagnostic, and how the rendering ended. -/
def render (console : Console ω renderer) (diagnostic : Diagnostic) : ω × Ending :=
  renderer.write (.ofDiagnostic diagnostic console.source console.colored) console.source
    console.sink

/-- Counts a diagnostic and has it rendered. -/
def report (console : Console ω renderer) (diagnostic : Diagnostic) :
    Traced (Console ω renderer) := do
  let count := console.count + 1
  match console.render diagnostic with
  | (sink, .complete) => return { console with count, sink }
  | (sink, .refused reason) =>
    Traced.emit (.renderFailed diagnostic.code reason)
    return { console with count, sink }
  | (sink, .interrupted) =>
    return { console with count, sink, interruptions := console.interruptions + 1 }

instance : Reporter (Console ω renderer) where
  report := report
  count := Console.count

@[simp] theorem report_eq (console : Console ω renderer) (diagnostic : Diagnostic) :
    Reporter.report console diagnostic = console.report diagnostic := rfl

theorem value_report (console : Console ω renderer) (diagnostic : Diagnostic) :
    (console.report diagnostic).value =
      { console with
        sink := (console.render diagnostic).1
        count := console.count + 1
        interruptions := console.interruptions +
          if (console.render diagnostic).2 = .interrupted then 1 else 0 } := by
  rw [report]
  cases console.render diagnostic with
  | mk sink ending => cases ending <;> rfl

/-- Whatever becomes of the output, the diagnostic counts. -/
theorem count_report (console : Console ω renderer) (diagnostic : Diagnostic) :
    (console.report diagnostic).value.count = console.count + 1 := by
  rw [value_report]

end Console

end OberonModules
