import OberonModules.Proofs.Interruptions

/-!
# Output that does not fit

A console whose sink has room for so many bytes only. What is stored is the beginning
of what a sink without bound would store, cut wherever the room ends. Beyond that
nothing is lost: every diagnostic counts, and each one whose rendering did not go in
whole leaves one warning. This holds of every renderer that writes the same whatever it
writes to and stops where the sink does; how it divides a rendering into writes makes no
difference.
-/

namespace OberonModules

namespace Console

section

variable (renderer : Renderer) (source : List Char) (colored : Bool)

/-- The bytes of one rendering, as an empty sink without bound stores them. -/
def rendered (diagnostic : Diagnostic) : ByteArray :=
  ((new source colored (.empty none) : Console Sink renderer).render diagnostic).1.stored

/-- The renderings of these diagnostics, one after another. -/
def output (diagnostics : List Diagnostic) : ByteArray :=
  bytesOf (diagnostics.map (rendered renderer source colored))

/-- A console that has reported these diagnostics. -/
def having (capacity : Option Nat) (diagnostics : List Diagnostic) : Console Sink renderer :=
  ⟨source, colored, .given capacity (output renderer source colored diagnostics),
    diagnostics.length, 0⟩

/-- The warning that the last of these diagnostics leaves. -/
def warning? (capacity : Option Nat) : List Diagnostic × Diagnostic → Option LogEvent
  | (before, diagnostic) =>
    (Sink.refusal? capacity (output renderer source colored before)
      (rendered renderer source colored diagnostic)).map (.renderFailed diagnostic.code)

end

variable {renderer : Renderer} {source : List Char} {colored : Bool} {capacity : Option Nat}

theorem output_concat (before : List Diagnostic) (diagnostic : Diagnostic) :
    output renderer source colored (before ++ [diagnostic]) =
      output renderer source colored before ++ rendered renderer source colored diagnostic := by
  simp [output, bytesOf_append, bytesOf]

/-- A rendering goes on where the output ends, as far as there is room. -/
theorem render_having (ht : renderer.WritesInTurn) (hb : renderer.BreaksAtCuts)
    (before : List Diagnostic) {diagnostic : Diagnostic}
    (hk : diagnostic.span.KeepsCharacters source) :
    (having renderer source colored capacity before).render diagnostic =
      (.given capacity (output renderer source colored (before ++ [diagnostic])),
        Ending.complete.unlessRefused
          (Sink.refusal? capacity (output renderer source colored before)
            (rendered renderer source colored diagnostic))) := by
  let report := Report.ofDiagnostic diagnostic source colored
  have hin : report.Within source := Report.within_ofDiagnostic diagnostic source colored
  have hkeeps : report.KeepsCharacters source :=
    (Report.keepsCharacters_ofDiagnostic_iff ..).mpr hk
  obtain ⟨pieces, hwrite⟩ := ht.exists_pieces hb hin hkeeps
  have hbytes : rendered renderer source colored diagnostic = bytesOf pieces := by
    simp only [rendered, render, new, hwrite, report, Sink.empty, Sink.writeAll_unbounded,
      ByteArray.empty_append]
  rw [output_concat, hbytes]
  simp only [render, having, hwrite, report, Sink.writeAll_given]

theorem report_having (ht : renderer.WritesInTurn) (hb : renderer.BreaksAtCuts)
    (before : List Diagnostic) {diagnostic : Diagnostic}
    (hk : diagnostic.span.KeepsCharacters source) :
    (having renderer source colored capacity before).report diagnostic =
      ⟨having renderer source colored capacity (before ++ [diagnostic]),
        (warning? renderer source colored capacity (before, diagnostic)).toList⟩ := by
  rw [report, render_having ht hb before hk, warning?]
  cases Sink.refusal? capacity (output renderer source colored before)
    (rendered renderer source colored diagnostic) <;> simp [having, Ending.unlessRefused] <;> rfl

def reportAll (console : Console Sink renderer) (diagnostics : List Diagnostic) :
    Traced (Console Sink renderer) :=
  Traced.fold report console diagnostics

theorem reportAll_having (ht : renderer.WritesInTurn) (hb : renderer.BreaksAtCuts)
    (before : List Diagnostic) {diagnostics : List Diagnostic}
    (hk : ∀ diagnostic ∈ diagnostics, diagnostic.span.KeepsCharacters source) :
    (having renderer source colored capacity before).reportAll diagnostics =
      ⟨having renderer source colored capacity (before ++ diagnostics),
        (withEarlier before diagnostics).filterMap
          (warning? renderer source colored capacity)⟩ := by
  induction diagnostics generalizing before with
  | nil =>
    rw [List.append_nil]
    rfl
  | cons diagnostic diagnostics ih =>
    have hrest := ih (before ++ [diagnostic]) fun other hm => hk other (List.mem_cons_of_mem _ hm)
    rw [reportAll] at hrest
    rw [reportAll, Traced.fold_cons, report_having ht hb before (hk diagnostic List.mem_cons_self)]
    simp only [bind, Traced.bind, hrest, List.append_assoc, List.singleton_append,
      withEarlier_cons]
    cases hw : warning? renderer source colored capacity (before, diagnostic) <;> simp [hw]

-- ---------------------------------------------------------------------------
-- With and without a bound
-- ---------------------------------------------------------------------------

section

variable (renderer source colored)

/-- A new console on an empty sink reports these diagnostics. -/
def reported (capacity : Option Nat) (diagnostics : List Diagnostic) :
    Traced (Console Sink renderer) :=
  (new source colored (.empty capacity)).reportAll diagnostics

/-- Bytes that a sink without bound has stored after these diagnostics. -/
def written (diagnostics : List Diagnostic) : ByteArray :=
  (reported renderer source colored none diagnostics).value.sink.stored

/-- What a bound on the sink costs: the bytes beyond it, and a warning for each rendering that does
not end within it. -/
structure LosesOutputOnly (limit : Nat) (diagnostics : List Diagnostic) : Prop where
  /-- Without a bound, all renderings are stored. -/
  written_eq : written renderer source colored diagnostics =
    output renderer source colored diagnostics
  stored_eq : (reported renderer source colored (some limit) diagnostics).value.sink.stored =
    (written renderer source colored diagnostics).extract 0
      (min limit (written renderer source colored diagnostics).size)
  count_eq : (reported renderer source colored (some limit) diagnostics).value.count =
    diagnostics.length
  log_eq : (reported renderer source colored (some limit) diagnostics).log =
    (withEarlier [] diagnostics).filterMap fun (before, diagnostic) =>
      if (rendered renderer source colored diagnostic).size = 0 ∨
          (written renderer source colored (before ++ [diagnostic])).size ≤ limit then none
      else some (.renderFailed diagnostic.code Sink.failure)
  /-- No report breaks off. -/
  returns : (reported renderer source colored (some limit) diagnostics).value.interruptions = 0

end

theorem reported_eq (ht : renderer.WritesInTurn) (hb : renderer.BreaksAtCuts) (colored : Bool)
    (capacity : Option Nat) {diagnostics : List Diagnostic}
    (hk : ∀ diagnostic ∈ diagnostics, diagnostic.span.KeepsCharacters source) :
    reported renderer source colored capacity diagnostics =
      ⟨having renderer source colored capacity diagnostics,
        (withEarlier [] diagnostics).filterMap
          (warning? renderer source colored capacity)⟩ := by
  have hnew : new source colored (.empty capacity) =
      having renderer source colored capacity [] := by
    rw [Sink.empty_eq_given]
    rfl
  rw [reported, hnew, reportAll_having ht hb [] hk, List.nil_append]

theorem written_eq_output (ht : renderer.WritesInTurn) (hb : renderer.BreaksAtCuts)
    (colored : Bool) {diagnostics : List Diagnostic}
    (hk : ∀ diagnostic ∈ diagnostics, diagnostic.span.KeepsCharacters source) :
    written renderer source colored diagnostics = output renderer source colored diagnostics := by
  rw [written, reported_eq ht hb colored none hk]
  rfl

/-- A sink that takes only so many bytes costs output, but no diagnostic. -/
theorem losesOutputOnly (ht : renderer.WritesInTurn) (hb : renderer.BreaksAtCuts)
    (source : List Char) (colored : Bool) (limit : Nat) (diagnostics : List Diagnostic)
    (hk : ∀ diagnostic ∈ diagnostics, diagnostic.span.KeepsCharacters source) :
    LosesOutputOnly renderer source colored limit diagnostics := by
  have hreported := reported_eq ht hb colored (some limit) hk
  have hwritten := written_eq_output ht hb colored hk
  constructor
  case written_eq => exact hwritten
  case stored_eq =>
    have hmin := ByteArray.extract_extract (a := output renderer source colored diagnostics)
      (i := 0) (j := (output renderer source colored diagnostics).size) (k := 0) (l := limit)
    rw [ByteArray.extract_zero_size, Nat.zero_add limit] at hmin
    rw [hreported, hwritten]
    exact hmin
  case count_eq =>
    rw [hreported]
    rfl
  case log_eq =>
    rw [hreported]
    refine List.filterMap_congr ?_
    rintro ⟨before, diagnostic⟩ hm
    obtain ⟨_, rest, rfl, rfl⟩ := mem_withEarlier_iff.mp hm
    have hupTo : ∀ other ∈ before ++ [diagnostic], other.span.KeepsCharacters source := by
      intro other ho
      refine hk other ?_
      rw [← List.singleton_append, ← List.append_assoc]
      exact List.mem_append_left rest ho
    simp only [warning?, Sink.refusal?, Sink.fits, Option.all_some, Bool.or_eq_true,
      decide_eq_true_eq, written_eq_output ht hb colored hupTo, ← output_concat]
    split <;> rfl
  case returns =>
    rw [hreported]
    rfl

/-- A span within the second line, one over both lines and one past the end. -/
def threeSpans : List Diagnostic :=
  [.plain .undeclaredModule "first" ⟨3, 4⟩,
    (Diagnostic.plain .selfImport "second" ⟨0, 4⟩).withHint "hint",
    .plain .duplicateImport "third" ⟨7, 9⟩]

/-- The rendering of the first of them takes 110 bytes; the bound is within that of the second. -/
theorem losesOutputOnly_threeSpans :
    Renderer.framed.WritesInTurn ∧ Renderer.framed.BreaksAtCuts ∧
      (∀ diagnostic ∈ threeSpans, diagnostic.span.KeepsCharacters ['é', '\n', 'x']) ∧
      LosesOutputOnly .framed ['é', '\n', 'x'] false 150 threeSpans ∧
      (reported .framed ['é', '\n', 'x'] false (some 150) threeSpans).value.sink.stored.size = 150 ∧
      (reported .framed ['é', '\n', 'x'] false (some 150) threeSpans).log =
        [.renderFailed .selfImport Sink.failure, .renderFailed .duplicateImport Sink.failure] :=
  have hk : ∀ diagnostic ∈ threeSpans, diagnostic.span.KeepsCharacters ['é', '\n', 'x'] := by
    intro diagnostic hm
    simp only [threeSpans, List.mem_cons, List.not_mem_nil, or_false] at hm
    rcases hm with rfl | rfl | rfl <;> exact ⟨by decide, by decide⟩
  ⟨Renderer.writesInTurn_framed, Renderer.breaksAtCuts_framed, hk,
    losesOutputOnly Renderer.writesInTurn_framed Renderer.breaksAtCuts_framed ['é', '\n', 'x'] false
      150 threeSpans hk,
    by decide +kernel, by decide +kernel⟩

end Console

end OberonModules
