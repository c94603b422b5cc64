import OberonModules.Console
import OberonModules.Proofs.AnalysisRun
import OberonModules.Proofs.Renderers

/-!
# Interruptions

A console takes the ends of a span back into the source, but not to characters. If its
renderer breaks off where an offset is inside a character, so does the report of a span
that cuts one there. The diagnostic has been counted by then, but the report never
returns, and the analysis that made it is lost. Two things keep such a report from harm:
a source without text, and a writer that fails before the rendering breaks off.
-/

namespace OberonModules

open ImportRules

-- ---------------------------------------------------------------------------
-- Spans and characters
-- ---------------------------------------------------------------------------

theorem Text.isBoundary_iff {text : List Char} {offset : Nat} :
    isBoundary text offset = true ↔
      ∃ before after, text = before ++ after ∧ byteLength before = offset := by
  simp only [isBoundary, Option.isSome_iff_exists, cutAt?_eq_some_iff, Cut.text]
  constructor
  · rintro ⟨cut, rfl, rfl⟩
    exact ⟨cut.before.reverse, cut.after, rfl, byteLength_reverse _⟩
  · rintro ⟨before, after, rfl, rfl⟩
    exact ⟨⟨before.reverse, after⟩, by simp, byteLength_reverse _⟩

theorem Text.isBoundary_min {text : List Char} {offset limit : Nat}
    (hlimit : isBoundary text limit = true)
    (h : isBoundary text offset = true ∨ limit ≤ offset) :
    isBoundary text (min offset limit) = true := by
  obtain hle | hge := Nat.le_total offset limit
  · rw [Nat.min_eq_left hle]
    obtain h | h := h
    · exact h
    · rwa [Nat.le_antisymm hle h]
  · rwa [Nat.min_eq_right hge]

/-- Neither end of the span, taken back into the source, cuts a character. -/
structure Span.KeepsCharacters (span : Span) (source : List Char) : Prop where
  stop : Text.isBoundary source (min span.stop (Text.byteLength source))
  start : Text.isBoundary source (min span.start (min span.stop (Text.byteLength source)))

/-- A span may be reversed or reach past the end, as long as no end is inside a character. -/
theorem Span.keepsCharacters_of_ends {span : Span} {source : List Char}
    (hstart : Text.isBoundary source span.start = true ∨ Text.byteLength source ≤ span.start)
    (hstop : Text.isBoundary source span.stop = true ∨ Text.byteLength source ≤ span.stop) :
    span.KeepsCharacters source := by
  have hend : Text.isBoundary source (Text.byteLength source) = true :=
    Text.isBoundary_iff.mpr ⟨source, [], by simp, rfl⟩
  have hclamped := Text.isBoundary_min hend hstop
  refine ⟨hclamped, Text.isBoundary_min hclamped ?_⟩
  exact hstart.imp_right fun hpast => (Nat.min_le_right ..).trans hpast

-- ---------------------------------------------------------------------------
-- What the renderer is told
-- ---------------------------------------------------------------------------

theorem Report.within_ofDiagnostic (diagnostic : Diagnostic) (source : List Char)
    (colored : Bool) : (ofDiagnostic diagnostic source colored).Within source where
  offset_le := (Nat.min_le_right ..).trans (Nat.min_le_right ..)
  start_le_stop := Nat.min_le_right ..
  stop_le := Nat.min_le_right ..

theorem Report.keepsCharacters_ofDiagnostic_iff (diagnostic : Diagnostic) (source : List Char)
    (colored : Bool) : (ofDiagnostic diagnostic source colored).KeepsCharacters source ↔
      diagnostic.span.KeepsCharacters source :=
  ⟨fun h => ⟨h.stop, h.start⟩, fun h => ⟨h.start, h.start, h.stop⟩⟩

-- ---------------------------------------------------------------------------
-- One report
-- ---------------------------------------------------------------------------

namespace Console

variable {ω : Type} [Writer ω] {renderer : Renderer}

/-- The writer fails on the way. -/
def Refused (console : Console ω renderer) (diagnostic : Diagnostic) : Prop :=
  ∃ reason, (console.render diagnostic).2 = .refused reason

/-- The report returns. -/
def Survives (console : Console ω renderer) (diagnostic : Diagnostic) : Prop :=
  console.source = [] ∨ diagnostic.span.KeepsCharacters console.source ∨
    console.Refused diagnostic

theorem survives_iff (h : renderer.BreaksAtCuts) {console : Console ω renderer}
    {diagnostic : Diagnostic} :
    console.Survives diagnostic ↔ (console.render diagnostic).2 ≠ .interrupted := by
  have hin := Report.within_ofDiagnostic diagnostic console.source console.colored
  rw [Survives, ← Report.keepsCharacters_ofDiagnostic_iff _ _ console.colored]
  exact (h.ne_interrupted_iff console.sink hin).symm

theorem interruptions_report_iff (h : renderer.BreaksAtCuts) (console : Console ω renderer)
    (diagnostic : Diagnostic) :
    (console.report diagnostic).value.interruptions = console.interruptions ↔
      console.Survives diagnostic := by
  rw [survives_iff h, value_report]
  by_cases hend : (console.render diagnostic).2 = .interrupted <;> simp [hend]

theorem le_interruptions_report (console : Console ω renderer) (diagnostic : Diagnostic) :
    console.interruptions ≤ (console.report diagnostic).value.interruptions := by
  rw [value_report]
  exact Nat.le_add_right ..

theorem source_report (console : Console ω renderer) (diagnostic : Diagnostic) :
    (console.report diagnostic).value.source = console.source := by
  rw [value_report]

/-- A writer at which nothing fails does not come into it. -/
theorem survives_iff_of_unfailing (h : renderer.BreaksAtCuts) {console : Console ω renderer}
    (hw : ∀ pieces, (Writer.writeAll console.sink pieces).2 = none) (diagnostic : Diagnostic) :
    console.Survives diagnostic ↔
      console.source = [] ∨ diagnostic.span.KeepsCharacters console.source := by
  have hnot : ¬ console.Refused diagnostic := by
    rintro ⟨reason, hreason⟩
    obtain ⟨pieces, hpieces⟩ := h.of_refused hreason
    simp [hw] at hpieces
  simp [Survives, hnot]

-- ---------------------------------------------------------------------------
-- Many reports
-- ---------------------------------------------------------------------------

theorem source_receive (console : Console ω renderer) (diagnostics : List Diagnostic) :
    (Reporter.receive console diagnostics).source = console.source := by
  refine Reporter.receive_induction
    (P := fun later : Console ω renderer => later.source = console.source) rfl ?_ diagnostics
  intro later diagnostic h
  exact (source_report later diagnostic).trans h

theorem le_interruptions_receive (console : Console ω renderer) (diagnostics : List Diagnostic) :
    console.interruptions ≤ (Reporter.receive console diagnostics).interruptions := by
  refine Reporter.receive_induction
    (P := fun later : Console ω renderer => console.interruptions ≤ later.interruptions)
    (Nat.le_refl _) ?_ diagnostics
  intro later diagnostic h
  exact h.trans (le_interruptions_report later diagnostic)

/-- Every report of a row returns. -/
def SurvivesAll (console : Console ω renderer) (diagnostics : List Diagnostic) : Prop :=
  ∀ pair ∈ withEarlier [] diagnostics, (Reporter.receive console pair.1).Survives pair.2

theorem survivesAll_concat {console : Console ω renderer} {diagnostics : List Diagnostic}
    {diagnostic : Diagnostic} :
    console.SurvivesAll (diagnostics ++ [diagnostic]) ↔ console.SurvivesAll diagnostics ∧
      (Reporter.receive console diagnostics).Survives diagnostic := by
  simp [SurvivesAll, withEarlier_append, or_imp, forall_and]

theorem interruptions_receive_iff (h : renderer.BreaksAtCuts) (console : Console ω renderer)
    (diagnostics : List Diagnostic) :
    (Reporter.receive console diagnostics).interruptions = console.interruptions ↔
      console.SurvivesAll diagnostics := by
  induction diagnostics using List.reverseRecOn with
  | nil => simp [SurvivesAll, Reporter.receive]
  | append_singleton diagnostics diagnostic ih =>
    have hbefore := console.le_interruptions_receive diagnostics
    have hlast := le_interruptions_report (Reporter.receive console diagnostics) diagnostic
    have hreport :=
      interruptions_report_iff h (Reporter.receive console diagnostics) diagnostic
    rw [survivesAll_concat, ← ih, ← hreport, Reporter.receive_concat, report_eq]
    constructor
    · intro h
      omega
    · rintro ⟨hfirst, hsecond⟩
      exact hsecond.trans hfirst

end Console

-- ---------------------------------------------------------------------------
-- Analyses
-- ---------------------------------------------------------------------------

/-- The spans of all identifiers of a module. -/
def ModuleDecl.identSpans (declaration : ModuleDecl) : List Span :=
  declaration.name.span ::
    declaration.imports.flatMap fun element => [element.module.span, element.localName.span]

theorem ModuleDecl.mem_identSpans_iff {declaration : ModuleDecl} {span : Span} :
    span ∈ declaration.identSpans ↔ span = declaration.name.span ∨
      ∃ element ∈ declaration.imports,
        span = element.module.span ∨ span = element.localName.span := by
  simp [identSpans]

namespace ImportRules

variable {checks : Checks} {earlier : List Declared} {diagnostic : Diagnostic}

theorem span_of_targetProblem? {importer : ModuleDecl} {element : Import}
    (h : targetProblem? earlier importer element = some diagnostic) :
    diagnostic.span = element.module.span := by
  unfold targetProblem? at h
  split at h
  · cases h
    rfl
  · split at h
    · cases h
    · cases h
      rfl

theorem span_of_clashProblem? {before : List Import} {element : Import}
    (h : clashProblem? checks before element = some diagnostic) :
    diagnostic.span = element.localName.span := by
  obtain ⟨first, -, rfl⟩ := Option.map_eq_some_iff.mp h
  rfl

theorem span_of_nameProblem? {declaration : ModuleDecl}
    (h : nameProblem? checks earlier declaration = some diagnostic) :
    diagnostic.span = declaration.name.span := by
  simp only [nameProblem?, Option.ite_none_right_eq_some, Option.map_eq_some_iff] at h
  obtain ⟨-, previous, -, rfl⟩ := h
  rfl

/-- Whatever is wrong is wrong with an identifier. -/
theorem span_of_mem_moduleProblems {declaration : ModuleDecl}
    (h : diagnostic ∈ moduleProblems checks earlier declaration) :
    diagnostic.span ∈ declaration.identSpans := by
  rw [ModuleDecl.mem_identSpans_iff]
  simp only [moduleProblems, List.mem_append, List.mem_filterMap, Option.mem_toList] at h
  obtain (⟨element, he, hp⟩ | ⟨⟨before, element⟩, hm, hp⟩) | hp := h
  · exact .inr ⟨element, he, .inl (span_of_targetProblem? hp)⟩
  · exact .inr ⟨element, mem_of_mem_withEarlier hm, .inr (span_of_clashProblem? hp)⟩
  · exact .inl (span_of_nameProblem? hp)

theorem span_of_mem_problems {modules : List Declared} (h : diagnostic ∈ problems checks modules) :
    ∃ module ∈ modules, diagnostic.span ∈ module.2.identSpans := by
  obtain ⟨⟨earlier, module⟩, hm, hp⟩ := List.mem_flatMap.mp h
  exact ⟨module, mem_of_mem_withEarlier hm, span_of_mem_moduleProblems hp⟩

end ImportRules

namespace Console

open ImportAnalysis

variable {ω : Type} [Writer ω] {renderer : Renderer}

/-- When a console takes an analysis down, and when it does not. -/
structure StopsAtCuts (console : Console ω renderer) : Prop where
  count_eq : ∀ diagnostic, (console.report diagnostic).value.count = console.count + 1
  report : ∀ diagnostic, (console.report diagnostic).value.interruptions = console.interruptions ↔
    console.Survives diagnostic
  /-- If no write fails, only the source and the span decide. -/
  unfailing : (∀ pieces, (Writer.writeAll console.sink pieces).2 = none) → ∀ diagnostic,
    ((console.report diagnostic).value.interruptions = console.interruptions ↔
      console.source = [] ∨ diagnostic.span.KeepsCharacters console.source)
  /-- Spans that are reversed or reach past the end do no harm. -/
  returns : ∀ diagnostic,
    (Text.isBoundary console.source diagnostic.span.start = true ∨
      Text.byteLength console.source ≤ diagnostic.span.start) →
    (Text.isBoundary console.source diagnostic.span.stop = true ∨
      Text.byteLength console.source ≤ diagnostic.span.stop) →
    (console.report diagnostic).value.interruptions = console.interruptions
  analysis : ∀ checks units,
    (ofUnits console checks units).table.reporter.interruptions = console.interruptions ↔
      console.SurvivesAll (problems checks (declared units))
  /-- Only the spans of identifiers matter. -/
  completes : ∀ checks units,
    (∀ module ∈ declared units, ∀ span ∈ module.2.identSpans,
      span.KeepsCharacters console.source) →
    (ofUnits console checks units).table.reporter.interruptions = console.interruptions

theorem stopsAtCuts (h : renderer.BreaksAtCuts) (console : Console ω renderer) :
    console.StopsAtCuts := by
  have hreport := console.interruptions_report_iff h
  have hanalysis : ∀ checks units,
      (ofUnits console checks units).table.reporter.interruptions = console.interruptions ↔
        console.SurvivesAll (problems checks (declared units)) := by
    intro checks units
    rw [reporter_ofUnits]
    exact console.interruptions_receive_iff h _
  constructor
  case count_eq => exact console.count_report
  case report => exact hreport
  case unfailing =>
    intro hw diagnostic
    exact (hreport diagnostic).trans (survives_iff_of_unfailing h hw diagnostic)
  case returns =>
    intro diagnostic hstart hstop
    refine (hreport diagnostic).mpr (.inr (.inl ?_))
    exact Span.keepsCharacters_of_ends hstart hstop
  case analysis => exact hanalysis
  case completes =>
    intro checks units hspans
    refine (hanalysis checks units).mpr ?_
    rintro ⟨before, diagnostic⟩ hd
    obtain ⟨module, hm, hspan⟩ := span_of_mem_problems (mem_of_mem_withEarlier hd)
    refine .inr (.inl ?_)
    rw [source_receive]
    exact hspans module hm _ hspan

def accented (renderer : Renderer) : Console Sink renderer :=
  .new ['é'] false (.empty none)

theorem stopsAtCuts_accented :
    Renderer.framed.BreaksAtCuts ∧ (accented .framed).StopsAtCuts :=
  ⟨Renderer.breaksAtCuts_framed, stopsAtCuts Renderer.breaksAtCuts_framed (accented .framed)⟩

/-- The one character of the source takes bytes 0 and 1, so the span starts inside of it. -/
def insideAccent : Diagnostic :=
  .plain .undeclaredModule "m" ⟨1, 2⟩

theorem not_survives_accented (h : renderer.BreaksAtCuts) :
    ¬ (accented renderer).Survives insideAccent := by
  have hw : ∀ pieces, (Writer.writeAll (accented renderer).sink pieces).2 = none := by
    intro pieces
    exact congrArg Prod.snd (Sink.writeAll_unbounded .empty pieces)
  have hcut : ¬ insideAccent.span.KeepsCharacters ['é'] :=
    fun hkeeps => absurd hkeeps.start (by decide)
  rw [survives_iff_of_unfailing h hw]
  exact not_or.mpr ⟨List.cons_ne_nil _ _, hcut⟩

/-- No renderer that breaks off at cut characters makes every report return. -/
theorem not_survives_insideAccent :
    Renderer.framed.BreaksAtCuts ∧ ∀ renderer : Renderer, renderer.BreaksAtCuts →
      ¬ ∀ (console : Console Sink renderer) (diagnostic : Diagnostic),
        (console.report diagnostic).value.interruptions = console.interruptions := by
  refine ⟨Renderer.breaksAtCuts_framed, ?_⟩
  intro renderer h hreturns
  refine not_survives_accented h ?_
  rw [← interruptions_report_iff h]
  exact hreturns (accented renderer) insideAccent

end Console

end OberonModules
