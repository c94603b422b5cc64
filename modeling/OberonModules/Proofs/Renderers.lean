import OberonModules.Console.Snippet
import OberonModules.Proofs.LineFeeds
import OberonModules.Proofs.Sinks

/-!
# What is relied on of a renderer

What a console does is proved for every renderer of which some things are known: where
its renderings break off, how it goes about writing, and which place it names. Each is
stated here by itself, and only those that a result needs are among its hypotheses. The
renderer of frames keeps to all of them.
-/

namespace OberonModules

/-- All offsets lie in the source, those of the label in order. -/
structure Report.Within (report : Report) (source : List Char) : Prop where
  offset_le : report.offset ≤ Text.byteLength source
  start_le_stop : report.label.start ≤ report.label.stop
  stop_le : report.label.stop ≤ Text.byteLength source

/-- No offset is inside a character. -/
structure Report.KeepsCharacters (report : Report) (source : List Char) : Prop where
  offset : Text.isBoundary source report.offset = true
  start : Text.isBoundary source report.label.start = true
  stop : Text.isBoundary source report.label.stop = true

def placeText (line column : Nat) : String :=
  toString line ++ ":" ++ toString column

namespace Renderer

-- ---------------------------------------------------------------------------
-- Assumptions
-- ---------------------------------------------------------------------------

/-- On a source with text, a rendering breaks off exactly if an offset of its report is inside a
character; without text it never does. A writer that fails may end it before that. -/
structure BreaksAtCuts (renderer : Renderer) : Prop where
  returns : ∀ {ω : Type} [Writer ω] {report : Report} {source : List Char} (writer : ω),
    report.Within source → source = [] ∨ report.KeepsCharacters source →
    (renderer.write report source writer).2 ≠ .interrupted
  stops : ∀ {ω : Type} [Writer ω] {report : Report} {source : List Char} (writer : ω),
    report.Within source → source ≠ [] → ¬ report.KeepsCharacters source →
    (renderer.write report source writer).2 ≠ .complete
  /-- Only the writer makes a rendering fail. -/
  of_refused : ∀ {ω : Type} [Writer ω] {report : Report} {source : List Char} {writer : ω}
    {reason : String}, (renderer.write report source writer).2 = .refused reason →
    ∃ pieces, (Writer.writeAll writer pieces).2 = some reason

theorem BreaksAtCuts.ne_interrupted_iff {renderer : Renderer} (h : renderer.BreaksAtCuts)
    {ω : Type} [Writer ω] {report : Report} {source : List Char} (writer : ω)
    (hin : report.Within source) :
    (renderer.write report source writer).2 ≠ .interrupted ↔
      source = [] ∨ report.KeepsCharacters source ∨
        ∃ reason, (renderer.write report source writer).2 = .refused reason := by
  constructor
  · intro hend
    by_contra hnone
    obtain ⟨hne, hcut, hrefused⟩ := not_or.mp hnone |>.imp_right not_or.mp
    cases he : (renderer.write report source writer).2 with
    | complete => exact h.stops writer hin hne hcut he
    | refused reason => exact hrefused ⟨reason, he⟩
    | interrupted => exact hend he
  · rintro (hnil | hkeeps | ⟨reason, hrefused⟩)
    · exact h.returns writer hin (.inl hnil)
    · exact h.returns writer hin (.inr hkeeps)
    · simp [hrefused]

/-- What is written does not depend on the writer. The first write that fails ends the rendering,
which passes the reason on. -/
def WritesInTurn (renderer : Renderer) : Prop :=
  ∀ report source, ∃ (pieces : List ByteArray) (ending : Ending),
    (∀ reason, ending ≠ .refused reason) ∧ ∀ {ω : Type} [Writer ω] (writer : ω),
      renderer.write report source writer =
        ((Writer.writeAll writer pieces).1,
          ending.unlessRefused (Writer.writeAll writer pieces).2)

/-- A rendering that does not break off is complete, unless the writer fails. -/
theorem WritesInTurn.exists_pieces {renderer : Renderer} (ht : renderer.WritesInTurn)
    (hb : renderer.BreaksAtCuts) {report : Report} {source : List Char}
    (hin : report.Within source) (hkeeps : report.KeepsCharacters source) :
    ∃ pieces : List ByteArray, ∀ {ω : Type} [Writer ω] (writer : ω),
      renderer.write report source writer =
        ((Writer.writeAll writer pieces).1,
          Ending.complete.unlessRefused (Writer.writeAll writer pieces).2) := by
  obtain ⟨pieces, ending, hfailed, hwrite⟩ := ht report source
  -- How the rendering ends where nothing fails shows with a sink that has no bound.
  have hreturns := hb.returns (Sink.empty none) hin (.inr hkeeps)
  rw [hwrite, Sink.empty, Sink.writeAll_unbounded] at hreturns
  cases ending with
  | complete => exact ⟨pieces, hwrite⟩
  | refused reason => exact absurd rfl (hfailed reason)
  | interrupted => exact absurd rfl hreturns

/-- The lines that a renderer takes a source to have, and what it writes before and after the place
of a report. -/
structure Layout where
  lines : List Char → List (List Char)
  above : Report → List Char → String
  below : Report → List Char → String

/-- All of a rendering that gives this place. -/
def Layout.text (layout : Layout) (report : Report) (source : List Char) (line column : Nat) :
    String :=
  layout.above report source ++ placeText line column ++ layout.below report source

/-- The place is found in a table of the lines: the number of the line that has the offset, and the
number of characters before it on this line, both counted from 1. -/
structure PlacesByLines (renderer : Renderer) (layout : Layout) : Prop where
  flatten_lines : ∀ source, (layout.lines source).flatten = source
  /-- A line ends after its LF. What follows the last LF is a line only if it is not empty. -/
  endedByLF_lines : ∀ {source}, source ≠ [] → Text.onlyLineFeeds source = true →
    Text.EndedByLF (layout.lines source)
  stored_eq : ∀ {report : Report} {before after line : List Char} {earlier later}
    (stored : ByteArray), before ++ after ≠ [] → report.Within (before ++ after) →
    report.KeepsCharacters (before ++ after) → Text.byteLength before = report.offset →
    Text.LineOf (layout.lines (before ++ after)) earlier line later before.length →
    (renderer.write report (before ++ after) (⟨stored, none⟩ : Sink)).1.stored =
      stored ++ (layout.text report (before ++ after) (earlier.length + 1)
        (before.length - earlier.flatten.length + 1)).toUTF8

end Renderer

-- ---------------------------------------------------------------------------
-- Frames
-- ---------------------------------------------------------------------------

theorem Snippet.isSome_ofReport?_iff {report : Report} {source : List Char} :
    (ofReport? report source).isSome = true ↔ report.KeepsCharacters source := by
  have hkeeps : report.KeepsCharacters source ↔ _ ∧ _ ∧ _ :=
    ⟨fun h => ⟨h.offset, h.start, h.stop⟩, fun ⟨offset, start, stop⟩ => ⟨offset, start, stop⟩⟩
  rw [hkeeps]
  simp only [ofReport?, Text.isBoundary, Option.bind_eq_bind, Option.isSome_bind]
  cases Text.cutAt? source report.offset with
  | none => simp
  | some place =>
    cases Text.cutAt? source report.label.start with
    | none => simp
    | some first => cases Text.cutAt? source report.label.stop <;> simp

/-- The place of a snippet is that of the offset in the lines of the source. -/
theorem Snippet.place_ofReport? {report : Report} {before after line : List Char}
    {earlier later : List (List Char)} {snippet : Snippet}
    (h : ofReport? report (before ++ after) = some snippet)
    (hbytes : Text.byteLength before = report.offset)
    (hline : Text.LineOf (Text.lines (before ++ after)) earlier line later before.length) :
    snippet.place =
      placeText (earlier.length + 1) (before.length - earlier.flatten.length + 1) := by
  have hcut : Text.cutAt? (before ++ after) report.offset = some ⟨before.reverse, after⟩ :=
    Text.cutAt?_eq_some_iff.mpr
      ⟨by simp [Text.Cut.text], (Text.byteLength_reverse before).trans hbytes⟩
  simp only [ofReport?, hcut, Option.bind_eq_bind, Option.bind_some, Option.bind_eq_some_iff,
    List.length_reverse, Text.lineAt_of_lineOf hline] at h
  obtain ⟨start, -, stop, -, hsnippet⟩ := h
  cases hsnippet
  rfl

namespace Renderer

theorem framedRows_eq {report : Report} {source : List Char} {snippet : Snippet}
    (hne : source ≠ []) (h : Snippet.ofReport? report source = some snippet) :
    framedRows report source = (title report :: snippet.rows report.colored, .complete) := by
  obtain ⟨c, rest, rfl⟩ := List.exists_cons_of_ne_nil hne
  simp [framedRows, h]

theorem ending_framedRows (report : Report) (source : List Char) :
    ((framedRows report source).2 = .complete ∧
        (source = [] ∨ report.KeepsCharacters source)) ∨
      ((framedRows report source).2 = .interrupted ∧
        source ≠ [] ∧ ¬ report.KeepsCharacters source) := by
  rw [← Snippet.isSome_ofReport?_iff, framedRows]
  cases source with
  | nil => simp
  | cons c source => cases Snippet.ofReport? report (c :: source) <;> simp

theorem bytesOf_pieces (rows : List String) :
    bytesOf (pieces rows) = (String.join (rows.map (· ++ "\n"))).toUTF8 := by
  induction rows with
  | nil => rfl
  | cons row rows ih =>
    rw [pieces, List.map_cons, bytesOf, ← pieces, ih]
    simp

theorem writesInTurn_framed : framed.WritesInTurn := by
  intro report source
  refine ⟨pieces (framedRows report source).1, (framedRows report source).2, ?_, fun _ => rfl⟩
  intro reason
  obtain ⟨hend, -⟩ | ⟨hend, -⟩ := ending_framedRows report source <;> simp [hend]

theorem ending_framed {ω : Type} [Writer ω] (report : Report) (source : List Char) (writer : ω) :
    (framed.write report source writer).2 = (framedRows report source).2 ∨
      ∃ pieces reason, (Writer.writeAll writer pieces).2 = some reason ∧
        (framed.write report source writer).2 = .refused reason := by
  let written := Writer.writeAll writer (pieces (framedRows report source).1)
  have hwrite : (framed.write report source writer).2 =
      (framedRows report source).2.unlessRefused written.2 := rfl
  rw [hwrite]
  cases hr : written.2 with
  | none => exact .inl rfl
  | some reason => exact .inr ⟨_, reason, hr, rfl⟩

/-- There is a frame exactly if all offsets keep to characters. -/
theorem breaksAtCuts_framed : framed.BreaksAtCuts := by
  constructor
  case returns =>
    intro ω _ report source writer _ hkeeps
    obtain ⟨hend, -⟩ | ⟨-, hne, hcut⟩ := ending_framedRows report source
    · obtain hw | ⟨-, reason, -, hw⟩ := ending_framed report source writer <;> simp [hw, hend]
    · exact absurd hkeeps (not_or.mpr ⟨hne, hcut⟩)
  case stops =>
    intro ω _ report source writer _ hne hcut
    obtain ⟨-, hkeeps⟩ | ⟨hend, -⟩ := ending_framedRows report source
    · exact absurd hkeeps (not_or.mpr ⟨hne, hcut⟩)
    · obtain hw | ⟨-, reason, -, hw⟩ := ending_framed report source writer <;> simp [hw, hend]
  case of_refused =>
    intro ω _ report source writer reason h
    obtain hw | ⟨pieces, other, hall, hw⟩ := ending_framed report source writer
    · rw [hw] at h
      obtain ⟨hend, -⟩ | ⟨hend, -⟩ := ending_framedRows report source <;> simp [hend] at h
    · rw [hw, Ending.refused.injEq] at h
      exact ⟨pieces, h ▸ hall⟩

def framedLayout : Layout where
  lines := Text.lines
  above report source :=
    match Snippet.ofReport? report source with
    | some snippet => title report ++ "\n" ++ snippet.corner report.colored
    | none => ""
  below report source :=
    match Snippet.ofReport? report source with
    | some snippet => Ink.frame.paint report.colored "]" ++ "\n" ++
        String.join ((snippet.rowsBelow report.colored).map (· ++ "\n"))
    | none => ""

theorem placesByLines_framed : framed.PlacesByLines framedLayout := by
  constructor
  case flatten_lines => exact Text.flatten_lines
  case endedByLF_lines => exact fun _ hlf => Text.endedByLF_lines hlf
  case stored_eq =>
    intro report before after line earlier later stored hne _ hkeeps hbytes hline
    obtain ⟨snippet, hs⟩ := Option.isSome_iff_exists.mp (Snippet.isSome_ofReport?_iff.mpr hkeeps)
    have hrows : framedRows report (before ++ after) = _ := framedRows_eq hne hs
    have hplace := Snippet.place_ofReport? hs hbytes hline
    simp only [framed, hrows, Sink.writeAll_unbounded, bytesOf_pieces, Layout.text, framedLayout,
      hs, Snippet.rows, hplace, List.map_cons, String.join_cons, String.append_assoc]

end Renderer

end OberonModules
