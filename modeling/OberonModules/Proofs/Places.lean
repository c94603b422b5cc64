import OberonModules.Diagnostic.Excerpt
import OberonModules.Proofs.Interruptions
import OberonModules.Proofs.LineFeeds

/-!
# Places in a source

An excerpt and the console name the same place for one diagnostic, though the one counts
the LF before an offset and the renderer of the other searches a table of lines. This
holds as long as LF is what ends the lines of the source. Only where the source ends with
LF do they differ about its end: for the excerpt one more line begins there, for the
console it belongs to the last line.
-/

namespace OberonModules

-- ---------------------------------------------------------------------------
-- The places that are printed
-- ---------------------------------------------------------------------------

/-- The second row of an excerpt names this place. -/
def Excerpt.Places (excerpt : Excerpt) (line column : Nat) : Prop :=
  excerpt.rows[1]? = some ("  --> " ++ excerpt.file ++ ":" ++ placeText line column)

/-- For the diagnostic, the console adds a rendering to its output that names this place. -/
def Console.Prints {renderer : Renderer} (layout : Renderer.Layout)
    (console : Console Sink renderer) (diagnostic : Diagnostic) (line column : Nat) : Prop :=
  (console.report diagnostic).value.sink.stored = console.sink.stored ++
    (layout.text (.ofDiagnostic diagnostic console.source console.colored) console.source line
      column).toUTF8

theorem toList_placeText (line column : Nat) :
    (placeText line column).toList = Nat.toDigits 10 line ++ ':' :: Nat.toDigits 10 column := by
  simp [placeText]

theorem toDigits_inj {n m : Nat} : Nat.toDigits 10 n = Nat.toDigits 10 m ↔ n = m := by
  refine ⟨fun h => ?_, congrArg _⟩
  have hdigits := congrArg (Nat.ofDigitChars 10 · 0) h
  simpa [Nat.ofDigitChars_toDigits] using hdigits

theorem takeWhile_toDigits (n : Nat) (rest : List Char) :
    (Nat.toDigits 10 n ++ ':' :: rest).takeWhile Char.isDigit = Nat.toDigits 10 n := by
  rw [List.takeWhile_append_of_pos fun _ => Nat.isDigit_of_mem_toDigits (by decide) (by decide)]
  simp

theorem placeText_inj {line column line' column' : Nat} :
    placeText line column = placeText line' column' ↔ line = line' ∧ column = column' := by
  constructor
  · intro h
    have hlist := congrArg String.toList h
    rw [toList_placeText, toList_placeText] at hlist
    have hline := congrArg (List.takeWhile Char.isDigit) hlist
    rw [takeWhile_toDigits, takeWhile_toDigits, toDigits_inj] at hline
    subst hline
    simpa [toDigits_inj] using hlist
  · rintro ⟨rfl, rfl⟩
    rfl

theorem Renderer.Layout.toUTF8_text_inj {layout : Layout} {report : Report} {source : List Char}
    {line column line' column' : Nat} :
    (layout.text report source line column).toUTF8 =
        (layout.text report source line' column').toUTF8 ↔ line = line' ∧ column = column' := by
  simp [text, String.toByteArray_inj, placeText_inj]

/-- What is printed names one place only. -/
theorem Console.Prints.iff_eq {renderer : Renderer} {layout : Renderer.Layout}
    {console : Console Sink renderer} {diagnostic : Diagnostic} {line column line' column' : Nat}
    (h : console.Prints layout diagnostic line column) :
    console.Prints layout diagnostic line' column' ↔ line' = line ∧ column' = column := by
  rw [Prints] at h
  rw [Prints, h, ByteArray.append_right_inj, Renderer.Layout.toUTF8_text_inj]
  exact and_congr eq_comm eq_comm

/-- The offset is at the end of a source that ends with LF, or past it. -/
def Text.AfterLastLF (source : List Char) (offset : Nat) : Prop :=
  byteLength source ≤ offset ∧ source.getLast? = some '\n'

/-- An excerpt and the console name one place for the diagnostic. After the last LF of the source
the excerpt names the beginning of one more line. -/
structure SamePlace {renderer : Renderer} (layout : Renderer.Layout)
    (console : Console Sink renderer) (diagnostic : Diagnostic) (file : Option String)
    (location : Location) : Prop where
  excerpt : (Excerpt.ofDiagnostic diagnostic console.source file).Places location.line
    location.column
  printed : ¬ Text.AfterLastLF console.source diagnostic.span.start → ∀ line column,
    console.Prints layout diagnostic line column ↔
      line = location.line ∧ column = location.column
  afterLastLF : Text.AfterLastLF console.source diagnostic.span.start → location.column = 1 ∧
    ∃ lastLine lastColumn, location.line = lastLine + 1 ∧ ∀ line column,
      console.Prints layout diagnostic line column ↔ line = lastLine ∧ column = lastColumn

theorem Excerpt.places_location (diagnostic : Diagnostic) (source : List Char)
    (file : Option String) :
    (ofDiagnostic diagnostic source file).Places
      (Location.ofOffset source diagnostic.span.start).line
      (Location.ofOffset source diagnostic.span.start).column := rfl

theorem Location.line_ofOffset (source : List Char) (offset : Nat) :
    (ofOffset source offset).line = (Text.cutFloor source offset).before.reverse.count '\n' + 1 := by
  rw [List.count_reverse]
  rfl

theorem Location.column_ofOffset (source : List Char) (offset : Nat) :
    (ofOffset source offset).column =
      (Text.lineSoFar (Text.cutFloor source offset).before.reverse).length + 1 := by
  rw [Text.lineSoFar, List.reverse_reverse]
  rfl

-- ---------------------------------------------------------------------------
-- Both places from one cut
-- ---------------------------------------------------------------------------

variable {source before after : List Char} {offset : Nat}

theorem Location.ofOffset_of_cutFloor
    (hcut : Text.cutFloor source offset = ⟨before.reverse, after⟩) :
    (ofOffset source offset).line = before.count '\n' + 1 ∧
      (ofOffset source offset).column = (Text.lineSoFar before).length + 1 := by
  rw [line_ofOffset, column_ofOffset, hcut, List.reverse_reverse]
  exact ⟨rfl, rfl⟩

theorem Text.afterLastLF_iff (hcut : cutFloor source offset = ⟨before.reverse, after⟩) :
    AfterLastLF source offset ↔ after = [] ∧ before.getLast? = some '\n' := by
  have htext := text_cutFloor source offset
  rw [hcut, Cut.text, List.reverse_reverse] at htext
  constructor
  · rintro ⟨hpast, hlast⟩
    obtain ⟨-, rfl⟩ := (Cut.mk.injEq ..).mp (hcut.symm.trans (cutFloor_of_le hpast))
    rw [List.append_nil] at htext
    exact ⟨rfl, htext ▸ hlast⟩
  · rintro ⟨rfl, hlast⟩
    rw [List.append_nil] at htext
    have hbytes := byteLength_before_cutFloor_le source offset
    rw [hcut, byteLength_reverse, htext] at hbytes
    exact ⟨hbytes, htext ▸ hlast⟩

/-- The source is cut where the report of a diagnostic says it is. -/
theorem Report.exists_cut {diagnostic : Diagnostic}
    (hle : diagnostic.span.start ≤ diagnostic.span.stop)
    (hk : diagnostic.span.KeepsCharacters source) (colored : Bool) :
    ∃ before after, source = before ++ after ∧
      Text.byteLength before = (ofDiagnostic diagnostic source colored).offset ∧
      Text.cutFloor source diagnostic.span.start = ⟨before.reverse, after⟩ := by
  have hoffset : (ofDiagnostic diagnostic source colored).offset =
      min diagnostic.span.start (Text.byteLength source) := by
    rw [ofDiagnostic, ← Nat.min_assoc, Nat.min_eq_left hle]
  have hkeeps := (keepsCharacters_ofDiagnostic_iff diagnostic source colored).mpr hk
  obtain ⟨before, after, hsource, hbytes⟩ := Text.isBoundary_iff.mp hkeeps.offset
  refine ⟨before, after, hsource, hbytes, Text.cutFloor_of_cutAt?_min ?_⟩
  rw [← hoffset, Text.cutAt?_eq_some_iff]
  exact ⟨by simp [Text.Cut.text, hsource], (Text.byteLength_reverse before).trans hbytes⟩

section

variable {renderer : Renderer} {layout : Renderer.Layout} {console : Console Sink renderer}
  {diagnostic : Diagnostic}

/-- The console names the place that the table of lines gives. -/
theorem Console.prints_of_lineOf (h : renderer.PlacesByLines layout)
    (hsink : console.sink.capacity = none) (hne : console.source ≠ [])
    (hk : diagnostic.span.KeepsCharacters console.source)
    (hsource : console.source = before ++ after)
    (hbytes : Text.byteLength before =
      (Report.ofDiagnostic diagnostic console.source console.colored).offset)
    {earlier later : List (List Char)} {line : List Char}
    (hline : Text.LineOf (layout.lines console.source) earlier line later before.length) :
    console.Prints layout diagnostic (earlier.length + 1)
      (before.length - earlier.flatten.length + 1) := by
  have hin := Report.within_ofDiagnostic diagnostic console.source console.colored
  have hkeeps := (Report.keepsCharacters_ofDiagnostic_iff _ _ console.colored).mpr hk
  have hopen : console.sink = ⟨console.sink.stored, none⟩ := by rw [← hsink]
  rw [Prints, value_report, render, hopen]
  rw [hsource] at hne hin hkeeps hline ⊢
  exact h.stored_eq _ hne hin hkeeps (hsource ▸ hbytes) hline

/-- Where only LF ends lines, the excerpt and the console name one place for a diagnostic, except
after the last LF. -/
theorem samePlace_of_onlyLineFeeds (h : renderer.PlacesByLines layout)
    (hsink : console.sink.capacity = none) (hne : console.source ≠ [])
    (hlf : Text.onlyLineFeeds console.source = true)
    (hle : diagnostic.span.start ≤ diagnostic.span.stop)
    (hk : diagnostic.span.KeepsCharacters console.source) (file : Option String) :
    SamePlace layout console diagnostic file
      (Location.ofOffset console.source diagnostic.span.start) := by
  obtain ⟨before, after, hsource, hbytes, hcut⟩ := Report.exists_cut hle hk console.colored
  have hflat := h.flatten_lines console.source
  have hlines : layout.lines console.source ≠ [] := by
    intro hnil
    exact hne (by simpa [hnil] using hflat.symm)
  obtain ⟨earlier, line, later, hline⟩ := Text.exists_lineOf hlines before.length
  have hprints := Console.prints_of_lineOf h hsink hne hk hsource hbytes hline
  have hended := h.endedByLF_lines hne hlf
  obtain ⟨hrow, hcolumn⟩ := Location.ofOffset_of_cutFloor hcut
  constructor
  case excerpt => exact Excerpt.places_location diagnostic console.source file
  case printed =>
    intro hend
    rw [Text.afterLastLF_iff hcut, not_and_or] at hend
    obtain ⟨hcount, hlength⟩ := hended.place hline (hflat.trans hsource) hend
    rw [hcount, hlength, Nat.add_sub_cancel_left] at hprints
    rw [hrow, hcolumn]
    exact fun _ _ => hprints.iff_eq
  case afterLastLF =>
    intro hend
    obtain ⟨rfl, hlast⟩ := (Text.afterLastLF_iff hcut).mp hend
    rw [List.append_nil] at hsource
    refine ⟨?_, _, _, ?_, fun _ _ => hprints.iff_eq⟩
    · obtain ⟨text, rfl⟩ := List.getLast?_eq_some_iff.mp hlast
      rw [hcolumn]
      simp [Text.lineSoFar]
    · rw [hrow, hended.place_end hline (hflat.trans hsource) hlast]

end

/-- Six bytes: two of the accented letter, CR, LF, another letter and LF. -/
def twoLines (colored : Bool) : Console :=
  .new ['é', '\r', '\n', 'x', '\n'] colored (.empty none)

/-- The letter of the second line. -/
def onSecondLine : Diagnostic :=
  .plain .undeclaredModule "m" ⟨4, 5⟩

def pastTheEnd : Diagnostic :=
  .plain .undeclaredModule "m" ⟨6, 9⟩

theorem samePlace_twoLines :
    Renderer.framed.PlacesByLines Renderer.framedLayout ∧
    (∀ colored, (twoLines colored).sink.capacity = none ∧ (twoLines colored).source ≠ [] ∧
      Text.onlyLineFeeds (twoLines colored).source = true) ∧
    (onSecondLine.span.start ≤ onSecondLine.span.stop ∧
      onSecondLine.span.KeepsCharacters (twoLines false).source ∧
      SamePlace Renderer.framedLayout (twoLines false) onSecondLine none ⟨2, 1, "x"⟩) ∧
    (pastTheEnd.span.start ≤ pastTheEnd.span.stop ∧
      pastTheEnd.span.KeepsCharacters (twoLines true).source ∧
      SamePlace Renderer.framedLayout (twoLines true) pastTheEnd (some "A.mod") ⟨3, 1, ""⟩) := by
  have hne : ∀ colored, (twoLines colored).source ≠ [] := fun _ => List.cons_ne_nil _ _
  have hlf : ∀ colored, Text.onlyLineFeeds (twoLines colored).source = true := by decide
  have hsecond : onSecondLine.span.KeepsCharacters (twoLines false).source :=
    ⟨by decide, by decide⟩
  have hpast : pastTheEnd.span.KeepsCharacters (twoLines true).source := ⟨by decide, by decide⟩
  exact ⟨Renderer.placesByLines_framed, fun colored => ⟨rfl, hne colored, hlf colored⟩,
    ⟨by decide, hsecond, samePlace_of_onlyLineFeeds Renderer.placesByLines_framed rfl (hne false)
      (hlf false) (by decide) hsecond none⟩,
    ⟨by decide, hpast, samePlace_of_onlyLineFeeds Renderer.placesByLines_framed rfl (hne true)
      (hlf true) (by decide) hpast (some "A.mod")⟩⟩

end OberonModules
