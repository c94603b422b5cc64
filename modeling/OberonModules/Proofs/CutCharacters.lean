import OberonModules.Proofs.Carets

/-!
# Spans that cut a character

If an end of a span is inside a character, the excerpt counts the bytes of the span in
place of characters. The carets begin below the character that the span starts in, they
stop where the line stops, and there is one for each character that the span touches.
But there may be more: they are as many as those characters only if these are as many
as the bytes, or all that is left of the line.
-/

namespace OberonModules

open Text

/-- The carets are as many as the characters of the line that the span touches. -/
def Diagnostic.CountsCharacters (diagnostic : Diagnostic) (source : List Char)
    (file : Option String) : Prop :=
  diagnostic.PrintsMarks source file
    (spaces ((diagnostic.span.place source).column - 1) ++
      run (max 1 (diagnostic.span.touched source)) '^')

/-- The carets are as many as the bytes of the span, up to the end of the line. -/
structure Diagnostic.CountsBytes (diagnostic : Diagnostic) (source : List Char)
    (file : Option String) (count : Nat) : Prop where
  marks : diagnostic.PrintsMarks source file
    (spaces ((diagnostic.span.place source).column - 1) ++ run count '^')
  count_eq : count = max 1 (min diagnostic.span.length
    ((diagnostic.span.place source).content.length -
      ((diagnostic.span.place source).column - 1)))
  /-- No character that the span touches is without a caret. -/
  touched_le : diagnostic.span.touched source ≤ count
  countsCharacters_iff : diagnostic.CountsCharacters source file ↔
    diagnostic.span.length = diagnostic.span.touched source ∨
      (diagnostic.span.place source).content.length -
        ((diagnostic.span.place source).column - 1) = diagnostic.span.touched source

variable {diagnostic : Diagnostic} {span : Span} {source : List Char}

/-- Only one row of marks is printed. -/
theorem Diagnostic.PrintsMarks.count_eq {file : Option String} {indent count other : Nat}
    (h : diagnostic.PrintsMarks source file (spaces indent ++ run count '^'))
    (hother : diagnostic.PrintsMarks source file (spaces indent ++ run other '^')) :
    count = other := by
  have hrows := Option.some.inj (h.marks.symm.trans hother.marks)
  have hruns := (String.append_right_inj _).mp ((String.append_right_inj _).mp hrows)
  simpa using congrArg String.length hruns

theorem Excerpt.caretCount_of_cut (hcut : ¬ span.KeepsCharacters source) :
    caretCount source span (span.place source) =
      max 1 (min (max 1 span.length) (restOfLine source span.start).length) := by
  have hslice := Option.eq_none_iff_forall_ne_some.mpr
    (not_exists.mp (mt (Span.keepsCharacters_iff span source).mpr hcut))
  rw [caretCount, coveredLength, hslice, String.length_toList, Span.length_content_place,
    Nat.add_sub_cancel_left]

/-- A character takes a byte at least, and the one that the span starts in also takes the byte at its
start. -/
theorem Span.touched_le_length (source : List Char) (hlt : span.start < span.stop) :
    span.touched source ≤ span.length := by
  rw [touched_eq, length]
  cases hrest : restOfLine source span.start with
  | nil => exact Nat.zero_le _
  | cons c rest =>
    have hexceeds := restOfLine_exceeds hrest
    have hfloor := byteLength_before_cutFloor_le source span.start
    have hle := beginWithin_le rest
      (span.stop - byteLength (cutFloor source span.start).before - c.utf8Size)
    rw [beginWithin_cons (by omega)]
    omega

theorem Span.touched_pos (source : List Char) (hlt : span.start < span.stop)
    (hrest : 0 < (restOfLine source span.start).length) :
    0 < span.touched source := by
  have hfloor := byteLength_before_cutFloor_le source span.start
  rw [touched_eq, lt_beginWithin_iff]
  refine ⟨hrest, ?_⟩
  rw [List.take_zero, byteLength_nil]
  omega

/-- Where a span cuts a character, its bytes are counted. -/
theorem Diagnostic.countsBytes_of_cut (hlt : diagnostic.span.start < diagnostic.span.stop)
    (hcut : ¬ diagnostic.span.KeepsCharacters source)
    (hcolumn : (diagnostic.span.place source).column ≤ 65536) (file : Option String) :
    ∃ count, diagnostic.CountsBytes source file count := by
  have hmarks := printsMarks hcolumn file
  have hlength := Span.touched_le_length source hlt
  have hrest := Span.touched_le_rest diagnostic.span source
  have hpos := Span.touched_pos source hlt
  have hbytes : 0 < diagnostic.span.length := Nat.sub_pos_of_lt hlt
  rw [Excerpt.caretCount_of_cut hcut] at hmarks
  refine ⟨_, hmarks, ?count_eq, ?touched_le, ?countsCharacters_iff⟩
  case count_eq =>
    rw [Span.length_content_place, Nat.add_sub_cancel_left]
    omega
  case touched_le => omega
  case countsCharacters_iff =>
    rw [Span.length_content_place, Nat.add_sub_cancel_left]
    constructor
    · intro hcounts
      have hcount := hmarks.count_eq hcounts
      omega
    · intro hall
      have hcount : max 1 (min (max 1 diagnostic.span.length)
            (restOfLine source diagnostic.span.start).length) =
          max 1 (diagnostic.span.touched source) := by omega
      rwa [hcount] at hmarks

/-- A character of three bytes and one of a single byte. -/
def euroLetter : List Char := ['€', 'a']

/-- The last two bytes of the first character. -/
def insideEuro : Diagnostic :=
  .plain .undeclaredModule "m" ⟨1, 3⟩

/-- From the second character on, beyond the end of the first line and into a character of the
second. -/
def intoNextLine : Diagnostic :=
  .plain .undeclaredModule "m" ⟨1, 5⟩

theorem Diagnostic.countsBytes_euroLetter :
    (insideEuro.span.start < insideEuro.span.stop ∧
      ¬ insideEuro.span.KeepsCharacters euroLetter ∧
      (insideEuro.span.place euroLetter).column ≤ 65536 ∧
      ∃ count, insideEuro.CountsBytes euroLetter none count) ∧
    (intoNextLine.span.start < intoNextLine.span.stop ∧
      ¬ intoNextLine.span.KeepsCharacters twoWidths ∧
      (intoNextLine.span.place twoWidths).column ≤ 65536 ∧
      ∃ count, intoNextLine.CountsBytes twoWidths (some "A.mod") count) := by
  have hinside : ¬ insideEuro.span.KeepsCharacters euroLetter :=
    fun hk => absurd hk.start (by decide)
  have hinto : ¬ intoNextLine.span.KeepsCharacters twoWidths :=
    fun hk => absurd hk.stop (by decide)
  have hfirst : (insideEuro.span.place euroLetter).column ≤ 65536 := by decide
  have hsecond : (intoNextLine.span.place twoWidths).column ≤ 65536 := by decide
  exact ⟨⟨by decide, hinside, hfirst, countsBytes_of_cut (by decide) hinside hfirst none⟩,
    ⟨by decide, hinto, hsecond, countsBytes_of_cut (by decide) hinto hsecond (some "A.mod")⟩⟩

/-- Two carets are printed for the one character that the span touches. -/
theorem Diagnostic.not_countsCharacters_insideEuro :
    insideEuro.span.start < insideEuro.span.stop ∧
      ¬ insideEuro.span.KeepsCharacters euroLetter ∧
      (insideEuro.span.place euroLetter).column ≤ 65536 ∧
      insideEuro.span.touched euroLetter = 1 ∧
      insideEuro.excerpt? euroLetter none =
        some "error[E200]: m\n  --> <input>:1:1\n  |\n1 | €a\n  | ^^\n" ∧
      ¬ insideEuro.CountsCharacters euroLetter none := by
  refine ⟨by decide, fun hk => absurd hk.start (by decide), by decide, by decide, by decide, ?_⟩
  exact fun h => absurd h.marks (by decide)

end OberonModules
