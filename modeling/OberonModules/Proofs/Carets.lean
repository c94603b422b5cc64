import Mathlib.Data.Nat.Count
import OberonModules.Proofs.LocatedOffsets

/-!
# Carets under a span

An excerpt shows one line of the source, and carets in the row below it. Both rows begin
with a gutter as wide as the number of the line, so that a caret stands under the
character in its column. If the span does not cut a character, the carets are under
exactly those of its characters that are on the line. A span without one has a single
caret, at its start.
-/

namespace OberonModules

-- ---------------------------------------------------------------------------
-- Parts of a text
-- ---------------------------------------------------------------------------

namespace Text

/-- Number of characters of a text that begin within so many bytes. -/
def beginWithin : List Char → Nat → Nat
  | [], _ => 0
  | c :: rest, bytes => if bytes = 0 then 0 else beginWithin rest (bytes - c.utf8Size) + 1

@[simp] theorem beginWithin_nil (bytes : Nat) : beginWithin [] bytes = 0 := rfl

@[simp] theorem beginWithin_zero (text : List Char) : beginWithin text 0 = 0 := by
  cases text <;> rfl

theorem beginWithin_cons {bytes : Nat} (h : 0 < bytes) (c : Char) (rest : List Char) :
    beginWithin (c :: rest) bytes = beginWithin rest (bytes - c.utf8Size) + 1 :=
  if_neg (Nat.ne_of_gt h)

theorem beginWithin_le_length (text : List Char) (bytes : Nat) :
    beginWithin text bytes ≤ text.length := by
  fun_induction beginWithin text bytes with
  | case1 => exact Nat.le_refl _
  | case2 => exact Nat.zero_le _
  | case3 c rest bytes h ih => exact Nat.succ_le_succ ih

theorem beginWithin_le (text : List Char) (bytes : Nat) : beginWithin text bytes ≤ bytes := by
  fun_induction beginWithin text bytes with
  | case1 => exact Nat.zero_le _
  | case2 => exact Nat.le_refl _
  | case3 c rest bytes h ih =>
    have hc := c.utf8Size_pos
    omega

/-- A character begins within so many bytes if those before it take fewer. -/
theorem lt_beginWithin_iff {text : List Char} {bytes position : Nat} :
    position < beginWithin text bytes ↔
      position < text.length ∧ byteLength (text.take position) < bytes := by
  fun_induction beginWithin text bytes generalizing position with
  | case1 => simp
  | case2 => simp
  | case3 c rest bytes h ih =>
    cases position with
    | zero => simp [Nat.pos_of_ne_zero h]
    | succ position =>
      rw [Nat.succ_lt_succ_iff, ih, List.length_cons, Nat.succ_lt_succ_iff, List.take_succ_cons,
        byteLength_cons, Nat.lt_sub_iff_add_lt']

theorem beginWithin_of_le {text : List Char} {bytes : Nat} (h : byteLength text ≤ bytes) :
    beginWithin text bytes = text.length := by
  induction text generalizing bytes with
  | nil => rfl
  | cons c text ih =>
    have hc := c.utf8Size_pos
    rw [byteLength_cons] at h
    rw [beginWithin_cons (by omega), ih (by omega), List.length_cons]

/-- Of a line that goes on after a part of it, what begins within the bytes of the part is in it. -/
theorem beginWithin_takeWhile (covered after : List Char) :
    beginWithin ((covered ++ after).takeWhile (· ≠ '\n')) (byteLength covered) =
      (covered.takeWhile (· ≠ '\n')).length := by
  induction covered with
  | nil => simp
  | cons c covered ih =>
    by_cases h : c = '\n'
    · simp [h]
    · have hc := c.utf8Size_pos
      rw [List.cons_append, List.takeWhile_cons_of_pos (by simpa using h),
        List.takeWhile_cons_of_pos (by simpa using h), byteLength_cons,
        beginWithin_cons (Nat.add_pos_left hc _), Nat.add_sub_cancel_left, ih, List.length_cons]

theorem isSome_slice?_iff {text : List Char} {start stop : Nat} :
    (slice? text start stop).isSome = true ↔
      start ≤ stop ∧ isBoundary text start = true ∧ isBoundary text stop = true := by
  simp only [Option.isSome_iff_exists, slice?_eq_some_iff, isBoundary_iff]
  constructor
  · rintro ⟨covered, before, after, rfl, rfl, rfl⟩
    refine ⟨?_, ⟨before, covered ++ after, List.append_assoc .., rfl⟩, ⟨_, after, rfl, rfl⟩⟩
    rw [byteLength_append]
    exact Nat.le_add_right ..
  · rintro ⟨hle, ⟨first, rest, rfl, rfl⟩, second, after, htext, rfl⟩
    obtain ⟨covered, rfl, rfl⟩ | ⟨more, rfl, hafter⟩ := List.append_eq_append_iff.mp htext
    · exact ⟨covered, first, after, (List.append_assoc ..).symm, rfl, rfl⟩
    · rw [byteLength_append] at hle
      have hmore : more = [] := eq_nil_of_byteLength (by omega)
      subst hmore
      exact ⟨[], second, rest, by simp, by simp, by simp⟩

/-- The characters from an offset up to the end of its line. -/
def restOfLine (source : List Char) (offset : Nat) : List Char :=
  (cutFloor source offset).after.takeWhile (· ≠ '\n')

/-- The first character of the rest reaches beyond the offset. -/
theorem restOfLine_exceeds {source rest : List Char} {c : Char} {offset : Nat}
    (h : restOfLine source offset = c :: rest) :
    offset < byteLength (cutFloor source offset).before + c.utf8Size := by
  obtain ⟨more, hafter⟩ := (cutFloor source offset).after.takeWhile_prefix (· ≠ '\n')
  rw [← restOfLine, h, List.cons_append] at hafter
  exact cutFloor_next_exceeds hafter.symm

theorem length_takeWhile_append (p : Char → Bool) (covered after : List Char) :
    (covered.takeWhile p).length = min covered.length ((covered ++ after).takeWhile p).length := by
  induction covered with
  | nil => simp
  | cons c covered ih =>
    by_cases h : p c
    · simp [h, ih]
    · simp [h]

theorem getElem?_spaces_run {indent count position : Nat} :
    (spaces indent ++ run count '^').toList[position]? = some '^' ↔
      indent ≤ position ∧ position < indent + count := by
  rw [String.toList_append, spaces, toList_run, toList_run, List.getElem?_append,
    List.length_replicate]
  split
  · simp [List.getElem?_replicate]
    omega
  · simp [List.getElem?_replicate]
    omega

end Text

namespace Span

open Text

-- ---------------------------------------------------------------------------
-- The line a span starts on
-- ---------------------------------------------------------------------------

/-- Where the span starts. -/
def place (span : Span) (source : List Char) : Location :=
  Location.ofOffset source span.start

variable (span : Span) (source : List Char)

theorem column_place_pos : 0 < (span.place source).column :=
  Location.column_pos ..

theorem length_content_place :
    (span.place source).content.length =
      (span.place source).column - 1 + (restOfLine source span.start).length := by
  rw [place, ← String.length_toList, Location.content_ofOffset, Location.column_ofOffset,
    List.length_append, Nat.add_sub_cancel, restOfLine]

/-- Offsets from the start of a span on, by the characters of the rest of its line. -/
theorem offsetOf_place_add (position : Nat) :
    offsetOf source (span.place source).line ((span.place source).column + position) =
      byteLength (cutFloor source span.start).before +
        byteLength ((restOfLine source span.start).take position) := by
  have h := Location.offsetOf_ofOffset source span.start ((span.place source).column + position)
  rw [place, Location.column_ofOffset, Location.content_ofOffset, Nat.add_right_comm,
    Nat.add_sub_cancel, List.take_length_add_append, byteLength_append] at h
  rw [place, Location.column_ofOffset, Nat.add_right_comm, restOfLine]
  omega

/-- A character before the start of a span ends there, at the latest. -/
theorem offsetOf_before_place {column : Nat} (h : column < (span.place source).column) :
    offsetOf source (span.place source).line (column + 1) ≤
      byteLength (cutFloor source span.start).before := by
  have hoffset := Location.offsetOf_ofOffset source span.start (column + 1)
  rw [place, Location.column_ofOffset] at h
  rw [Location.content_ofOffset, Nat.add_sub_cancel,
    List.take_append_of_le_length (Nat.le_of_lt_succ h)] at hoffset
  have hle := byteLength_le_of_prefix
    (List.take_prefix column (lineSoFar (cutFloor source span.start).before.reverse))
  rw [place]
  omega

-- ---------------------------------------------------------------------------
-- Characters that a span touches
-- ---------------------------------------------------------------------------

/-- The span shares a byte with the character in this column of a line. -/
def Touches (line column : Nat) : Prop :=
  offsetOf source line column < span.stop ∧ span.start < offsetOf source line (column + 1)

instance (line column : Nat) : Decidable (span.Touches source line column) :=
  inferInstanceAs (Decidable (_ ∧ _))

/-- Number of characters that the span touches in the line it starts on. -/
def touched : Nat :=
  Nat.count (fun index => span.Touches source (span.place source).line (index + 1))
    (span.place source).content.length

/-- Of the rest of the line, a span touches what begins before it stops. -/
theorem touches_from_iff {position : Nat}
    (h : position < (restOfLine source span.start).length) :
    span.Touches source (span.place source).line ((span.place source).column + position) ↔
      position < beginWithin (restOfLine source span.start)
        (span.stop - byteLength (cutFloor source span.start).before) := by
  have hnext : span.start < offsetOf source (span.place source).line
      ((span.place source).column + (position + 1)) := by
    rw [offsetOf_place_add]
    cases hrest : restOfLine source span.start with
    | nil => simp [hrest] at h
    | cons c rest =>
      have hexceeds := restOfLine_exceeds hrest
      rw [List.take_succ_cons, byteLength_cons]
      omega
  rw [Touches, Nat.add_assoc, and_iff_left hnext, offsetOf_place_add, lt_beginWithin_iff,
    and_iff_right h, Nat.lt_sub_iff_add_lt']

theorem not_touches_before {column : Nat} (h : column < (span.place source).column) :
    ¬ span.Touches source (span.place source).line column := by
  have hle := offsetOf_before_place span source h
  have hfloor := byteLength_before_cutFloor_le source span.start
  rw [Touches]
  omega

/-- On the line where a span starts, it touches the characters from its start on that begin before it
stops. -/
theorem touches_iff {column : Nat} (h : column ≤ (span.place source).content.length) :
    span.Touches source (span.place source).line column ↔
      (span.place source).column ≤ column ∧
        column - (span.place source).column <
          beginWithin (restOfLine source span.start)
            (span.stop - byteLength (cutFloor source span.start).before) := by
  have hpos := column_place_pos span source
  rw [length_content_place] at h
  obtain hlt | hge := Nat.lt_or_ge column (span.place source).column
  · exact iff_of_false (not_touches_before span source hlt) (by omega)
  · obtain ⟨position, rfl⟩ := Nat.exists_eq_add_of_le hge
    rw [touches_from_iff span source (by omega), Nat.add_sub_cancel_left,
      and_iff_right (Nat.le_add_right ..)]

theorem touched_eq :
    span.touched source =
      beginWithin (restOfLine source span.start)
        (span.stop - byteLength (cutFloor source span.start).before) := by
  have hpos := column_place_pos span source
  have hlength := length_content_place span source
  have hle := beginWithin_le_length (restOfLine source span.start)
    (span.stop - byteLength (cutFloor source span.start).before)
  obtain ⟨left, hleft⟩ := Nat.exists_eq_add_of_le hle
  -- Three parts of the line: what is before the start, what is touched, what is left.
  rw [touched, hlength, hleft, Nat.count_add, Nat.count_add, Nat.count_of_forall_not,
    Nat.count_of_forall, Nat.count_of_forall_not, Nat.zero_add, Nat.add_zero]
  · intro index h
    rw [touches_iff span source (by omega)]
    omega
  · intro index h
    rw [touches_iff span source (by omega)]
    omega
  · intro index h
    exact not_touches_before span source (by omega)

theorem touched_le_rest :
    span.touched source ≤ (restOfLine source span.start).length := by
  rw [touched_eq]
  exact beginWithin_le_length ..

theorem keepsCharacters_iff :
    span.KeepsCharacters source ↔ ∃ covered,
      slice? source (min span.start (min span.stop (byteLength source)))
        (min span.stop (byteLength source)) = some covered := by
  rw [← Option.isSome_iff_exists, isSome_slice?_iff, and_iff_right (Nat.min_le_right ..)]
  exact ⟨fun h => ⟨h.start, h.stop⟩, fun h => ⟨h.2, h.1⟩⟩

end Span

open Text

-- ---------------------------------------------------------------------------
-- Rows of an excerpt
-- ---------------------------------------------------------------------------

/-- The excerpt is printed, and in the row below the line where the span starts it has these marks.
The gutters are as wide as the number of the line. -/
structure Diagnostic.PrintsMarks (diagnostic : Diagnostic) (source : List Char)
    (file : Option String) (marks : String) : Prop where
  printed : diagnostic.excerpt? source file =
    some (String.join ((Excerpt.ofDiagnostic diagnostic source file).rows.map (· ++ "\n")))
  blank : (Excerpt.ofDiagnostic diagnostic source file).rows[2]? =
    some (spaces (toString (diagnostic.span.place source).line).length ++ " |")
  line : (Excerpt.ofDiagnostic diagnostic source file).rows[3]? =
    some (toString (diagnostic.span.place source).line ++ " | " ++
      (diagnostic.span.place source).content)
  marks : (Excerpt.ofDiagnostic diagnostic source file).rows[4]? =
    some (spaces (toString (diagnostic.span.place source).line).length ++ " | " ++ marks)

theorem Diagnostic.printsMarks {diagnostic : Diagnostic} {source : List Char}
    (h : (diagnostic.span.place source).column ≤ 65536) (file : Option String) :
    diagnostic.PrintsMarks source file
      (spaces ((diagnostic.span.place source).column - 1) ++
        run (Excerpt.caretCount source diagnostic.span (diagnostic.span.place source)) '^') := by
  constructor
  case printed => exact if_pos (Nat.sub_le_of_le_add h)
  case blank => rfl
  case line => rfl
  case marks =>
    rw [← String.append_assoc]
    rfl

-- ---------------------------------------------------------------------------
-- Carets
-- ---------------------------------------------------------------------------

/-- What the span covers, its ends taken back to the end of the source. -/
def Span.Covers (span : Span) (source covered : List Char) : Prop :=
  ∃ before after, source = before ++ covered ++ after ∧
    byteLength before = min span.start (byteLength source) ∧
    byteLength (before ++ covered) = min span.stop (byteLength source)

/-- Carets mark what the span covers of the line it starts on. -/
structure Span.UnderlinedBy (span : Span) (source : List Char) (marks : String) : Prop where
  carets : ∃ covered, span.Covers source covered ∧
    marks = spaces ((span.place source).column - 1) ++
      run (max 1 (covered.takeWhile (· ≠ '\n')).length) '^'
  /-- No caret is past the end of the line, except for the single one of a span without a character
  there. -/
  under : ∀ column, 1 ≤ column → (marks.toList[column - 1]? = some '^' ↔
    column ≤ (span.place source).content.length ∧
        span.Touches source (span.place source).line column ∨
      span.touched source = 0 ∧ column = (span.place source).column)

section

variable {span : Span} {source covered : List Char}

theorem Span.covers_iff (hle : span.start ≤ span.stop) :
    span.Covers source covered ↔
      slice? source (min span.start (min span.stop (byteLength source)))
        (min span.stop (byteLength source)) = some covered := by
  rw [slice?_eq_some_iff, ← Nat.min_assoc, Nat.min_eq_left hle]
  rfl

/-- The cut at the start of a span has what it covers first, and more only if the span stops there. -/
theorem Span.Covers.exists_cutFloor_eq (h : span.Covers source covered) :
    ∃ before after, cutFloor source span.start = ⟨before, covered ++ after⟩ ∧
      (span.stop - byteLength before = byteLength covered ∨
        after = [] ∧ byteLength covered ≤ span.stop - byteLength before) := by
  obtain ⟨before, after, hsource, hstart, hstop⟩ := h
  refine ⟨before.reverse, after, cutFloor_of_cutAt?_min (cutAt?_eq_some_iff.mpr ⟨?_, ?_⟩), ?_⟩
  · rw [Cut.text, List.reverse_reverse, hsource, List.append_assoc]
  · rw [byteLength_reverse, hstart]
  · have hbytes := congrArg byteLength hsource
    rw [byteLength_append] at hstop hbytes
    rw [byteLength_append] at hbytes
    rw [byteLength_reverse]
    obtain hle | hge := Nat.le_total span.stop (byteLength source)
    · exact .inl (by omega)
    · exact .inr ⟨eq_nil_of_byteLength (by omega), by omega⟩

theorem Span.Covers.touched_eq (h : span.Covers source covered) :
    span.touched source = (covered.takeWhile (· ≠ '\n')).length := by
  obtain ⟨before, after, hcut, hstop⟩ := h.exists_cutFloor_eq
  rw [Span.touched_eq, restOfLine, hcut]
  dsimp only
  obtain hstop | ⟨rfl, hstop⟩ := hstop
  · rw [hstop, beginWithin_takeWhile]
  · have hline := byteLength_le_of_prefix (covered.takeWhile_prefix (· ≠ '\n'))
    rw [List.append_nil]
    exact beginWithin_of_le (Nat.le_trans hline hstop)

theorem Excerpt.caretCount_of_covers (hle : span.start ≤ span.stop)
    (h : span.Covers source covered) :
    caretCount source span (span.place source) =
      max 1 (covered.takeWhile (· ≠ '\n')).length := by
  obtain ⟨before, after, hcut, -⟩ := h.exists_cutFloor_eq
  rw [caretCount, coveredLength, (Span.covers_iff hle).mp h, String.length_toList,
    Span.length_content_place, Nat.add_sub_cancel_left, restOfLine, hcut,
    length_takeWhile_append _ covered after]
  dsimp only
  omega

/-- The carets are under the characters of the line that the span touches. -/
theorem Span.caret_under_iff {column count : Nat} (hpos : 1 ≤ column)
    (hcount : count = max 1 (span.touched source)) :
    (spaces ((span.place source).column - 1) ++ run count '^').toList[column - 1]? = some '^' ↔
      column ≤ (span.place source).content.length ∧
          span.Touches source (span.place source).line column ∨
        span.touched source = 0 ∧ column = (span.place source).column := by
  have hlength := length_content_place span source
  have hplace := column_place_pos span source
  have hrest := touched_le_rest span source
  rw [touched_eq] at hrest
  rw [getElem?_spaces_run, hcount, touched_eq]
  obtain hout | hin := Nat.lt_or_ge (span.place source).content.length column
  · omega
  · rw [touches_iff span source hin]
    omega

/-- The underline marks exactly the span. -/
theorem Span.underlined_of_keepsCharacters {diagnostic : Diagnostic}
    (hle : diagnostic.span.start ≤ diagnostic.span.stop)
    (hk : diagnostic.span.KeepsCharacters source)
    (hcolumn : (diagnostic.span.place source).column ≤ 65536) (file : Option String) :
    ∃ marks, diagnostic.PrintsMarks source file marks ∧
      diagnostic.span.UnderlinedBy source marks := by
  obtain ⟨covered, hslice⟩ := (keepsCharacters_iff ..).mp hk
  have hcovers := (covers_iff hle).mpr hslice
  refine ⟨_, Diagnostic.printsMarks hcolumn file, ?_⟩
  rw [Excerpt.caretCount_of_covers hle hcovers]
  constructor
  case carets => exact ⟨covered, hcovers, rfl⟩
  case under =>
    intro column hpos
    exact caret_under_iff hpos (by rw [hcovers.touched_eq])

end

/-- Two lines, with characters of one, two and three bytes. -/
def twoWidths : List Char := ['a', 'é', '\n', '€', 'b', '\n']

/-- From the end of one line into the next. -/
def acrossLines : Diagnostic :=
  .plain .undeclaredModule "m" ⟨1, 7⟩

/-- The whole second line, and more. -/
def beyondEnd : Diagnostic :=
  .plain .undeclaredModule "m" ⟨4, 20⟩

theorem Span.underlined_twoWidths :
    (acrossLines.span.start ≤ acrossLines.span.stop ∧
      acrossLines.span.KeepsCharacters twoWidths ∧
      (acrossLines.span.place twoWidths).column ≤ 65536 ∧
      ∃ marks, acrossLines.PrintsMarks twoWidths none marks ∧
        acrossLines.span.UnderlinedBy twoWidths marks) ∧
    (beyondEnd.span.start ≤ beyondEnd.span.stop ∧
      beyondEnd.span.KeepsCharacters twoWidths ∧
      (beyondEnd.span.place twoWidths).column ≤ 65536 ∧
      ∃ marks, beyondEnd.PrintsMarks twoWidths (some "A.mod") marks ∧
        beyondEnd.span.UnderlinedBy twoWidths marks) := by
  have hacross : acrossLines.span.KeepsCharacters twoWidths := ⟨by decide, by decide⟩
  have hbeyond : beyondEnd.span.KeepsCharacters twoWidths := ⟨by decide, by decide⟩
  have hfirst : (acrossLines.span.place twoWidths).column ≤ 65536 := by decide
  have hsecond : (beyondEnd.span.place twoWidths).column ≤ 65536 := by decide
  exact ⟨⟨by decide, hacross, hfirst,
      underlined_of_keepsCharacters (by decide) hacross hfirst none⟩,
    ⟨by decide, hbeyond, hsecond,
      underlined_of_keepsCharacters (by decide) hbeyond hsecond (some "A.mod")⟩⟩

example : acrossLines.excerpt? twoWidths none =
    some "error[E200]: m\n  --> <input>:1:2\n  |\n1 | aé\n  |  ^\n" := by
  decide

end OberonModules
