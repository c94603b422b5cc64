import Mathlib.Order.Bounds.Defs
import OberonModules.Proofs.Places

/-!
# From a location back to its offset

Line and column are enough to find the offset again: the lines before, with a byte for
the LF after each, and as many characters of the line as stand before the column. What
is found is the last character boundary that is not above the offset, so that all
offsets within a character, and all past the end, have one location.
-/

namespace OberonModules.Text

-- ---------------------------------------------------------------------------
-- Lines between LF
-- ---------------------------------------------------------------------------

/-- Bytes of these lines, with one byte for the LF after each. -/
def bytesOfLines : List (List Char) → Nat
  | [] => 0
  | line :: rest => byteLength line + 1 + bytesOfLines rest

/-- The offset of a place by its line and its column, both from 1. -/
def offsetOf (source : List Char) (line column : Nat) : Nat :=
  bytesOfLines ((source.splitOn '\n').take (line - 1)) +
    byteLength (((source.splitOn '\n').getD (line - 1) []).take (column - 1))

variable {before after line : List Char}

theorem splitOn_cons_of_ne {c : Char} (h : c ≠ '\n') (text : List Char) :
    ∃ line rest, text.splitOn '\n' = line :: rest ∧
      (c :: text).splitOn '\n' = (c :: line) :: rest := by
  obtain ⟨line, rest, hs⟩ := List.exists_cons_of_ne_nil (List.splitOn_ne_nil '\n' text)
  refine ⟨line, rest, hs, ?_⟩
  rw [List.splitOn_eq_splitOnP] at hs ⊢
  simp [List.splitOnP_cons_eq_if_modifyHead, h, hs]

theorem splitOn_lf_cons (text : List Char) :
    ('\n' :: text).splitOn '\n' = [] :: text.splitOn '\n' := by
  have hnil : '\n' ∉ ([] : List Char) := List.not_mem_nil
  exact List.splitOn_append_cons_self_of_not_mem hnil text

theorem length_splitOn (text : List Char) : (text.splitOn '\n').length = text.count '\n' + 1 := by
  induction text with
  | nil => rfl
  | cons c text ih =>
    by_cases h : c = '\n'
    · rw [h, splitOn_lf_cons, List.length_cons, ih, List.count_cons_self]
    · obtain ⟨line, rest, hs, hcons⟩ := splitOn_cons_of_ne h text
      rw [hcons, List.count_cons_of_ne (by simpa using h), ← ih, hs]
      rfl

theorem bytesOfLines_splitOn (text : List Char) :
    bytesOfLines (text.splitOn '\n') = byteLength text + 1 := by
  induction text with
  | nil => rfl
  | cons c text ih =>
    by_cases h : c = '\n'
    · subst h
      have hlf : '\n'.utf8Size = 1 := rfl
      rw [splitOn_lf_cons, bytesOfLines, ih, byteLength_cons, byteLength_nil, hlf]
      omega
    · obtain ⟨line, rest, hs, hcons⟩ := splitOn_cons_of_ne h text
      rw [hs, bytesOfLines] at ih
      rw [hcons, bytesOfLines, byteLength_cons, byteLength_cons]
      omega

-- ---------------------------------------------------------------------------
-- The line around a place
-- ---------------------------------------------------------------------------

theorem lf_notMem_takeWhile (text : List Char) : '\n' ∉ text.takeWhile (· ≠ '\n') :=
  fun hm => absurd (List.mem_takeWhile_imp hm) (by decide)

theorem lf_notMem_lineSoFar (before : List Char) : '\n' ∉ lineSoFar before :=
  fun hm => lf_notMem_takeWhile _ (List.mem_reverse.mp hm)

theorem eq_takeWhile_or_lf (text : List Char) :
    text = text.takeWhile (· ≠ '\n') ∨
      ∃ rest, text = text.takeWhile (· ≠ '\n') ++ '\n' :: rest := by
  induction text with
  | nil => exact .inl rfl
  | cons c text ih =>
    by_cases h : c = '\n'
    · exact .inr ⟨text, by simp [h]⟩
    · rw [List.takeWhile_cons_of_pos (by simpa using h)]
      refine ih.imp (congrArg (c :: ·)) ?_
      rintro ⟨rest, hrest⟩
      exact ⟨rest, congrArg (c :: ·) hrest⟩

theorem eq_lineSoFar_or_lf (before : List Char) :
    before = lineSoFar before ∨ ∃ earlier, before = earlier ++ '\n' :: lineSoFar before := by
  refine (eq_takeWhile_or_lf before.reverse).imp List.reverse_eq_iff.mp ?_
  rintro ⟨rest, hrest⟩
  refine ⟨rest.reverse, (List.reverse_eq_iff.mp hrest).trans ?_⟩
  rw [List.reverse_append, List.reverse_cons, List.append_assoc, List.singleton_append, lineSoFar]

/-- A line goes on up to the next LF. -/
theorem splitOn_append (hline : '\n' ∉ line) (after : List Char) :
    ∃ rest, (line ++ after).splitOn '\n' = (line ++ after.takeWhile (· ≠ '\n')) :: rest := by
  have hwhole : '\n' ∉ line ++ after.takeWhile (· ≠ '\n') :=
    List.not_mem_append hline (lf_notMem_takeWhile after)
  obtain hafter | ⟨rest, hafter⟩ := eq_takeWhile_or_lf after
  · rw [← hafter] at hwhole ⊢
    exact ⟨[], List.splitOn_eq_singleton hwhole⟩
  · refine ⟨rest.splitOn '\n', ?_⟩
    rw [← List.splitOn_append_cons_self_of_not_mem hwhole, List.append_assoc, ← hafter]

/-- The line of a place comes after one line for each LF before it. -/
theorem splitOn_around (before after : List Char) :
    ∃ earlier rest, (before ++ after).splitOn '\n' =
        earlier ++ (lineSoFar before ++ after.takeWhile (· ≠ '\n')) :: rest ∧
      earlier.length = before.count '\n' ∧
      bytesOfLines earlier + byteLength (lineSoFar before) = byteLength before := by
  have hline := lf_notMem_lineSoFar before
  obtain ⟨rest, hrest⟩ := splitOn_append hline after
  obtain hbefore | ⟨text, hbefore⟩ := eq_lineSoFar_or_lf before
  · refine ⟨[], rest, ?_, ?_, ?_⟩
    · rw [← hrest, ← hbefore, List.nil_append]
    · rw [hbefore, List.count_eq_zero_of_not_mem hline]
      rfl
    · rw [← hbefore, bytesOfLines, Nat.zero_add]
  · refine ⟨text.splitOn '\n', rest, ?_, ?_, ?_⟩
    · rw [← hrest, ← List.splitOn_append_cons_self, ← List.cons_append, ← List.append_assoc,
        ← hbefore]
    · rw [length_splitOn, hbefore, List.count_append, List.count_cons_self,
        List.count_eq_zero_of_not_mem hline]
    · have hbytes := congrArg byteLength hbefore
      have hlf : '\n'.utf8Size = 1 := rfl
      rw [byteLength_append, byteLength_cons, hlf] at hbytes
      rw [bytesOfLines_splitOn]
      omega

-- ---------------------------------------------------------------------------
-- The last boundary
-- ---------------------------------------------------------------------------

/-- The last character boundary that is neither above the offset nor past the end. -/
def IsFloor (source : List Char) (offset boundary : Nat) : Prop :=
  IsGreatest {other | isBoundary source other = true ∧ other ≤ min offset (byteLength source)}
    boundary

theorem reverse_append_cutFloor (source : List Char) (offset : Nat) :
    (cutFloor source offset).before.reverse ++ (cutFloor source offset).after = source :=
  text_cutFloor source offset

theorem isFloor_cutFloor (source : List Char) (offset : Nat) :
    IsFloor source offset (byteLength (cutFloor source offset).before) := by
  have htext := reverse_append_cutFloor source offset
  have hbytes := congrArg byteLength htext
  rw [byteLength_append, byteLength_reverse] at hbytes
  have hle := byteLength_before_cutFloor_le source offset
  refine ⟨⟨?_, by omega⟩, ?_⟩
  · exact isBoundary_iff.mpr ⟨_, _, htext.symm, byteLength_reverse _⟩
  · rintro other ⟨hother, hlimit⟩
    obtain ⟨first, second, hsource, rfl⟩ := isBoundary_iff.mp hother
    -- A boundary further on has the next character before it, which is already too much.
    obtain ⟨more, hfirst, -⟩ | ⟨more, hbefore, hsecond⟩ :=
      List.append_eq_append_iff.mp (hsource.symm.trans htext.symm)
    · rw [← byteLength_reverse (cutFloor source offset).before, hfirst, byteLength_append]
      omega
    · cases more with
      | nil => simp [hbefore]
      | cons c more =>
        have hexceeds := cutFloor_next_exceeds hsecond
        rw [hbefore, byteLength_append, byteLength_reverse, byteLength_cons] at hlimit
        omega

/-- To cut at the last boundary is to cut at the offset. -/
theorem cutFloor_byteLength (source : List Char) (offset : Nat) :
    cutFloor source (byteLength (cutFloor source offset).before) = cutFloor source offset := by
  have hcut := cutAt?_eq_some_iff.mpr ⟨text_cutFloor source offset, rfl⟩
  rw [cutAt?, Option.ite_none_right_eq_some] at hcut
  exact Option.some.inj hcut.2

theorem IsFloor.unique {source : List Char} {offset boundary other : Nat}
    (h : IsFloor source offset boundary) (h' : IsFloor source offset other) : boundary = other :=
  Nat.le_antisymm (h'.2 h.1) (h.2 h'.1)

/-- An offset is cut at its floor. -/
theorem IsFloor.cutFloor_eq {offset : Nat} (h : IsFloor (before ++ after) offset (byteLength before)) :
    cutFloor (before ++ after) offset = ⟨before.reverse, after⟩ := by
  have hadvance := Cut.advance_append [] before after
  rw [List.append_nil] at hadvance
  rw [← cutFloor_byteLength, (isFloor_cutFloor (before ++ after) offset).unique h]
  exact hadvance

end OberonModules.Text

namespace OberonModules.Location

open Text

theorem content_ofOffset (source : List Char) (offset : Nat) :
    (ofOffset source offset).content.toList =
      lineSoFar (cutFloor source offset).before.reverse ++
        (cutFloor source offset).after.takeWhile (· ≠ '\n') := by
  rw [lineSoFar, List.reverse_reverse]
  simp [ofOffset]

/-- Where the line of an offset stands among the lines, and how many bytes come before it. -/
theorem lines_around (source : List Char) (offset : Nat) :
    ∃ earlier rest, source.splitOn '\n' =
        earlier ++ (ofOffset source offset).content.toList :: rest ∧
      earlier.length = (ofOffset source offset).line - 1 ∧
      bytesOfLines earlier + byteLength (lineSoFar (cutFloor source offset).before.reverse) =
        byteLength (cutFloor source offset).before := by
  obtain ⟨earlier, rest, hlines, hlength, hbytes⟩ :=
    splitOn_around (cutFloor source offset).before.reverse (cutFloor source offset).after
  rw [reverse_append_cutFloor, ← content_ofOffset] at hlines
  rw [byteLength_reverse] at hbytes
  exact ⟨earlier, rest, hlines, by rw [hlength, line_ofOffset, Nat.add_sub_cancel], hbytes⟩

theorem getElem?_splitOn_ofOffset (source : List Char) (offset : Nat) :
    (source.splitOn '\n')[(ofOffset source offset).line - 1]? =
      some (ofOffset source offset).content.toList := by
  obtain ⟨earlier, rest, hlines, hlength, -⟩ := lines_around source offset
  rw [hlines, ← hlength]
  simp

/-- Offsets along a line, by the characters that stand before them in the line. -/
theorem offsetOf_ofOffset (source : List Char) (offset column : Nat) :
    offsetOf source (ofOffset source offset).line column +
        byteLength (lineSoFar (cutFloor source offset).before.reverse) =
      byteLength (cutFloor source offset).before +
        byteLength ((ofOffset source offset).content.toList.take (column - 1)) := by
  obtain ⟨earlier, rest, hlines, hlength, hbytes⟩ := lines_around source offset
  have htake : (source.splitOn '\n').take ((ofOffset source offset).line - 1) = earlier := by
    rw [hlines, ← hlength, List.take_left]
  rw [offsetOf, htake, List.getD_eq_getElem?_getD, getElem?_splitOn_ofOffset, Option.getD_some]
  omega

/-- Before the column of an offset stands the line so far. -/
theorem take_content_ofOffset (source : List Char) (offset : Nat) :
    (ofOffset source offset).content.toList.take ((ofOffset source offset).column - 1) =
      lineSoFar (cutFloor source offset).before.reverse := by
  rw [content_ofOffset, column_ofOffset, Nat.add_sub_cancel, List.take_left]

/-- The location leads back to the last character boundary before an offset. -/
structure Pinpoints (source : List Char) (offset : Nat) (place : Location) : Prop where
  line_pos : 1 ≤ place.line
  content_eq : (source.splitOn '\n')[place.line - 1]? = some place.content.toList
  lf_notMem : '\n' ∉ place.content.toList
  column_pos : 1 ≤ place.column
  column_le : place.column ≤ place.content.length + 1
  isFloor : IsFloor source offset (offsetOf source place.line place.column)
  /-- An offset within a character counts as its start, and one past the end as the end. -/
  ofOffset_offsetOf : ofOffset source (offsetOf source place.line place.column) = place

/-- Line and column of an offset decode to the last character boundary before it. -/
theorem pinpoints_ofOffset (source : List Char) (offset : Nat) :
    (ofOffset source offset).Pinpoints source offset := by
  have hoffset : offsetOf source (ofOffset source offset).line (ofOffset source offset).column =
      byteLength (cutFloor source offset).before := by
    have h := offsetOf_ofOffset source offset (ofOffset source offset).column
    rw [take_content_ofOffset] at h
    exact Nat.add_right_cancel h
  constructor
  case line_pos => exact Nat.succ_pos _
  case content_eq => exact getElem?_splitOn_ofOffset source offset
  case lf_notMem =>
    rw [content_ofOffset]
    exact List.not_mem_append (lf_notMem_lineSoFar _) (lf_notMem_takeWhile _)
  case column_pos => exact Nat.succ_pos _
  case column_le =>
    rw [column_ofOffset, ← String.length_toList, content_ofOffset, List.length_append]
    omega
  case isFloor =>
    rw [hoffset]
    exact isFloor_cutFloor source offset
  case ofOffset_offsetOf =>
    rw [hoffset, ofOffset, cutFloor_byteLength]
    rfl

end OberonModules.Location
