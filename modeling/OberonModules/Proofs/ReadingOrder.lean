import OberonModules.Proofs.Carets

/-!
# Locations in reading order

Line by line, and within a line column by column, locations come in the order of the
character boundaries at which their offsets are cut. Two of them are on one line if no
LF stands between.
-/

namespace OberonModules

open Text

namespace Text

variable {source : List Char} {offset boundary : Nat}

theorem IsFloor.exists_slice? {offset' boundary' : Nat} (h : IsFloor source offset boundary)
    (h' : IsFloor source offset' boundary') (hle : boundary ≤ boundary') :
    ∃ between, slice? source boundary boundary' = some between :=
  Option.isSome_iff_exists.mp (isSome_slice?_iff.mpr ⟨hle, h.1.1, h'.1.1⟩)

end Text

namespace Location

variable {source before between after : List Char} {offset offset' boundary boundary' : Nat}

def compareTo (place place' : Location) : Ordering :=
  (compare place.line place'.line).then (compare place.column place'.column)

theorem swap_compareTo (place place' : Location) :
    (place.compareTo place').swap = place'.compareTo place := by
  simp [compareTo, Ordering.swap_then, Nat.compare_swap]

/-- Between two places lie as many LF as the line numbers differ by. Without one, the columns differ
by the characters between. -/
theorem ofOffset_of_slice? (h : IsFloor source offset boundary)
    (h' : IsFloor source offset' boundary')
    (hbetween : slice? source boundary boundary' = some between) :
    (ofOffset source offset').line = (ofOffset source offset).line + between.count '\n' ∧
      ('\n' ∉ between →
        (ofOffset source offset').column = (ofOffset source offset).column + between.length) := by
  obtain ⟨before, after, rfl, rfl, rfl⟩ := slice?_eq_some_iff.mp hbetween
  have hcut' := h'.cutFloor_eq
  rw [List.append_assoc] at h
  have hcut := h.cutFloor_eq
  rw [← List.append_assoc] at hcut
  simp only [line_ofOffset, column_ofOffset, hcut, hcut', List.reverse_reverse]
  constructor
  · rw [List.count_append]
    omega
  · intro hlf
    rw [lineSoFar_append_of_not_mem before hlf, List.length_append]
    omega

theorem compareTo_of_slice? (h : IsFloor source offset boundary)
    (h' : IsFloor source offset' boundary')
    (hbetween : slice? source boundary boundary' = some between) :
    (ofOffset source offset).compareTo (ofOffset source offset') = compare boundary boundary' := by
  obtain ⟨hline, hcolumn⟩ := ofOffset_of_slice? h h' hbetween
  obtain ⟨before, after, -, rfl, rfl⟩ := slice?_eq_some_iff.mp hbetween
  rw [compareTo, hline, byteLength_append]
  cases between with
  | nil => simp [hcolumn]
  | cons c rest =>
    have hbytes := c.utf8Size_pos
    have hlt : compare (byteLength before) (byteLength before + byteLength (c :: rest)) = .lt := by
      rw [Nat.compare_eq_lt, byteLength_cons]
      omega
    rw [hlt]
    by_cases hlf : '\n' ∈ c :: rest
    · have hcount := List.count_pos_iff.mpr hlf
      rw [Nat.compare_eq_lt.mpr (by omega)]
      rfl
    · rw [List.count_eq_zero_of_not_mem hlf, hcolumn hlf, Nat.add_zero, Nat.compare_eq_eq.mpr rfl]
      exact Nat.compare_eq_lt.mpr (by simp)

/-- The places of two offsets compare as the offsets do once these are taken back to character
boundaries, and share a line unless an LF stands between the boundaries. -/
structure KeepsOrder (source : List Char) (offset offset' boundary boundary' : Nat) : Prop where
  compare_eq :
    (ofOffset source offset).compareTo (ofOffset source offset') = compare boundary boundary'
  line_eq_iff : ∃ between,
    slice? source (min boundary boundary') (max boundary boundary') = some between ∧
      ((ofOffset source offset).line = (ofOffset source offset').line ↔ '\n' ∉ between)

theorem KeepsOrder.symm (h : KeepsOrder source offset offset' boundary boundary') :
    KeepsOrder source offset' offset boundary' boundary where
  compare_eq := by
    rw [← swap_compareTo, h.compare_eq, Nat.compare_swap]
  line_eq_iff := by
    obtain ⟨between, hbetween, hline⟩ := h.line_eq_iff
    rw [Nat.min_comm, Nat.max_comm] at hbetween
    exact ⟨between, hbetween, eq_comm.trans hline⟩

theorem keepsOrder_of_le (h : IsFloor source offset boundary)
    (h' : IsFloor source offset' boundary') (hle : boundary ≤ boundary') :
    KeepsOrder source offset offset' boundary boundary' := by
  obtain ⟨between, hbetween⟩ := h.exists_slice? h' hle
  obtain ⟨hline, -⟩ := ofOffset_of_slice? h h' hbetween
  refine ⟨compareTo_of_slice? h h' hbetween, between, ?_, ?_⟩
  · rw [Nat.min_eq_left hle, Nat.max_eq_right hle]
    exact hbetween
  · rw [hline, ← List.count_eq_zero]
    omega

/-- Locations keep the order of offsets. -/
theorem keepsOrder_of_isFloor (h : IsFloor source offset boundary)
    (h' : IsFloor source offset' boundary') :
    KeepsOrder source offset offset' boundary boundary' := by
  obtain hle | hge := Nat.le_total boundary boundary'
  · exact keepsOrder_of_le h h' hle
  · exact (keepsOrder_of_le h' h hge).symm

/-- Both offsets are inside a character, the first on the second line. -/
theorem keepsOrder_twoWidths :
    IsFloor twoWidths 6 4 ∧ IsFloor twoWidths 2 1 ∧ KeepsOrder twoWidths 6 2 4 1 := by
  have h : IsFloor twoWidths 6 4 := isFloor_cutFloor twoWidths 6
  have h' : IsFloor twoWidths 2 1 := isFloor_cutFloor twoWidths 2
  exact ⟨h, h', keepsOrder_of_isFloor h h'⟩

end Location

end OberonModules
