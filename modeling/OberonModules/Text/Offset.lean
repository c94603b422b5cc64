/-!
# Byte offsets in a text

A text is a list of characters, and an offset counts the bytes of its UTF-8 form.
Only some offsets fall between two characters. `cutAt?` cuts a text there and
refuses every other offset; `cutFloor` cuts at the last such place not after the
offset, so it serves any number. Neither loses a character.
-/

namespace OberonModules.Text

def byteLength (text : List Char) : Nat :=
  text.foldl (fun bytes c => bytes + c.utf8Size) 0

/-- A place between the characters of a text. -/
structure Cut where
  /-- The characters before it, the nearest first. -/
  before : List Char
  after : List Char
deriving DecidableEq

def Cut.text (cut : Cut) : List Char :=
  cut.before.reverse ++ cut.after

/-- Moves on over the characters that fit into a number of bytes. -/
def Cut.advance (before : List Char) : List Char → Nat → Cut
  | [], _ => ⟨before, []⟩
  | c :: rest, bytes =>
    if c.utf8Size ≤ bytes then
      advance (c :: before) rest (bytes - c.utf8Size)
    else
      ⟨before, c :: rest⟩

/-- The cut at the last character boundary that is not above the offset. An offset past the end
cuts at the end. -/
def cutFloor (text : List Char) (offset : Nat) : Cut :=
  Cut.advance [] text offset

def cutAt? (text : List Char) (offset : Nat) : Option Cut :=
  let cut := cutFloor text offset
  if byteLength cut.before = offset then some cut else none

def isBoundary (text : List Char) (offset : Nat) : Bool :=
  (cutAt? text offset).isSome

/-- The characters between two offsets, if both are boundaries in this order. -/
def slice? (text : List Char) (start stop : Nat) : Option (List Char) := do
  guard (start ≤ stop)
  let first ← cutAt? text start
  let second ← cutAt? first.after (stop - start)
  return second.before.reverse

-- ---------------------------------------------------------------------------
-- Laws of the two cuts
-- ---------------------------------------------------------------------------

@[simp] theorem byteLength_nil : byteLength [] = 0 := rfl

theorem foldl_utf8Size (text : List Char) (bytes : Nat) :
    text.foldl (fun bytes c => bytes + c.utf8Size) bytes = bytes + byteLength text := by
  induction text generalizing bytes with
  | nil => rfl
  | cons c text ih =>
    rw [byteLength, List.foldl_cons, List.foldl_cons, ih, ih, Nat.zero_add, Nat.add_assoc]

@[simp] theorem byteLength_cons (c : Char) (text : List Char) :
    byteLength (c :: text) = c.utf8Size + byteLength text := by
  rw [byteLength, List.foldl_cons, foldl_utf8Size, Nat.zero_add]

@[simp] theorem byteLength_append (a b : List Char) :
    byteLength (a ++ b) = byteLength a + byteLength b := by
  rw [byteLength, List.foldl_append, foldl_utf8Size]
  rfl

@[simp] theorem byteLength_reverse (text : List Char) :
    byteLength text.reverse = byteLength text := by
  induction text with
  | nil => rfl
  | cons c text ih => simp [ih, Nat.add_comm]

theorem byteLength_le_of_prefix {part text : List Char} (h : part <+: text) :
    byteLength part ≤ byteLength text := by
  obtain ⟨more, rfl⟩ := h
  rw [byteLength_append]
  exact Nat.le_add_right ..

theorem eq_nil_of_byteLength {text : List Char} (h : byteLength text = 0) : text = [] := by
  cases text with
  | nil => rfl
  | cons c text =>
    have hc := c.utf8Size_pos
    rw [byteLength_cons] at h
    omega

theorem Cut.text_advance (before text : List Char) (bytes : Nat) :
    (advance before text bytes).text = before.reverse ++ text := by
  fun_induction advance before text bytes with
  | case1 => rfl
  | case2 before c rest bytes hle ih => simp [ih]
  | case3 => rfl

/-- An advance over a text goes exactly as far as a part of it that takes all the bytes. -/
theorem Cut.advance_append (before passed rest : List Char) :
    advance before (passed ++ rest) (byteLength passed) = ⟨passed.reverse ++ before, rest⟩ := by
  induction passed generalizing before with
  | nil =>
    cases rest with
    | nil => rfl
    | cons c rest =>
      have hc : ¬ c.utf8Size ≤ 0 := by have := c.utf8Size_pos; omega
      simp [advance, hc]
  | cons c passed ih => simp [advance, ih]

theorem Cut.byteLength_before_advance_le (before text : List Char) (bytes : Nat) :
    byteLength (advance before text bytes).before ≤ byteLength before + bytes := by
  fun_induction advance before text bytes with
  | case1 => simp
  | case2 before c rest bytes hle ih =>
    rw [byteLength_cons] at ih
    omega
  | case3 => simp

theorem Cut.advance_next_exceeds {before text rest : List Char} {c : Char} {bytes : Nat}
    (h : (advance before text bytes).after = c :: rest) :
    byteLength before + bytes < byteLength (advance before text bytes).before + c.utf8Size := by
  fun_induction advance before text bytes with
  | case1 => simp at h
  | case2 before d text bytes hle ih =>
    have := ih h
    rw [byteLength_cons] at this
    omega
  | case3 before d text bytes hgt =>
    simp only [List.cons.injEq] at h
    rw [← h.1]
    dsimp only
    omega

@[simp] theorem text_cutFloor (text : List Char) (offset : Nat) :
    (cutFloor text offset).text = text := by
  simp [cutFloor, Cut.text_advance]

theorem byteLength_before_cutFloor_le (text : List Char) (offset : Nat) :
    byteLength (cutFloor text offset).before ≤ offset := by
  simpa [cutFloor] using Cut.byteLength_before_advance_le [] text offset

/-- The next character would reach beyond the offset, so no later boundary fits. -/
theorem cutFloor_next_exceeds {text rest : List Char} {c : Char} {offset : Nat}
    (h : (cutFloor text offset).after = c :: rest) :
    offset < byteLength (cutFloor text offset).before + c.utf8Size := by
  simpa [cutFloor] using Cut.advance_next_exceeds h

theorem cutFloor_of_le {text : List Char} {offset : Nat} (h : byteLength text ≤ offset) :
    cutFloor text offset = ⟨text.reverse, []⟩ := by
  have htext := text_cutFloor text offset
  cases hc : cutFloor text offset with
  | mk before after =>
    rw [hc, Cut.text] at htext
    cases after with
    | nil => simp [← htext]
    | cons c rest =>
      have hexceeds := cutFloor_next_exceeds (congrArg Cut.after hc)
      rw [hc] at hexceeds
      rw [← htext, byteLength_append, byteLength_reverse, byteLength_cons] at h
      omega

/-- A cut at a boundary falls exactly at the offset, and no other cut of the text does. -/
theorem cutAt?_eq_some_iff {text : List Char} {offset : Nat} {cut : Cut} :
    cutAt? text offset = some cut ↔ cut.text = text ∧ byteLength cut.before = offset := by
  constructor
  · intro h
    simp only [cutAt?, Option.ite_none_right_eq_some, Option.some.injEq] at h
    obtain ⟨hbytes, rfl⟩ := h
    exact ⟨text_cutFloor text offset, hbytes⟩
  · rintro ⟨rfl, rfl⟩
    have h := Cut.advance_append [] cut.before.reverse cut.after
    rw [byteLength_reverse] at h
    simp [cutAt?, cutFloor, Cut.text, h]

theorem slice?_of_le {text : List Char} {start stop : Nat} (h : start ≤ stop) :
    slice? text start stop = (cutAt? text start).bind fun first =>
      (cutAt? first.after (stop - start)).bind fun second => some second.before.reverse := by
  have hguard : (guard (start ≤ stop) : Option Unit) = some () := if_pos h
  rw [slice?, hguard]
  rfl

theorem slice?_of_lt {text : List Char} {start stop : Nat} (h : stop < start) :
    slice? text start stop = none := by
  have hguard : (guard (start ≤ stop) : Option Unit) = none := if_neg (Nat.not_le_of_lt h)
  rw [slice?, hguard]
  rfl

/-- A slice is what stands between two places. -/
theorem slice?_eq_some_iff {text covered : List Char} {start stop : Nat} :
    slice? text start stop = some covered ↔ ∃ before after, text = before ++ covered ++ after ∧
      byteLength before = start ∧ byteLength (before ++ covered) = stop := by
  constructor
  · intro h
    obtain hlt | hle := Nat.lt_or_ge stop start
    · rw [slice?_of_lt hlt] at h
      contradiction
    · rw [slice?_of_le hle] at h
      simp only [Option.bind_eq_some_iff, Option.some.injEq, cutAt?_eq_some_iff] at h
      obtain ⟨first, ⟨rfl, rfl⟩, second, ⟨hafter, hbytes⟩, rfl⟩ := h
      refine ⟨first.before.reverse, second.after, ?_, byteLength_reverse _, ?_⟩
      · rw [Cut.text, ← hafter, Cut.text, List.append_assoc]
      · rw [byteLength_append, byteLength_reverse, byteLength_reverse]
        omega
  · rintro ⟨before, after, rfl, rfl, rfl⟩
    have hfirst : cutAt? (before ++ covered ++ after) (byteLength before) =
        some ⟨before.reverse, covered ++ after⟩ :=
      cutAt?_eq_some_iff.mpr ⟨by simp [Cut.text], byteLength_reverse _⟩
    have hsecond : cutAt? (covered ++ after) (byteLength covered) = some ⟨covered.reverse, after⟩ :=
      cutAt?_eq_some_iff.mpr ⟨by simp [Cut.text], byteLength_reverse _⟩
    have hbytes := byteLength_append before covered
    rw [slice?_of_le (by omega), hfirst, hbytes, Nat.add_sub_cancel_left]
    simp [hsecond]

/-- An offset whose clamped form is a boundary is cut there. -/
theorem cutFloor_of_cutAt?_min {text : List Char} {offset : Nat} {cut : Cut}
    (h : cutAt? text (min offset (byteLength text)) = some cut) : cutFloor text offset = cut := by
  obtain hle | hge := Nat.le_total offset (byteLength text)
  · rw [Nat.min_eq_left hle, cutAt?, Option.ite_none_right_eq_some] at h
    exact Option.some.inj h.2
  · rw [Nat.min_eq_right hge, cutAt?, Option.ite_none_right_eq_some] at h
    rw [cutFloor_of_le hge, ← cutFloor_of_le (Nat.le_refl (byteLength text))]
    exact Option.some.inj h.2

end OberonModules.Text
