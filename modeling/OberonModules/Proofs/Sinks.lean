import OberonModules.Console.Sink

/-!
# Sinks by what they have been given

A sink stores the beginning of all the bytes it has been given, as far as there is room,
and refuses a write that reaches beyond. How the bytes are divided into writes makes no
difference.
-/

namespace OberonModules

def bytesOf : List ByteArray → ByteArray
  | [] => .empty
  | piece :: rest => piece ++ bytesOf rest

theorem bytesOf_append (first second : List ByteArray) :
    bytesOf (first ++ second) = bytesOf first ++ bytesOf second := by
  induction first with
  | nil => exact ByteArray.empty_append.symm
  | cons piece first ih => rw [List.cons_append, bytesOf, bytesOf, ih, ByteArray.append_assoc]

namespace Sink

def fits (capacity : Option Nat) (bytes : ByteArray) : Bool :=
  capacity.all (bytes.size ≤ ·)

/-- A sink that has been given these bytes in all, whether it could store them or not. -/
def given : Option Nat → ByteArray → Sink
  | none, bytes => ⟨bytes, none⟩
  | some limit, bytes => ⟨bytes.extract 0 limit, some limit⟩

/-- Why bytes are refused after those given before. To write nothing never fails. -/
def refusal? (capacity : Option Nat) (before bytes : ByteArray) : Option String :=
  if bytes.size = 0 || fits capacity (before ++ bytes) then none else some failure

variable {capacity : Option Nat} {before first second bytes : ByteArray}

theorem empty_eq_given (capacity : Option Nat) : empty capacity = given capacity .empty := by
  cases capacity with
  | none => rfl
  | some limit =>
    have hnone := ByteArray.extract_eq_empty_iff (b := .empty) (i := 0) (j := limit)
    rw [given, hnone.mpr (Nat.min_le_right _ _)]
    rfl

/-- What comes after the room has ended is not stored. -/
theorem given_append (h : fits capacity before = false) (bytes : ByteArray) :
    given capacity (before ++ bytes) = given capacity before := by
  cases capacity with
  | none => simp [fits] at h
  | some limit =>
    simp only [fits, Option.all_some, decide_eq_false_iff_not] at h
    have hroom : limit - before.size = 0 := by omega
    simp [given, ByteArray.extract_append, hroom]

theorem write_given (capacity : Option Nat) (before bytes : ByteArray) :
    (given capacity before).write bytes =
      (given capacity (before ++ bytes), refusal? capacity before bytes) := by
  cases capacity with
  | none => simp [given, write, refusal?, fits]
  | some limit =>
    have hroom : limit - (before.extract 0 limit).size = limit - before.size := by
      rw [ByteArray.size_extract]
      omega
    have hfits : bytes.size ≤ limit - before.size ↔
        (bytes.size = 0 || fits (some limit) (before ++ bytes)) = true := by
      simp only [fits, Option.all_some, ByteArray.size_append, Bool.or_eq_true, decide_eq_true_eq]
      omega
    simp only [given, write, hroom, ByteArray.extract_append, Nat.zero_sub, refusal?]
    by_cases hle : bytes.size ≤ limit - before.size
    · have hwhole := ByteArray.extract_zero_max_size (a := bytes) (i := limit - before.size)
      rw [Nat.max_eq_left hle] at hwhole
      rw [if_pos hle, if_pos (hfits.mp hle), hwhole]
    · rw [if_neg hle, if_neg (mt hfits.mpr hle)]

theorem refusal?_append_of_none (h : refusal? capacity before first = none) (second : ByteArray) :
    refusal? capacity before (first ++ second) = refusal? capacity (before ++ first) second := by
  cases capacity with
  | none => simp [refusal?, fits]
  | some limit =>
    simp only [refusal?, fits, Option.all_some, ByteArray.size_append, Bool.or_eq_true,
      decide_eq_true_eq, ite_eq_left_iff, reduceCtorEq, imp_false, Classical.not_not] at h ⊢
    congr 1
    simp only [eq_iff_iff]
    omega

theorem refusal?_append_of_some {reason : String}
    (h : refusal? capacity before first = some reason) (second : ByteArray) :
    refusal? capacity before (first ++ second) = some reason ∧
      fits capacity (before ++ first) = false := by
  cases capacity with
  | none => simp [refusal?, fits] at h
  | some limit =>
    simp only [refusal?, fits, Option.all_some, ByteArray.size_append, Bool.or_eq_true,
      decide_eq_true_eq, Option.ite_none_left_eq_some, decide_eq_false_iff_not] at h ⊢
    obtain ⟨hfull, hreason⟩ := h
    exact ⟨⟨by omega, hreason⟩, by omega⟩

/-- However the bytes are divided into pieces, only their sum matters. -/
theorem writeAll_given (capacity : Option Nat) (before : ByteArray) (pieces : List ByteArray) :
    Writer.writeAll (given capacity before) pieces =
      (given capacity (before ++ bytesOf pieces), refusal? capacity before (bytesOf pieces)) := by
  induction pieces generalizing before with
  | nil => simp [Writer.writeAll, bytesOf, refusal?]
  | cons piece pieces ih =>
    have hw : Writer.write (given capacity before) piece = _ := write_given capacity before piece
    rw [Writer.writeAll, hw, bytesOf, ← ByteArray.append_assoc]
    cases hr : refusal? capacity before piece with
    | none => simp only [ih, refusal?_append_of_none hr]
    | some reason =>
      obtain ⟨hrest, hfull⟩ := refusal?_append_of_some hr (bytesOf pieces)
      simp only [hrest, given_append hfull]

theorem writeAll_unbounded (stored : ByteArray) (pieces : List ByteArray) :
    Writer.writeAll (⟨stored, none⟩ : Sink) pieces = (⟨stored ++ bytesOf pieces, none⟩, none) := by
  have hall := writeAll_given none stored pieces
  simpa [given, refusal?, fits] using hall

end Sink

end OberonModules
