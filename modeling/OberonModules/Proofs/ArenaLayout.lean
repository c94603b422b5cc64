import Mathlib.Data.List.Induction
import OberonModules.Proofs.Calls

/-!
# The layout of the arena after a run

What holds of arena, links, serial numbers and scopes after any calls on a fresh
table. The open scopes divide the arena into segments, an outer scope before an inner
one. Along the arena the serial numbers increase, and every one of them is below the
insertion count, as long as the count does not wrap.
-/

namespace OberonModules

open Call

namespace Scopes

variable {scopes : Scopes}

-- ---------------------------------------------------------------------------
-- Serial numbers
-- ---------------------------------------------------------------------------

/-- The serial numbers increase along the arena, up to the insertion count. -/
structure Numbered (scopes : Scopes) : Prop where
  serial_lt : ∀ (slot : Nat) (entry : Entry), scopes.arena[slot]? = some entry →
    entry.handle.serial < scopes.inserted
  increasing : ∀ (slot slot' : Nat) (entry entry' : Entry), slot < slot' →
    scopes.arena[slot]? = some entry → scopes.arena[slot']? = some entry' →
    entry.handle.serial < entry'.handle.serial

theorem numbered_empty : empty.Numbered where
  serial_lt := by simp [empty]
  increasing := by simp [empty]

theorem toNat_inserted_onScopes {call : Call}
    (h : scopes.inserted.toNat + insertions [call] < UInt64.size) :
    (call.onScopes scopes).inserted.toNat = scopes.inserted.toNat + insertions [call] := by
  rw [inserted_onScopes, UInt64.toNat_add, UInt64.toNat_ofNat', Nat.add_mod_mod]
  exact Nat.mod_eq_of_lt h

theorem toNat_inserted_after {calls : List Call} (h : insertions calls < UInt64.size) :
    (empty.after calls).inserted.toNat = insertions calls := by
  rw [inserted_after, empty, UInt64.zero_add, UInt64.toNat_ofNat']
  exact Nat.mod_eq_of_lt h

theorem Numbered.onScopes (h : scopes.Numbered) {call : Call}
    (hc : scopes.inserted.toNat + insertions [call] < UInt64.size) :
    (call.onScopes scopes).Numbered := by
  have hcount := toNat_inserted_onScopes hc
  -- An entry that the call makes takes the old count as its number and raises the count.
  have hcreated : ∀ entry, call.created? scopes = some entry →
      entry.handle.serial = scopes.inserted ∧ insertions [call] = 1 := by
    intro entry he
    have hi := created?_isSome scopes call
    rw [he, Option.isSome_some] at hi
    exact ⟨congrArg Handle.serial (handle_of_created? he), by simp [insertions, ← hi]⟩
  constructor
  · intro slot entry he
    rw [UInt64.lt_iff_toNat_lt, hcount]
    rcases getElem?_onScopes he with hold | ⟨-, hnew⟩
    · have hlt := UInt64.lt_iff_toNat_lt.mp (h.serial_lt slot entry hold)
      exact Nat.lt_of_lt_of_le hlt (Nat.le_add_right _ _)
    · obtain ⟨hserial, hone⟩ := hcreated entry hnew
      rw [hserial, hone]
      exact Nat.lt_succ_self _
  · intro slot slot' entry entry' hs he he'
    rcases getElem?_onScopes he with hold | ⟨rfl, -⟩
    · rcases getElem?_onScopes he' with hold' | ⟨-, hnew⟩
      · exact h.increasing slot slot' entry entry' hs hold hold'
      · rw [(hcreated entry' hnew).1]
        exact h.serial_lt slot entry hold
    · -- No slot comes after the one that the call fills.
      rcases getElem?_onScopes he' with hold' | ⟨rfl, -⟩
      · have hlt := slot_lt_size hold'
        exact absurd hs (Nat.lt_asymm hlt)
      · exact absurd hs (Nat.lt_irrefl _)

theorem numbered_after (calls : List Call) (h : insertions calls < UInt64.size) :
    (empty.after calls).Numbered := by
  induction calls using List.reverseRecOn with
  | nil => exact numbered_empty
  | append_singleton calls call ih =>
    rw [insertions_append] at h
    have hcalls : insertions calls < UInt64.size := Nat.lt_of_le_of_lt (Nat.le_add_right _ _) h
    rw [after_append]
    apply (ih hcalls).onScopes
    rwa [toNat_inserted_after hcalls]

-- ---------------------------------------------------------------------------
-- Segments
-- ---------------------------------------------------------------------------

/-- Scopes from the inside out, each with the slot where its segment stops. -/
def withStops : Nat → List Scope → List (Scope × Nat)
  | _, [] => []
  | stop, scope :: outer => (scope, stop) :: withStops scope.start outer

/-- The open scopes from the outside in, each with the slot where the next inner one starts, or the
end of the arena. -/
def tiles (scopes : Scopes) : List (Scope × Nat) :=
  (withStops scopes.arena.size (scopes.current :: scopes.outer)).reverse

/-- The slots from the start of a scope up to this one. -/
def segment (scopes : Scopes) (tile : Scope × Nat) : Array Entry :=
  scopes.arena.extract tile.1.start tile.2

/-- The scope owns its segment: its head is the last entry, and every entry links to the one just
before it in the segment. Following the links therefore gives the segment, latest first. -/
structure OwnsSegment (scopes : Scopes) (tile : Scope × Nat) : Prop where
  start_le : tile.1.start ≤ tile.2
  stop_le : tile.2 ≤ scopes.arena.size
  head_eq : tile.1.head = (scopes.segment tile).back?.map Entry.handle
  first_next : ∀ entry, (scopes.segment tile)[0]? = some entry → entry.next = none
  next_eq : ∀ i before entry, (scopes.segment tile)[i]? = some before →
    (scopes.segment tile)[i + 1]? = some entry → entry.next = some before.handle
  entries_eq : scopes.entriesOf tile.1 = (scopes.segment tile).toList.reverse

/-- Every entry lies in the slot of its handle, the serial numbers increase, and the open scopes
own one segment each: the outermost from slot 0 on, the current one up to the end. -/
structure LaidOut (scopes : Scopes) : Prop where
  slot_eq : ∀ (slot : Nat) (entry : Entry), scopes.arena[slot]? = some entry →
    entry.handle.slot = slot
  numbered : scopes.Numbered
  tiles_eq : scopes.tiles.map Prod.fst = (scopes.current :: scopes.outer).reverse
  first_start : (scopes.tiles.map fun tile => tile.1.start).head? = some 0
  starts_le : (scopes.tiles.map fun tile => tile.1.start).Pairwise (· ≤ ·)
  current_start_le : scopes.current.start ≤ scopes.arena.size
  owns : ∀ tile ∈ scopes.tiles, scopes.OwnsSegment tile
  segments_eq : (scopes.tiles.flatMap fun tile => (scopes.segment tile).toList) =
    scopes.arena.toList

theorem getElem?_segment {tile : Scope × Nat} (hs : tile.2 ≤ scopes.arena.size) (i : Nat) :
    (scopes.segment tile)[i]? =
      if tile.1.start + i < tile.2 then scopes.arena[tile.1.start + i]? else none := by
  rw [segment, Array.getElem?_extract, Nat.min_eq_left hs]
  simp only [Nat.lt_sub_iff_add_lt']

theorem WellFormed.ownsSegment (h : scopes.WellFormed) {tile : Scope × Nat}
    (ho : tile.1.Owns scopes.arena tile.2) : scopes.OwnsSegment tile where
  start_le := ho.start_le
  stop_le := ho.stop_le
  head_eq := by
    have hsize : (scopes.segment tile).size = tile.2 - tile.1.start := by
      rw [segment, Array.size_extract, Nat.min_eq_left ho.stop_le]
    rw [ho.head_eq, linkAt, Array.back?_eq_getElem?, getElem?_segment ho.stop_le, hsize]
    by_cases hlt : tile.1.start < tile.2
    · have hlast : tile.1.start + (tile.2 - tile.1.start - 1) = tile.2 - 1 := by omega
      rw [if_pos hlt, hlast, if_pos (by omega)]
    · rw [if_neg hlt, if_neg (by omega)]
      rfl
  first_next := by
    intro entry he
    rw [getElem?_segment ho.stop_le, Option.ite_none_right_eq_some] at he
    obtain ⟨hlt, he⟩ := he
    rw [ho.next_eq _ entry (Nat.le_add_right ..) hlt he]
    exact linkAt_self scopes.arena tile.1.start
  next_eq := by
    intro i before entry hb he
    rw [getElem?_segment ho.stop_le, Option.ite_none_right_eq_some] at hb he
    obtain ⟨hlt, he⟩ := he
    rw [ho.next_eq _ entry (Nat.le_add_right ..) hlt he]
    exact linkAt_succ (Nat.le_add_right ..) hb.2
  entries_eq := h.entriesOf_eq ho

end Scopes

variable {arena : Array Entry} {row : List Scope} {stop : Nat}

theorem Tiled.owns_of_mem_withStops (h : Tiled arena row stop) {tile : Scope × Nat}
    (hm : tile ∈ Scopes.withStops stop row) : tile.1.Owns arena tile.2 := by
  induction h with
  | nil => cases hm
  | cons inner _ ih =>
    rcases List.mem_cons.mp hm with rfl | hm
    · exact inner
    · exact ih hm

theorem Tiled.starts_le (h : Tiled arena row stop) :
    (row.map Scope.start).Pairwise (· ≥ ·) ∧ ∀ start ∈ row.map Scope.start, start ≤ stop := by
  induction h with
  | nil => exact ⟨.nil, by simp⟩
  | cons inner _ ih =>
    obtain ⟨hpair, hle⟩ := ih
    refine ⟨.cons hle hpair, ?_⟩
    intro start hm
    rcases List.mem_cons.mp hm with rfl | hm
    · exact inner.start_le
    · exact Nat.le_trans (hle start hm) inner.start_le

theorem Tiled.stop_eq_zero (h : Tiled arena [] stop) : stop = 0 := by
  cases h
  rfl

theorem Tiled.getLast?_starts (h : Tiled arena row stop) (hne : row ≠ []) :
    (row.map Scope.start).getLast? = some 0 := by
  induction h with
  | nil => exact absurd rfl hne
  | @cons scope outer _ _ ho ih =>
    cases outer with
    | nil => exact congrArg some ho.stop_eq_zero
    | cons next rest => exact ih (List.cons_ne_nil _ _)

/-- The segments, from the outside in, are all there is below the stop. -/
theorem Tiled.segments_eq {scopes : Scopes} (h : Tiled scopes.arena row stop)
    (hs : stop ≤ scopes.arena.size) :
    ((Scopes.withStops stop row).reverse.flatMap fun tile => (scopes.segment tile).toList) =
      (scopes.arena.extract 0 stop).toList := by
  induction h with
  | nil => simp [Scopes.withStops]
  | @cons scope outer stop inner _ ih =>
    have hstart : scope.start ≤ scopes.arena.size := Nat.le_trans inner.start_le hs
    rw [Scopes.withStops, List.reverse_cons, List.flatMap_append, ih hstart, List.flatMap_singleton,
      Scopes.segment, ← Array.toList_append, Array.extract_append_extract, Nat.min_eq_left (Nat.zero_le _),
      Nat.max_eq_right inner.start_le]

namespace Scopes

theorem map_fst_withStops (stop : Nat) (row : List Scope) :
    (withStops stop row).map Prod.fst = row := by
  induction row generalizing stop with
  | nil => rfl
  | cons scope outer ih => rw [withStops, List.map_cons, ih]

theorem map_start_tiles (scopes : Scopes) :
    (scopes.tiles.map fun tile => tile.1.start) =
      ((scopes.current :: scopes.outer).map Scope.start).reverse := by
  rw [tiles, List.map_reverse, ← map_fst_withStops scopes.arena.size (scopes.current :: scopes.outer),
    List.map_map, map_fst_withStops]
  rfl

theorem WellFormed.laidOut {scopes : Scopes} (h : scopes.WellFormed) (hn : scopes.Numbered) :
    scopes.LaidOut where
  slot_eq := h.slot_eq
  numbered := hn
  tiles_eq := by rw [tiles, List.map_reverse, map_fst_withStops]
  first_start := by
    rw [map_start_tiles, List.head?_reverse]
    exact h.tiled.getLast?_starts (List.cons_ne_nil _ _)
  starts_le := by
    rw [map_start_tiles, List.pairwise_reverse]
    exact h.tiled.starts_le.1
  current_start_le := h.owns_current.start_le
  owns := by
    intro tile hm
    exact h.ownsSegment (h.tiled.owns_of_mem_withStops (List.mem_reverse.mp hm))
  segments_eq := by
    rw [tiles, h.tiled.segments_eq (Nat.le_refl _), Array.extract_size]

end Scopes

namespace ScopeTable

/-- After any calls on a fresh table, with fewer insertions than the count can tell apart, the
arena is laid out. -/
theorem laidOut_run {ρ : Type} [Reporter ρ] (reporter : ρ) (calls : List Call)
    (h : insertions calls < UInt64.size) : ((new reporter).run calls).value.scopes.LaidOut := by
  apply (wellFormed_run reporter calls).laidOut
  rw [scopes_run]
  exact Scopes.numbered_after calls h

/-- Slot 1 is filled, freed and filled again, now by an outer scope; an empty scope is open. -/
def filledAgain : List Call :=
  [.insert ⟨"A", ⟨0, 1⟩⟩ ⟨0⟩, .push, .insert ⟨"B", ⟨2, 3⟩⟩ ⟨1⟩, .pop, .insert ⟨"C", ⟨4, 5⟩⟩ ⟨2⟩, .push]

theorem laidOut_filledAgain :
    insertions filledAgain < UInt64.size ∧
      ((new Diagnostics.empty).run filledAgain).value.scopes.LaidOut :=
  have h : insertions filledAgain < UInt64.size := by decide
  ⟨h, laidOut_run Diagnostics.empty filledAgain h⟩

end ScopeTable

end OberonModules
