import OberonModules.Proofs.Earlier
import OberonModules.Proofs.Handles

/-!
# The order of handles

Handles compare by their slots, and by their numbers only within a slot. Slots are used
again, so a handle may come before one that was given out earlier. Among handles that
still have their entries this does not happen: along the arena slots and numbers grow
together. Handles of one slot always compare as they were given out.
-/

namespace OberonModules

open Call

namespace Handle

variable {a b : Handle}

theorem compare_of_slot_lt (h : a.slot < b.slot) : compare a b = .lt := by
  change (compare a.slot b.slot).then _ = .lt
  rw [Nat.compare_eq_lt.mpr h]
  rfl

theorem compare_of_serial_lt (h : a.slot = b.slot) (hs : a.serial < b.serial) :
    compare a b = .lt := by
  change (compare a.slot b.slot).then (compareOfLessAndEq a.serial b.serial) = .lt
  rw [Nat.compare_eq_eq.mpr h, compareOfLessAndEq, if_pos hs]
  rfl

end Handle

-- ---------------------------------------------------------------------------
-- Two insertions
-- ---------------------------------------------------------------------------

namespace Scopes

variable {first between since : List Call} {call later : Call} {entry entry' : Entry}

theorem serial_of_created? (hc : insertions first < UInt64.size)
    (he : call.created? (empty.after first) = some entry) :
    entry.handle.serial.toNat = insertions first := by
  rw [handle_of_created? he]
  exact toNat_inserted_after hc

/-- Numbers are given out in order, also to entries that do not last. -/
theorem serial_lt_of_created? (hc : insertions (first ++ call :: between) < UInt64.size)
    (he : call.created? (empty.after first) = some entry)
    (he' : later.created? (empty.after (first ++ call :: between)) = some entry') :
    entry.handle.serial < entry'.handle.serial := by
  have hinserts : call.inserts = true := by rw [← created?_isSome (empty.after first), he]; rfl
  have hcount : insertions (call :: between) = insertions between + 1 :=
    List.countP_cons_of_pos hinserts
  rw [insertions_append, hcount] at hc
  have hserial := serial_of_created? (by omega) he
  have hserial' := serial_of_created? (by rwa [insertions_append, hcount]) he'
  rw [insertions_append, hcount] at hserial'
  rw [UInt64.lt_iff_toNat_lt]
  omega

/-- What is inserted while an entry stands goes to a slot behind it. -/
theorem slot_lt_of_created? (he : call.created? (empty.after first) = some entry)
    (he' : later.created? (empty.after (first ++ call :: between)) = some entry')
    (ho : StaysOpen first (call :: between)) : entry.handle.slot < entry'.handle.slot := by
  have hslot := slot_lt_size (restsOn_after_created he ho).getElem?_eq
  rw [handle_of_created? he, handle_of_created? he']
  exact hslot

theorem staysOpen_of_entry? (hc : insertions (first ++ call :: since) < UInt64.size)
    (he : call.created? (empty.after first) = some entry)
    (h : (Scopes.entry? (empty.after (first ++ call :: since)) entry.handle).isSome) :
    StaysOpen first (call :: since) := by
  apply Classical.not_not.mp
  intro hclosed
  rw [(dropped_after hc he hclosed).entry?_eq_none] at h
  cases h

end Scopes

-- ---------------------------------------------------------------------------
-- All handles of a run
-- ---------------------------------------------------------------------------

namespace ScopeTable

variable {ρ : Type} [Reporter ρ]

/-- The handles that the insertions among these calls answer with, in order. -/
def handlesOf (reporter : ρ) (calls : List Call) : List Handle :=
  (withEarlier [] calls).filterMap fun (before, call) =>
    call.handle? ((new reporter).run before).value

/-- What holds of any two insertions of a run, one before the other, holds along its handles. -/
theorem pairwise_handlesOf (reporter : ρ) {calls : List Call} {R : Handle → Handle → Prop}
    (h : ∀ {first call between later since entry entry'},
      calls = (first ++ call :: between) ++ later :: since →
      call.created? (Scopes.empty.after first) = some entry →
      later.created? (Scopes.empty.after (first ++ call :: between)) = some entry' →
      R entry.handle entry'.handle) : (handlesOf reporter calls).Pairwise R := by
  rw [handlesOf, List.pairwise_filterMap]
  refine (pairwise_withEarlier [] calls).imp_of_mem ?_
  rintro ⟨first, call⟩ ⟨second, later⟩ - hm ⟨between, hsecond⟩ handle hh handle' hh'
  obtain ⟨_, since, hcalls, rfl⟩ := mem_withEarlier_iff.mp hm
  simp only at hsecond hh hh'
  subst hsecond
  rw [handle?_eq, scopes_run, Option.map_eq_some_iff] at hh hh'
  obtain ⟨entry, he, rfl⟩ := hh
  obtain ⟨entry', he', rfl⟩ := hh'
  exact h (by simpa using hcalls) he he'

/-- The handles that are given out in these calls, each before those given out after it. -/
structure OrdersHandles (reporter : ρ) (calls : List Call) : Prop where
  distinct : (handlesOf reporter calls).Nodup
  standing : (handlesOf reporter calls).Pairwise fun earlier later =>
    (Scopes.entry? ((new reporter).run calls).value.scopes earlier).isSome →
    (Scopes.entry? ((new reporter).run calls).value.scopes later).isSome →
      compare earlier later = .lt
  same_slot : (handlesOf reporter calls).Pairwise fun earlier later =>
    earlier.slot = later.slot → compare earlier later = .lt

/-- After any calls on a fresh table, with fewer insertions than the count can tell apart, no handle
has been given out twice, and those that have their entries compare as they were given out. -/
theorem ordersHandles_run (reporter : ρ) (calls : List Call) (h : insertions calls < UInt64.size) :
    OrdersHandles reporter calls := by
  -- Numbers grow along all handles, slots along those that stand.
  have hserial : (handlesOf reporter calls).Pairwise fun earlier later =>
      earlier.serial < later.serial := by
    refine pairwise_handlesOf reporter ?_
    rintro first call between later since entry entry' rfl he he'
    rw [insertions_append] at h
    exact Scopes.serial_lt_of_created? (Nat.lt_of_le_of_lt (Nat.le_add_right _ _) h) he he'
  constructor
  case distinct =>
    refine hserial.imp fun hlt heq => ?_
    rw [heq] at hlt
    exact UInt64.lt_irrefl _ hlt
  case standing =>
    refine pairwise_handlesOf reporter ?_
    rintro first call between later since entry entry' rfl he he' hstands -
    rw [List.append_assoc, List.cons_append] at h hstands
    rw [scopes_run] at hstands
    have hopen := Scopes.staysOpen_of_entry? h he hstands
    exact Handle.compare_of_slot_lt (Scopes.slot_lt_of_created? he he' hopen.mono)
  case same_slot =>
    exact hserial.imp fun hlt hslot => Handle.compare_of_serial_lt hslot hlt

/-- Slots 0 and 1 are filled, freed and filled again. -/
def refilled : List Call :=
  [.push, .insert ⟨"A", ⟨0, 1⟩⟩ ⟨0⟩, .declare ⟨"B", ⟨2, 3⟩⟩ ⟨1⟩, .pop,
    .insert ⟨"C", ⟨4, 5⟩⟩ ⟨2⟩, .declare ⟨"D", ⟨6, 7⟩⟩ ⟨3⟩]

/-- The handle of `B` has no entry any more, and comes after that of `C`. -/
theorem ordersHandles_refilled :
    insertions refilled < UInt64.size ∧ OrdersHandles Diagnostics.empty refilled ∧
      handlesOf Diagnostics.empty refilled = [⟨0, 0⟩, ⟨1, 1⟩, ⟨0, 2⟩, ⟨1, 3⟩] ∧
      compare (⟨1, 1⟩ : Handle) ⟨0, 2⟩ = .gt := by
  have hcount : insertions refilled < UInt64.size := by decide
  exact ⟨hcount, ordersHandles_run Diagnostics.empty refilled hcount, by decide, by decide⟩

end ScopeTable

end OberonModules
