import OberonModules.Proofs.ArenaLayout
import OberonModules.Proofs.NestedScope

/-!
# Handles over a run

A handle names one insertion of a run: by the slot it went to, and by its number among
all insertions. It has an entry exactly as long as the scope is open that was the
current one at that moment. After that the slot may be filled again, any number of
times, but never under the same number.
-/

namespace OberonModules

open Call

-- ---------------------------------------------------------------------------
-- How long a scope stays open
-- ---------------------------------------------------------------------------

/-- The scope that is the current one after `calls` is not closed by any of `more`: the stack never
gets lower than it was. -/
def StaysOpen (calls more : List Call) : Prop :=
  ∀ first, first <+: more →
    (ScopeStack.empty.after calls).height ≤ (ScopeStack.empty.after (calls ++ first)).height

instance (calls more : List Call) : Decidable (StaysOpen calls more) :=
  decidable_of_iff
    (∀ first ∈ more.inits,
      (ScopeStack.empty.after calls).height ≤ (ScopeStack.empty.after (calls ++ first)).height)
    ⟨fun h first hf => h first ((List.mem_inits first more).mpr hf),
      fun h first hf => h first ((List.mem_inits first more).mp hf)⟩

theorem height_after (calls : List Call) :
    (ScopeStack.empty.after calls).height = (Scopes.empty.after calls).depth := by
  rw [Scopes.depth_eq_height, Scopes.wellFormed_empty.stack_after, Scopes.stack_empty]

variable {calls more : List Call} {call : Call}

theorem StaysOpen.mono {later : List Call} (h : StaysOpen calls (more ++ later)) :
    StaysOpen calls more :=
  fun first hf => h first (hf.trans (List.prefix_append more later))

theorem staysOpen_concat (h : StaysOpen calls more)
    (hd : (Scopes.empty.after calls).depth ≤
      (call.onScopes (Scopes.empty.after (calls ++ more))).depth) :
    StaysOpen calls (more ++ [call]) := by
  intro first hf
  rcases List.prefix_concat_iff.mp hf with rfl | hf
  · rw [height_after, height_after, ← List.append_assoc, Scopes.after_append]
    exact hd
  · exact h first hf

theorem staysOpen_nil (calls : List Call) : StaysOpen calls [] := by
  intro first hf
  rw [List.prefix_nil.mp hf, List.append_nil]

namespace Scopes

variable {scopes : Scopes} {entry : Entry} {depth slot : Nat}

-- ---------------------------------------------------------------------------
-- An entry while its scope is open
-- ---------------------------------------------------------------------------

/-- The current scope, at this depth, holds the entry in this slot. -/
structure HoldsAt (depth slot : Nat) (entry : Entry) (scopes : Scopes) : Prop where
  depth_eq : scopes.depth = depth
  start_le : scopes.current.start ≤ slot
  entry_eq : scopes.arena[slot]? = some entry

theorem lasting_holdsAt (depth slot : Nat) (entry : Entry) :
    Lasting (HoldsAt depth slot entry) depth where
  depth_eq := HoldsAt.depth_eq
  insert := by
    intro scopes name module h
    have hlt := slot_lt_size h.entry_eq
    exact ⟨h.depth_eq, h.start_le, (agreeBelow_push _ _ slot hlt).trans h.entry_eq⟩
  recount := fun _ h => ⟨h.depth_eq, h.start_le, h.entry_eq⟩

theorem RestsOn.getElem?_eq (h : RestsOn (HoldsAt depth slot entry) scopes) :
    scopes.arena[slot]? = some entry := by
  induction h with
  | here h => exact h.entry_eq
  | opened _ h ih =>
    have hlt := slot_lt_size ih
    exact (h.below slot hlt).trans ih

theorem WellFormed.holdsAt_created (h : scopes.WellFormed) (he : call.created? scopes = some entry) :
    HoldsAt scopes.depth scopes.arena.size entry (call.onScopes scopes) := by
  obtain ⟨name, module, hscopes, rfl⟩ := onScopes_of_created? he
  rw [hscopes]
  exact ⟨rfl, h.owns_current.start_le, Array.getElem?_push_size⟩

theorem staysOpen_created (he : call.created? (empty.after calls) = some entry) :
    StaysOpen calls [call] := by
  have hholds := (wellFormed_empty.after calls).holdsAt_created he
  apply staysOpen_concat (staysOpen_nil calls)
  rw [List.append_nil]
  exact Nat.le_of_eq hholds.depth_eq.symm

theorem after_cons_eq (calls more : List Call) (call : Call) :
    empty.after (calls ++ call :: more) = (call.onScopes (empty.after calls)).after more :=
  after_append empty calls (call :: more)

theorem restsOn_after_created (he : call.created? (empty.after calls) = some entry)
    (ho : StaysOpen calls (call :: more)) :
    RestsOn (HoldsAt (empty.after calls).depth (empty.after calls).arena.size entry)
      (empty.after (calls ++ call :: more)) := by
  have hholds := (wellFormed_empty.after calls).holdsAt_created he
  rw [after_cons_eq]
  refine (RestsOn.here hholds).after (lasting_holdsAt _ _ _) more ?_
  intro first hf
  have hle := ho (call :: first) (List.cons_prefix_cons.mpr ⟨rfl, hf⟩)
  rwa [height_after, height_after, after_cons_eq] at hle

-- ---------------------------------------------------------------------------
-- An entry once its scope is closed
-- ---------------------------------------------------------------------------

/-- The number has been used, and no entry has it any more. -/
structure Dropped (serial : UInt64) (scopes : Scopes) : Prop where
  ne_serial : ∀ (slot : Nat) (entry : Entry), scopes.arena[slot]? = some entry →
    entry.handle.serial ≠ serial
  lt_inserted : serial < scopes.inserted

theorem Dropped.onScopes {serial : UInt64} (h : Dropped serial scopes)
    (hc : scopes.inserted.toNat + insertions [call] < UInt64.size) :
    Dropped serial (call.onScopes scopes) where
  ne_serial := by
    intro slot entry he
    rcases getElem?_onScopes he with hold | ⟨-, hnew⟩
    · exact h.ne_serial slot entry hold
    · rw [handle_of_created? hnew]
      exact (UInt64.ne_of_lt h.lt_inserted).symm
  lt_inserted := by
    have hlt := UInt64.lt_iff_toNat_lt.mp h.lt_inserted
    rw [UInt64.lt_iff_toNat_lt, toNat_inserted_onScopes hc]
    exact Nat.lt_of_lt_of_le hlt (Nat.le_add_right _ _)

theorem exists_outer (hd : 1 < scopes.depth) :
    ∃ parent rest, scopes.outer = parent :: rest := by
  apply List.exists_cons_of_length_pos
  rw [scopes.depth_eq] at hd
  exact Nat.lt_of_succ_lt_succ hd

/-- When the current scope is closed, the slots of its entries are free. -/
theorem HoldsAt.getElem?_pop (h : HoldsAt depth slot entry scopes) (hd : 1 < scopes.depth) :
    scopes.pop.arena[slot]? = none := by
  obtain ⟨parent, rest, ho⟩ := exists_outer hd
  rw [pop_of_outer_cons ho, Array.getElem?_eq_none_iff, Array.size_shrink]
  exact Nat.le_trans (Nat.min_le_left ..) h.start_le

theorem Numbered.dropped_pop (hn : scopes.Numbered) (hd : 1 < scopes.depth)
    (h : HoldsAt depth slot entry scopes) : Dropped entry.handle.serial scopes.pop := by
  obtain ⟨parent, rest, ho⟩ := exists_outer hd
  rw [pop_of_outer_cons ho]
  constructor
  · intro slot' entry' he
    have hlt := slot_lt_size he
    rw [Array.size_shrink] at hlt
    have hslot : slot' < slot :=
      Nat.lt_of_lt_of_le hlt (Nat.le_trans (Nat.min_le_left ..) h.start_le)
    exact UInt64.ne_of_lt
      (hn.increasing slot' slot entry' entry hslot (getElem?_of_shrink he) h.entry_eq)
  · exact hn.serial_lt slot entry h.entry_eq

/-- Only a pop closes a scope, and only the current one. -/
theorem RestsOn.of_closed {P : Scopes → Prop} (hP : Lasting P depth) (h : RestsOn P scopes)
    (hd : (call.onScopes scopes).depth < depth) :
    call = .pop ∧ 1 < scopes.depth ∧ P scopes := by
  have hle := h.le_depth hP
  cases call with
  | pop =>
    have hlt : 1 < scopes.depth := by
      apply Nat.lt_of_not_le
      intro hone
      rw [Call.onScopes, pop_of_depth_le hone] at hd
      omega
    have hpop := depth_pop hlt
    refine ⟨rfl, hlt, h.of_depth_eq hP ?_⟩
    rw [Call.onScopes] at hd
    omega
  | push => exact absurd hd (Nat.not_lt_of_le (Nat.le_succ_of_le hle))
  | _ => exact absurd hd (Nat.not_lt_of_le hle)

theorem dropped_after (hc : insertions (calls ++ call :: more) < UInt64.size)
    (he : call.created? (empty.after calls) = some entry)
    (ho : ¬ StaysOpen calls (call :: more)) :
    Dropped entry.handle.serial (empty.after (calls ++ call :: more)) := by
  induction more using List.reverseRecOn with
  | nil =>
    -- The insertion itself closes nothing.
    exact absurd (staysOpen_created he) ho
  | append_singleton more last ih =>
    have hassoc : calls ++ call :: (more ++ [last]) = (calls ++ call :: more) ++ [last] := by simp
    rw [hassoc, insertions_append] at hc
    have hmore : insertions (calls ++ call :: more) < UInt64.size :=
      Nat.lt_of_le_of_lt (Nat.le_add_right _ _) hc
    rw [hassoc, after_append]
    by_cases hopen : StaysOpen calls (call :: more)
    · -- It was open until now, so the last call is the one that closes it.
      have hrests := restsOn_after_created he hopen
      have hclosed : (last.onScopes (empty.after (calls ++ call :: more))).depth <
          (empty.after calls).depth := by
        apply Nat.lt_of_not_le
        intro hle
        exact ho (staysOpen_concat hopen hle)
      obtain ⟨rfl, hdepth, hholds⟩ := hrests.of_closed (lasting_holdsAt _ _ _) hclosed
      exact (numbered_after _ hmore).dropped_pop hdepth hholds
    · apply (ih hmore hopen).onScopes
      rwa [toNat_inserted_after hmore]

-- ---------------------------------------------------------------------------
-- Where entries come from
-- ---------------------------------------------------------------------------

/-- An entry in the arena was made by an insertion into a scope that is still open. -/
theorem exists_standing (h : (empty.after calls).arena[slot]? = some entry) :
    ∃ before call since, calls = before ++ call :: since ∧
      call.created? (empty.after before) = some entry ∧ StaysOpen before (call :: since) := by
  induction calls using List.reverseRecOn with
  | nil => simp [after, empty] at h
  | append_singleton calls call ih =>
    rw [after_append] at h
    rcases getElem?_onScopes h with hold | ⟨-, hnew⟩
    · obtain ⟨before, first, since, rfl, hfirst, hopen⟩ := ih hold
      refine ⟨before, first, since ++ [call], by simp, hfirst, ?_⟩
      rw [← List.cons_append]
      apply staysOpen_concat hopen
      -- If the last call closed the scope, the slot would be free.
      apply Nat.le_of_not_lt
      intro hclosed
      have hrests := restsOn_after_created hfirst hopen
      obtain ⟨rfl, hdepth, hholds⟩ := hrests.of_closed (lasting_holdsAt _ _ _) hclosed
      have hslot : (empty.after before).arena.size = slot := by
        have hs := (wellFormed_empty.after _).slot_eq slot entry hold
        rw [handle_of_created? hfirst] at hs
        exact hs
      rw [hslot] at hholds
      have hfree : (empty.after (before ++ first :: since)).pop.arena[slot]? = some entry := h
      rw [hholds.getElem?_pop hdepth] at hfree
      cases hfree
    · exact ⟨calls, call, [], rfl, hnew, staysOpen_created hnew⟩

theorem exists_created (h : (empty.after calls).arena[slot]? = some entry) :
    ∃ before call since, calls = before ++ call :: since ∧
      call.created? (empty.after before) = some entry := by
  obtain ⟨before, call, since, hcalls, hcreated, -⟩ := exists_standing h
  exact ⟨before, call, since, hcalls, hcreated⟩

theorem entry?_eq_some_iff {handle : Handle} :
    scopes.entry? handle = some entry ↔
      scopes.arena[handle.slot]? = some entry ∧ entry.handle.serial = handle.serial := by
  unfold entry?
  rw [atSlot?, Option.filter_eq_some_iff, decide_eq_true_eq]

theorem Dropped.entry?_eq_none {handle : Handle} (h : Dropped handle.serial scopes) :
    scopes.entry? handle = none := by
  rw [Option.eq_none_iff_forall_ne_some]
  intro entry he
  obtain ⟨hslot, hserial⟩ := entry?_eq_some_iff.mp he
  exact h.ne_serial handle.slot entry hslot hserial

/-- A handle has just the entry that was made under it, while the scope of that entry is open. -/
theorem entry?_after_iff (hc : insertions calls < UInt64.size) {handle : Handle} :
    Scopes.entry? (empty.after calls) handle = some entry ↔
      ∃ before call since, calls = before ++ call :: since ∧
        (call.created? (empty.after before) = some entry ∧ entry.handle = handle) ∧
        StaysOpen before (call :: since) := by
  rw [entry?_eq_some_iff]
  constructor
  · rintro ⟨hslot, hserial⟩
    obtain ⟨before, call, since, rfl, hcreated⟩ := exists_created hslot
    have hhandle : entry.handle = handle := by
      have hs := (wellFormed_empty.after _).slot_eq handle.slot entry hslot
      rw [Handle.mk.injEq]
      exact ⟨hs, hserial⟩
    refine ⟨before, call, since, rfl, ⟨hcreated, hhandle⟩, ?_⟩
    -- Were the scope closed, the entry found would have a number that no entry has.
    apply Classical.not_not.mp
    intro hclosed
    exact (dropped_after hc hcreated hclosed).ne_serial handle.slot entry hslot rfl
  · rintro ⟨before, call, since, rfl, ⟨hcreated, rfl⟩, hopen⟩
    refine ⟨?_, rfl⟩
    rw [handle_of_created? hcreated]
    exact (restsOn_after_created hcreated hopen).getElem?_eq

end Scopes

namespace ScopeTable

variable {ρ : Type} [Reporter ρ] {before : List Call} {entry : Entry} {handle : Handle}

/-- The call, made after the calls `before` on a fresh table, makes this entry. The handle tells the
slot it goes to, and its number among all insertions, from 0. -/
structure Inserts (reporter : ρ) (before : List Call) (call : Call) (handle : Handle)
    (entry : Entry) : Prop where
  created : call.created? ((new reporter).run before).value.scopes = some entry
  slot_eq : handle.slot = ((new reporter).run before).value.scopes.arena.size
  serial_eq : handle.serial.toNat = insertions before

theorem inserts_iff (reporter : ρ) (hc : insertions before < UInt64.size) :
    Inserts reporter before call handle entry ↔
      call.created? (Scopes.empty.after before) = some entry ∧ entry.handle = handle := by
  have hcount := Scopes.toNat_inserted_after hc
  have hscopes : ((new reporter).run before).value.scopes = Scopes.empty.after before :=
    scopes_run (new reporter) before
  constructor
  · rintro ⟨hcreated, hslot, hserial⟩
    rw [hscopes] at hcreated hslot
    refine ⟨hcreated, ?_⟩
    rw [handle_of_created? hcreated, Scopes.nextHandle, Handle.mk.injEq]
    exact ⟨hslot.symm, UInt64.toNat_inj.mp (hcount.trans hserial.symm)⟩
  · rintro ⟨hcreated, rfl⟩
    have hhandle := handle_of_created? hcreated
    constructor
    · rwa [hscopes]
    · rw [hscopes, hhandle]
      rfl
    · rw [hhandle]
      exact hcount

/-- A handle, whatever it is, has an entry exactly if the insertion it names was made and the scope
it was made in is still open; the entry is the one made then. A handle that an insertion has
answered with has no entry once that scope is closed, whatever follows. -/
theorem entry?_run (reporter : ρ) (calls : List Call) (h : insertions calls < UInt64.size)
    (handle : Handle) :
    (∀ entry, Scopes.entry? ((new reporter).run calls).value.scopes handle = some entry ↔
      ∃ before call since, calls = before ++ call :: since ∧
        Inserts reporter before call handle entry ∧ StaysOpen before (call :: since)) ∧
    ∀ before call since later, calls = before ++ call :: (since ++ later) →
      call.handle? ((new reporter).run before).value = some handle →
      ¬ StaysOpen before (call :: since) →
      Scopes.entry? ((new reporter).run calls).value.scopes handle = none := by
  have hscopes : ((new reporter).run calls).value.scopes = Scopes.empty.after calls :=
    scopes_run (new reporter) calls
  rw [hscopes]
  constructor
  · intro entry
    rw [Scopes.entry?_after_iff h]
    refine exists_congr fun before => exists_congr fun call => exists_congr fun since => ?_
    refine and_congr_right fun hcalls => and_congr_left' (inserts_iff reporter ?_).symm
    rw [hcalls, insertions_append] at h
    exact Nat.lt_of_le_of_lt (Nat.le_add_right _ _) h
  · rintro before call since later rfl hhandle hclosed
    rw [handle?_eq, scopes_run, Option.map_eq_some_iff] at hhandle
    obtain ⟨entry, hcreated, rfl⟩ := hhandle
    have hlater : ¬ StaysOpen before (call :: since ++ later) := fun hopen => hclosed hopen.mono
    exact (Scopes.dropped_after h hcreated hlater).entry?_eq_none

/-- The slot of `In` is taken by `Out` once its scope is closed. -/
def slotTakenOver : List Call :=
  [.push, .insert ⟨"In", ⟨0, 2⟩⟩ ⟨0⟩, .pop, .declare ⟨"Out", ⟨3, 6⟩⟩ ⟨1⟩]

theorem entry?_slotTakenOver :
    insertions slotTakenOver < UInt64.size ∧
      Scopes.entry? ((new Diagnostics.empty).run slotTakenOver).value.scopes ⟨0, 0⟩ = none ∧
      Scopes.entry? ((new Diagnostics.empty).run slotTakenOver).value.scopes ⟨0, 1⟩ =
        some ⟨⟨0, 1⟩, "Out", ⟨3, 6⟩, ⟨1⟩, none⟩ := by
  have hcount : insertions slotTakenOver < UInt64.size := by decide
  refine ⟨hcount, ?_, ?_⟩
  · exact (entry?_run Diagnostics.empty slotTakenOver hcount ⟨0, 0⟩).2
      [.push] (.insert ⟨"In", ⟨0, 2⟩⟩ ⟨0⟩) [.pop] [.declare ⟨"Out", ⟨3, 6⟩⟩ ⟨1⟩] rfl rfl (by decide)
  · apply ((entry?_run Diagnostics.empty slotTakenOver hcount ⟨0, 1⟩).1 _).mpr
    exact ⟨slotTakenOver.take 3, .declare ⟨"Out", ⟨3, 6⟩⟩ ⟨1⟩, [], rfl, ⟨rfl, rfl, rfl⟩, by decide⟩

end ScopeTable

end OberonModules
