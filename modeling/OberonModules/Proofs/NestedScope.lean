import Mathlib.Data.List.Induction
import Mathlib.Data.List.Infix
import OberonModules.Proofs.Calls

/-!
# A scope that comes and goes

Between opening a scope and closing it again, everything below stays as it was. What
the scope leaves behind is a higher insertion count, and the diagnostics that the
reporter has received meanwhile. The calls in between may open and close scopes of
their own, to any depth, as long as they close what they open and nothing else.
-/

namespace OberonModules

open Call

namespace Scopes

/-- The same scopes, as if this many more entries had come and gone. -/
def skip (scopes : Scopes) (count : Nat) : Scopes :=
  { scopes with inserted := scopes.inserted + UInt64.ofNat count }

theorem WellFormed.skip {scopes : Scopes} (h : scopes.WellFormed) (count : Nat) :
    (scopes.skip count).WellFormed :=
  ⟨h.slot_eq, h.tiled⟩

-- ---------------------------------------------------------------------------
-- Scopes opened on others
-- ---------------------------------------------------------------------------

/-- The current scope was opened on `base`, and everything below it is as it was. -/
structure OpenedOn (base scopes : Scopes) : Prop where
  start_eq : scopes.current.start = base.arena.size
  outer_eq : scopes.outer = base.current :: base.outer
  below : AgreeBelow base.arena.size base.arena scopes.arena

variable {base scopes : Scopes}

theorem openedOn_push (base : Scopes) : OpenedOn base base.push :=
  ⟨rfl, rfl, fun _ _ => rfl⟩

theorem OpenedOn.size_le (h : OpenedOn base scopes) : base.arena.size ≤ scopes.arena.size :=
  h.below.le_size (Nat.le_refl _)

theorem OpenedOn.depth_eq (h : OpenedOn base scopes) : scopes.depth = base.depth + 1 := by
  rw [scopes.depth_eq, h.outer_eq, base.depth_eq]
  rfl

theorem OpenedOn.insert (h : OpenedOn base scopes) (name : Ident) (module : ModuleId) :
    OpenedOn base (scopes.insert name module) where
  start_eq := h.start_eq
  outer_eq := h.outer_eq
  below := by
    intro slot hs
    rw [← h.below slot hs]
    exact agreeBelow_push _ _ slot (Nat.lt_of_lt_of_le hs h.size_le)

theorem OpenedOn.recount (h : OpenedOn base scopes) (inserted : UInt64) :
    OpenedOn base { scopes with inserted } :=
  ⟨h.start_eq, h.outer_eq, h.below⟩

theorem OpenedOn.pop_eq (h : OpenedOn base scopes) :
    scopes.pop = { base with inserted := scopes.inserted } := by
  rw [pop_of_outer_cons h.outer_eq, Scopes.mk.injEq]
  refine ⟨?_, rfl, rfl, ?_, rfl⟩
  · rw [h.start_eq, h.below.shrink_eq]
  · rw [h.depth_eq]
    rfl

/-- Either these are scopes with the property, or they were opened, one on another, on such. -/
inductive RestsOn (P : Scopes → Prop) : Scopes → Prop
  | here {scopes : Scopes} (h : P scopes) : RestsOn P scopes
  | opened {base scopes : Scopes} (lower : RestsOn P base) (h : OpenedOn base scopes) :
    RestsOn P scopes

/-- A property of scopes of this depth that no insertion into them takes away. -/
structure Lasting (P : Scopes → Prop) (depth : Nat) : Prop where
  depth_eq : ∀ {scopes : Scopes}, P scopes → scopes.depth = depth
  insert : ∀ {scopes : Scopes} (name : Ident) (module : ModuleId), P scopes →
    P (scopes.insert name module)
  recount : ∀ {scopes : Scopes} (inserted : UInt64), P scopes → P { scopes with inserted }

variable {P : Scopes → Prop} {depth : Nat}

theorem lasting_openedOn (base : Scopes) : Lasting (OpenedOn base) (base.depth + 1) where
  depth_eq := OpenedOn.depth_eq
  insert := fun name module h => h.insert name module
  recount := fun inserted h => h.recount inserted

theorem RestsOn.le_depth (hP : Lasting P depth) (h : RestsOn P scopes) :
    depth ≤ scopes.depth := by
  induction h with
  | here h => exact Nat.le_of_eq (hP.depth_eq h).symm
  | opened _ h ih => exact Nat.le_trans ih (by simp [h.depth_eq])

/-- At the depth of the property nothing is open above it. -/
theorem RestsOn.of_depth_eq (hP : Lasting P depth) (h : RestsOn P scopes)
    (hd : scopes.depth = depth) : P scopes := by
  cases h with
  | here h => exact h
  | opened lower h =>
    have hle := lower.le_depth hP
    have heq := h.depth_eq
    omega

theorem RestsOn.size_le (h : RestsOn (OpenedOn base) scopes) :
    base.arena.size ≤ scopes.arena.size := by
  induction h with
  | here h => exact h.size_le
  | opened _ h ih => exact Nat.le_trans ih h.size_le

theorem RestsOn.insert (hP : Lasting P depth) (h : RestsOn P scopes) (name : Ident)
    (module : ModuleId) : RestsOn P (scopes.insert name module) := by
  cases h with
  | here h => exact .here (hP.insert name module h)
  | opened lower h => exact .opened lower (h.insert name module)

theorem RestsOn.recount (hP : Lasting P depth) (h : RestsOn P scopes) (inserted : UInt64) :
    RestsOn P { scopes with inserted } := by
  cases h with
  | here h => exact .here (hP.recount inserted h)
  | opened lower h => exact .opened lower (h.recount inserted)

theorem depth_pop (h : 1 < scopes.depth) : scopes.pop.depth + 1 = scopes.depth := by
  cases ho : scopes.outer with
  | nil => simp [scopes.depth_eq, ho] at h
  | cons parent rest =>
    simp only [pop_of_outer_cons ho]
    omega

theorem pop_of_depth_le (h : scopes.depth ≤ 1) : scopes.pop = scopes := by
  apply pop_of_outer_nil
  rw [scopes.depth_eq] at h
  exact List.length_eq_zero_iff.mp (by omega)

theorem RestsOn.pop (hP : Lasting P depth) (h : RestsOn P scopes)
    (hd : depth ≤ scopes.pop.depth) : RestsOn P scopes.pop := by
  cases h with
  | here h =>
    -- A scope of this depth can only be popped if it is the outermost one, which stays.
    have hle : scopes.depth ≤ 1 := by
      apply Nat.le_of_not_lt
      intro hlt
      have heq := depth_pop hlt
      have hdepth := hP.depth_eq h
      omega
    rw [pop_of_depth_le hle]
    exact .here h
  | opened lower h =>
    rw [h.pop_eq]
    exact lower.recount hP _

theorem RestsOn.onScopes (hP : Lasting P depth) (h : RestsOn P scopes) (call : Call)
    (hd : depth ≤ (call.onScopes scopes).depth) : RestsOn P (call.onScopes scopes) := by
  cases call with
  | insert name module => exact h.insert hP name module
  | declare name module => exact h.insert hP name module
  | push => exact .opened h (openedOn_push scopes)
  | pop => exact h.pop hP hd
  | _ => exact h

/-- What scopes rest on stays until a call closes it. -/
theorem RestsOn.after (hP : Lasting P depth) (h : RestsOn P scopes) (calls : List Call)
    (hd : ∀ first, first <+: calls → depth ≤ (scopes.after first).depth) :
    RestsOn P (scopes.after calls) := by
  induction calls generalizing scopes with
  | nil => exact h
  | cons call calls ih =>
    have hcall : depth ≤ (call.onScopes scopes).depth :=
      hd [call] (List.prefix_append [call] calls)
    refine ih (h.onScopes hP call hcall) ?_
    intro first hf
    exact hd (call :: first) (List.cons_prefix_cons.mpr ⟨rfl, hf⟩)

end Scopes

-- ---------------------------------------------------------------------------
-- Calls that close what they open
-- ---------------------------------------------------------------------------

/-- Calls that close every scope they open, and none that they did not open. -/
structure WellNested (calls : List Call) : Prop where
  pops_le : ∀ first, first <+: calls → first.count .pop ≤ first.count .push
  pops_eq : calls.count .pop = calls.count .push

instance (calls : List Call) : Decidable (WellNested calls) :=
  decidable_of_iff
    ((∀ first ∈ calls.inits, first.count .pop ≤ first.count .push) ∧
      calls.count .pop = calls.count .push)
    ⟨fun h => ⟨fun first hf => h.1 first (List.mem_inits first calls |>.mpr hf), h.2⟩,
      fun h => ⟨fun first hf => h.pops_le first (List.mem_inits first calls |>.mp hf), h.pops_eq⟩⟩

namespace Scopes

theorem depth_onScopes {call : Call} (h : call = .pop → 1 < scopes.depth) :
    (call.onScopes scopes).depth + [call].count .pop = scopes.depth + [call].count .push := by
  cases call with
  | pop => exact depth_pop (h rfl)
  | _ => rfl

/-- The depth counts the scopes opened and closed, if calls close only what they open. -/
theorem depth_after (scopes : Scopes) (calls : List Call)
    (h : ∀ first, first <+: calls → first.count .pop ≤ first.count .push) :
    (scopes.after calls).depth + calls.count .pop = scopes.depth + calls.count .push := by
  induction calls using List.reverseRecOn with
  | nil => rfl
  | append_singleton calls call ih =>
    have hcalls := ih fun first hf => h first (hf.trans (List.prefix_append calls [call]))
    have hcall : (call.onScopes (scopes.after calls)).depth + [call].count .pop =
        (scopes.after calls).depth + [call].count .push := by
      apply depth_onScopes
      rintro rfl
      have hle := h _ (List.prefix_refl _)
      have hpos : 0 < scopes.depth := by simp [scopes.depth_eq]
      simp only [List.count_append, List.count_singleton_self] at hle
      have hpush : [Call.pop].count .push = 0 := rfl
      omega
    rw [after_append, List.count_append, List.count_append]
    change (call.onScopes (scopes.after calls)).depth + _ = _
    omega

variable {calls : List Call}

theorem restsOn_after_push (scopes : Scopes)
    (h : ∀ first, first <+: calls → first.count .pop ≤ first.count .push) :
    RestsOn (OpenedOn scopes) (scopes.push.after calls) := by
  refine (RestsOn.here (openedOn_push scopes)).after (lasting_openedOn scopes) calls ?_
  intro first hf
  have hdepth := scopes.push.depth_after first fun shorter hs => h shorter (hs.trans hf)
  have hle := h first hf
  change _ = scopes.depth + 1 + _ at hdepth
  omega

/-- All that a scope leaves, whatever calls there were inside, is a higher insertion count. -/
theorem pop_after_push (scopes : Scopes) (h : WellNested calls) :
    (scopes.push.after calls).pop = scopes.skip (insertions calls) := by
  have hdepth := scopes.push.depth_after calls h.pops_le
  have hopened : OpenedOn scopes (scopes.push.after calls) := by
    refine (restsOn_after_push scopes h.pops_le).of_depth_eq (lasting_openedOn scopes) ?_
    rw [h.pops_eq] at hdepth
    exact Nat.add_right_cancel hdepth
  rw [hopened.pop_eq, inserted_after]
  rfl

-- ---------------------------------------------------------------------------
-- A scope of bindings
-- ---------------------------------------------------------------------------

def insertAll (scopes : Scopes) (bindings : List (Ident × ModuleId)) : Scopes :=
  bindings.foldl (fun scopes binding => scopes.insert binding.1 binding.2) scopes

def insertCalls (bindings : List (Ident × ModuleId)) : List Call :=
  bindings.map fun binding => .insert binding.1 binding.2

theorem after_insertCalls (scopes : Scopes) (bindings : List (Ident × ModuleId)) :
    scopes.after (insertCalls bindings) = scopes.insertAll bindings :=
  List.foldl_map

theorem insertions_insertCalls (bindings : List (Ident × ModuleId)) :
    insertions (insertCalls bindings) = bindings.length := by
  rw [insertions, insertCalls, List.countP_map]
  exact List.countP_eq_length.mpr fun _ _ => rfl

theorem wellNested_insertCalls (bindings : List (Ident × ModuleId)) :
    WellNested (insertCalls bindings) := by
  have hpop : Call.pop ∉ insertCalls bindings := by simp [insertCalls]
  have hpush : Call.push ∉ insertCalls bindings := by simp [insertCalls]
  constructor
  · intro first hf
    rw [List.count_eq_zero_of_not_mem fun hm => hpop (hf.subset hm)]
    exact Nat.zero_le _
  · rw [List.count_eq_zero_of_not_mem hpop, List.count_eq_zero_of_not_mem hpush]

theorem pop_insertAll_push (scopes : Scopes) (bindings : List (Ident × ModuleId)) :
    (scopes.push.insertAll bindings).pop = scopes.skip bindings.length := by
  rw [← after_insertCalls, pop_after_push scopes (wellNested_insertCalls bindings),
    insertions_insertCalls]

-- ---------------------------------------------------------------------------
-- What the scope leaves behind
-- ---------------------------------------------------------------------------

/-- These scopes are those others but for this many insertions more, and every question has the
answer it has there. -/
structure Restores (scopes others : Scopes) (count : Nat) : Prop where
  arena_eq : scopes.arena = others.arena
  current_eq : scopes.current = others.current
  outer_eq : scopes.outer = others.outer
  inserted_eq : scopes.inserted = others.inserted + UInt64.ofNat count
  lookup? : ∀ name, scopes.lookup? name = others.lookup? name
  findLocal? : ∀ name, scopes.findLocal? name = others.findLocal? name
  entries : scopes.entries = others.entries
  size : scopes.size = others.size
  isEmpty : scopes.isEmpty = others.isEmpty
  depth : scopes.depth = others.depth
  entry? : ∀ handle, scopes.entry? handle = others.entry? handle

theorem restores_skip (scopes : Scopes) (count : Nat) : (scopes.skip count).Restores scopes count :=
  ⟨rfl, rfl, rfl, rfl, fun _ => rfl, fun _ => rfl, rfl, rfl, rfl, rfl, fun _ => rfl⟩

/-- Slots that the scopes do not reach yet are free again once nothing is left open on them. -/
theorem entry?_skip_eq_none {later : Scopes} (h : RestsOn (OpenedOn scopes) later) (count : Nat) :
    Scopes.entry? (scopes.skip count) later.nextHandle = none := by
  have hfree : (scopes.skip count).atSlot? later.nextHandle = none :=
    Array.getElem?_eq_none h.size_le
  unfold entry?
  rw [hfree]
  rfl

end Scopes

namespace ScopeTable

variable {ρ : Type} [Reporter ρ] {calls : List Call}

/-- Leaving a scope restores the table, whatever well nested calls were made inside: only the
reporter and the insertion count can tell. A handle that was given out inside has no entry. -/
theorem restores_run (table : ScopeTable ρ) (h : WellNested calls) :
    (table.run (.push :: calls ++ [.pop])).value.scopes.Restores table.scopes (insertions calls) ∧
      ∀ first call rest handle, calls = first ++ call :: rest →
        call.handle? (table.run (.push :: first)).value = some handle →
        Scopes.entry? (table.run (.push :: calls ++ [.pop])).value.scopes handle = none := by
  have hleft : (table.run (.push :: calls ++ [.pop])).value.scopes =
      table.scopes.skip (insertions calls) := by
    rw [scopes_run, Scopes.after_append]
    exact Scopes.pop_after_push table.scopes h
  rw [hleft]
  refine ⟨Scopes.restores_skip _ _, ?_⟩
  rintro first call rest handle rfl hh
  rw [handle?_eq, scopes_run, Option.map_eq_some_iff] at hh
  obtain ⟨entry, he, rfl⟩ := hh
  rw [handle_of_created? he]
  apply Scopes.entry?_skip_eq_none
  exact Scopes.restsOn_after_push table.scopes fun shorter hs =>
    h.pops_le shorter (hs.trans (List.prefix_append first (call :: rest)))

/-- `Out` declared twice, and in between inserted one scope further in. -/
def twoLevels : List Call :=
  [.declare ⟨"Out", ⟨10, 13⟩⟩ ⟨1⟩, .push, .insert ⟨"Out", ⟨20, 23⟩⟩ ⟨2⟩, .pop,
    .declare ⟨"Out", ⟨30, 33⟩⟩ ⟨3⟩]

def outDeclared : ScopeTable Diagnostics :=
  ((new Diagnostics.empty).run [.insert ⟨"Out", ⟨0, 3⟩⟩ ⟨0⟩]).value

theorem restores_twoLevels :
    WellNested twoLevels ∧
      (outDeclared.run (.push :: twoLevels ++ [.pop])).value.scopes.Restores outDeclared.scopes 3 ∧
      Scopes.entry? (outDeclared.run (.push :: twoLevels ++ [.pop])).value.scopes ⟨2, 3⟩ = none := by
  have hnested : WellNested twoLevels := by decide
  obtain ⟨hrestores, hstale⟩ := restores_run outDeclared hnested
  refine ⟨hnested, hrestores, ?_⟩
  exact hstale (twoLevels.take 4) (.declare ⟨"Out", ⟨30, 33⟩⟩ ⟨3⟩) [] ⟨2, 3⟩ rfl rfl

end ScopeTable

end OberonModules
