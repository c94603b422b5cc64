import OberonModules.Proofs.Calls
import OberonModules.Proofs.Earlier
import OberonModules.ScopeTable.Exercise

/-!
# An exercise of the table never fails

Whatever the moves, an exercise goes on to the last of them, and no check fails on the
way. The checks compare things that are kept apart: the chain of the current scope, its
part of the arena and its head.
-/

namespace OberonModules

/-- What has just been inserted is what its name leads to, whatever it hides. -/
theorem Scopes.WellFormed.lookup?_insert {scopes : Scopes} (h : scopes.WellFormed) (name : Ident)
    (module : ModuleId) :
    (scopes.insert name module).lookup? name.name = some (scopes.newEntry name module) := by
  have hentries := h.entries_insert name module
  have hfound : (scopes.insert name module).findIn? (scopes.insert name module).current name.name =
      some (scopes.newEntry name module) := by
    rw [findIn?_eq, ← entries, hentries, List.find?_cons_of_pos]
    simp [newEntry]
  rw [lookup?, List.findSome?_cons, hfound]

namespace ScopeTable.Exercise

-- ---------------------------------------------------------------------------
-- What the checks mean
-- ---------------------------------------------------------------------------

/-- The name leads to an entry with this handle and this module. -/
def LeadsTo (table : ScopeTable Diagnostics) (name : String) (handle : Handle)
    (module : ModuleId) : Prop :=
  ∃ entry, table.scopes.lookup? name = some entry ∧ entry.handle = handle ∧ entry.module = module

/-- The promises about one move, from the exercise before it to the one after it. -/
def Kept (before after : Exercise) : Move → Prop
  | .insert letter => LeadsTo after.table (nameOf letter)
      (before.table.insert (identOf letter) ⟨before.modules⟩).value.1 ⟨before.modules⟩
  | .declare letter => LeadsTo after.table (nameOf letter)
      (before.table.declare (identOf letter) ⟨before.modules⟩).value.1 ⟨before.modules⟩
  | .lookup _ => after.table.reporter.size = before.table.reporter.size
  | .resolve letter => (before.table.resolve (identOf letter)).value.1 =
      (before.table.scopes.lookup? (nameOf letter)).map Entry.module
  | .push | .pop => True

/-- The promises about the current scope, which hold after every move. The checks go through
chains, and each of these comes to an end. -/
structure Agrees (table : ScopeTable Diagnostics) : Prop where
  walks : table.scopes.Walks
  length_eq : table.scopes.entries.length = table.scopes.size
  isEmpty_iff : table.scopes.isEmpty = true ↔ table.scopes.size = 0

theorem leadsTo_iff {table : ScopeTable Diagnostics} {name : Ident} {handle : Handle}
    {module : ModuleId} :
    leadsTo table name handle module = true ↔ LeadsTo table name.name handle module := by
  unfold leadsTo LeadsTo
  cases table.scopes.lookup? name.name <;> simp

theorem sizesAgree_iff {table : ScopeTable Diagnostics} :
    sizesAgree table = true ↔ table.scopes.entries.length = table.scopes.size ∧
      (table.scopes.isEmpty = true ↔ table.scopes.size = 0) := by
  rw [sizesAgree, Bool.and_eq_true, decide_eq_true_eq, decide_eq_true_eq, eq_iff_iff]

theorem agrees_of_wellFormed {table : ScopeTable Diagnostics} (h : table.scopes.WellFormed) :
    Agrees table :=
  ⟨h.walks, h.size_eq.symm, h.isEmpty_iff⟩

-- ---------------------------------------------------------------------------
-- One move
-- ---------------------------------------------------------------------------

/-- The exercise after a move, whatever the checks say. -/
def next (exercise : Exercise) (move : Move) : Exercise :=
  (exercise.advance move).value.1

/-- The check of a move decides the promises about it. -/
theorem check_advance_iff (exercise : Exercise) (move : Move) :
    (exercise.advance move).value.2 = true ↔ Kept exercise (exercise.next move) move := by
  cases move with
  | insert letter => exact leadsTo_iff
  | declare letter => exact leadsTo_iff
  | lookup letter => simp [advance, next, Kept]
  | resolve letter => simp [advance, Kept]
  | push => simp [advance, Kept]
  | pop => simp [advance, Kept]

variable {exercise : Exercise}

theorem scopes_next_declare (exercise : Exercise) (letter : Nat) :
    (exercise.next (.declare letter)).table.scopes =
      exercise.table.scopes.insert (identOf letter) ⟨exercise.modules⟩ :=
  scopes_declare exercise.table (identOf letter) ⟨exercise.modules⟩

theorem kept_next (h : exercise.table.scopes.WellFormed) (move : Move) :
    Kept exercise (exercise.next move) move := by
  cases move with
  | insert letter => exact ⟨_, h.lookup?_insert (identOf letter) ⟨exercise.modules⟩, rfl, rfl⟩
  | declare letter =>
    have hfound := h.lookup?_insert (identOf letter) ⟨exercise.modules⟩
    rw [← scopes_next_declare] at hfound
    exact ⟨_, hfound, (handle_declare ..).symm, rfl⟩
  | lookup letter => rfl
  | resolve letter => exact module_resolve ..
  | push => trivial
  | pop => trivial

theorem wellFormed_next (h : exercise.table.scopes.WellFormed) (move : Move) :
    (exercise.next move).table.scopes.WellFormed := by
  cases move with
  | insert letter => exact h.insert (identOf letter) ⟨exercise.modules⟩
  | declare letter =>
    rw [scopes_next_declare]
    exact h.insert (identOf letter) ⟨exercise.modules⟩
  | lookup letter => exact h
  | resolve letter =>
    have hscopes : (exercise.next (.resolve letter)).table.scopes = exercise.table.scopes :=
      scopes_resolve exercise.table (identOf letter)
    rwa [hscopes]
  | push => exact h.push
  | pop =>
    have hscopes : (exercise.next .pop).table.scopes = exercise.table.scopes.pop :=
      congrArg ScopeTable.scopes exercise.table.value_pop
    rw [hscopes]
    exact h.pop

theorem value_step (h : exercise.table.scopes.WellFormed) (move : Move) :
    (step (some exercise) move).value = some (exercise.next move) := by
  have hcheck := (check_advance_iff exercise move).mpr (kept_next h move)
  have hagrees := agrees_of_wellFormed (wellFormed_next h move)
  have hsizes := sizesAgree_iff.mpr ⟨hagrees.length_eq, hagrees.isEmpty_iff⟩
  simp only [step, Traced.value_bind, Traced.value_pure]
  exact if_pos (by rw [hcheck]; exact hsizes)

-- ---------------------------------------------------------------------------
-- All moves
-- ---------------------------------------------------------------------------

theorem wellFormed_foldl (h : exercise.table.scopes.WellFormed) (moves : List Move) :
    (moves.foldl next exercise).table.scopes.WellFormed := by
  induction moves generalizing exercise with
  | nil => exact h
  | cons move moves ih => exact ih (wellFormed_next h move)

theorem value_run (h : exercise.table.scopes.WellFormed) (moves : List Move) :
    (exercise.run moves).value = some (moves.foldl next exercise) := by
  rw [run, Traced.value_fold]
  induction moves generalizing exercise with
  | nil => rfl
  | cons move moves ih =>
    rw [List.foldl_cons, List.foldl_cons, value_step h]
    exact ih (wellFormed_next h move)

/-- The exercise goes through all of these moves, and keeps its promises at each of them. -/
structure Passes (moves : List Move) : Prop where
  completes : ∃ exercise, (start.run moves).value = some exercise
  kept : ∀ pair ∈ withEarlier [] moves, ∃ before after,
    (start.run pair.1).value = some before ∧ (start.run (pair.1 ++ [pair.2])).value = some after ∧
      Kept before after pair.2 ∧ Agrees after.table

/-- There are no moves that an exercise fails on. -/
theorem passes_all (moves : List Move) : Passes moves := by
  have hstart : start.table.scopes.WellFormed := Scopes.wellFormed_empty
  refine ⟨⟨_, value_run hstart moves⟩, ?_⟩
  rintro ⟨earlier, move⟩ -
  have hbefore := wellFormed_foldl hstart earlier
  have hafter := value_run hstart (earlier ++ [move])
  rw [List.foldl_append] at hafter
  exact ⟨_, _, value_run hstart earlier, hafter, kept_next hbefore move,
    agrees_of_wellFormed (wellFormed_next hbefore move)⟩

end ScopeTable.Exercise

end OberonModules
