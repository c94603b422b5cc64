import OberonModules.Proofs.Reports
import OberonModules.Proofs.ScopeStack

/-!
# Runs of a table

Any sequence of calls on a table, from a fresh one. What a run does to the scopes
does not depend on the reporter, and it does the same to the stack of lists that the
scopes stand for, so that every question is answered as the stack answers it. A prefix
of a run is a run: what holds after all runs holds after every call.
-/

namespace OberonModules

/-- One call that may change a table. -/
inductive Call
  | insert (name : Ident) (module : ModuleId)
  | declare (name : Ident) (module : ModuleId)
  | resolve (name : Ident)
  | report (diagnostic : Diagnostic)
  | reportError (code : Diagnostic.Code) (message : String) (span : Span)
  | push
  | pop
deriving DecidableEq

-- ---------------------------------------------------------------------------
-- What a call does
-- ---------------------------------------------------------------------------

namespace Call

/-- The call on a table. The answer is dropped. -/
def perform {ρ : Type} [Reporter ρ] (table : ScopeTable ρ) : Call → Traced (ScopeTable ρ)
  | .insert name module => Prod.snd <$> table.insert name module
  | .declare name module => Prod.snd <$> table.declare name module
  | .resolve name => Prod.snd <$> table.resolve name
  | .report diagnostic => table.report diagnostic
  | .reportError code message span => table.reportError code message span
  | .push => table.push
  | .pop => table.pop

def onScopes (scopes : Scopes) : Call → Scopes
  | .insert name module | .declare name module => scopes.insert name module
  | .resolve _ | .report _ | .reportError .. => scopes
  | .push => scopes.push
  | .pop => scopes.pop

/-- To insert and to declare are the same here, and all that only reports does nothing. -/
def onStack (stack : ScopeStack) : Call → ScopeStack
  | .insert name module | .declare name module => stack.insert name module
  | .resolve _ | .report _ | .reportError .. => stack
  | .push => stack.push
  | .pop => stack.pop

/-- The handle that the call answers with. Only insertions answer with one. -/
def handle? {ρ : Type} [Reporter ρ] (table : ScopeTable ρ) : Call → Option Handle
  | .insert name module => some (table.insert name module).value.1
  | .declare name module => some (table.declare name module).value.1
  | .resolve _ | .report _ | .reportError .. | .push | .pop => none

/-- The entry that the call makes. -/
def created? (scopes : Scopes) : Call → Option Entry
  | .insert name module | .declare name module => some (scopes.newEntry name module)
  | .resolve _ | .report _ | .reportError .. | .push | .pop => none

def inserts : Call → Bool
  | .insert .. | .declare .. => true
  | .resolve _ | .report _ | .reportError .. | .push | .pop => false

def insertions (calls : List Call) : Nat :=
  calls.countP inserts

theorem insertions_append (first second : List Call) :
    insertions (first ++ second) = insertions first + insertions second :=
  List.countP_append

theorem scopes_perform {ρ : Type} [Reporter ρ] (table : ScopeTable ρ) (call : Call) :
    (call.perform table).value.scopes = call.onScopes table.scopes := by
  cases call with
  | insert name module => rfl
  | declare name module => exact table.scopes_declare name module
  | resolve name => exact table.scopes_resolve name
  | report diagnostic => rfl
  | reportError code message span => rfl
  | push => rfl
  | pop => simp [perform, onScopes]

theorem handle?_eq {ρ : Type} [Reporter ρ] (table : ScopeTable ρ) (call : Call) :
    call.handle? table = (call.created? table.scopes).map Entry.handle := by
  cases call with
  | declare name module => exact congrArg some (table.handle_declare name module)
  | _ => rfl

theorem created?_isSome (scopes : Scopes) (call : Call) :
    (call.created? scopes).isSome = call.inserts := by
  cases call <;> rfl

/-- To insert and to declare do the same to the scopes, and no other call makes an entry. -/
theorem onScopes_of_created? {scopes : Scopes} {call : Call} {entry : Entry}
    (h : call.created? scopes = some entry) :
    ∃ name module, call.onScopes scopes = scopes.insert name module ∧
      entry = scopes.newEntry name module := by
  cases call with
  | insert name module => exact ⟨name, module, rfl, (Option.some.inj h).symm⟩
  | declare name module => exact ⟨name, module, rfl, (Option.some.inj h).symm⟩
  | _ => cases h

theorem handle_of_created? {scopes : Scopes} {call : Call} {entry : Entry}
    (h : call.created? scopes = some entry) : entry.handle = scopes.nextHandle := by
  obtain ⟨name, module, -, rfl⟩ := onScopes_of_created? h
  rfl

/-- Every entry after a call was there before, or the call has made it. -/
theorem getElem?_onScopes {scopes : Scopes} {call : Call} {slot : Nat} {entry : Entry}
    (h : (call.onScopes scopes).arena[slot]? = some entry) :
    scopes.arena[slot]? = some entry ∨
      slot = scopes.arena.size ∧ call.created? scopes = some entry := by
  cases call with
  | insert name module =>
    obtain hold | ⟨hs, rfl⟩ := Scopes.getElem?_of_insert h
    · exact .inl hold
    · exact .inr ⟨hs, rfl⟩
  | declare name module =>
    obtain hold | ⟨hs, rfl⟩ := Scopes.getElem?_of_insert h
    · exact .inl hold
    · exact .inr ⟨hs, rfl⟩
  | pop => exact .inl (Scopes.getElem?_of_pop h)
  | _ => exact .inl h

theorem inserted_onScopes (scopes : Scopes) (call : Call) :
    (call.onScopes scopes).inserted = scopes.inserted + UInt64.ofNat (insertions [call]) := by
  cases call with
  | insert name module => rfl
  | declare name module => rfl
  | pop => exact scopes.inserted_pop.trans (UInt64.add_zero _).symm
  | _ => exact (UInt64.add_zero _).symm

theorem wellFormed_onScopes {scopes : Scopes} (h : scopes.WellFormed) (call : Call) :
    (call.onScopes scopes).WellFormed := by
  cases call with
  | insert name module => exact h.insert name module
  | declare name module => exact h.insert name module
  | push => exact h.push
  | pop => exact h.pop
  | _ => exact h

theorem stack_onScopes {scopes : Scopes} (h : scopes.WellFormed) (call : Call) :
    (call.onScopes scopes).stack = call.onStack scopes.stack := by
  cases call with
  | insert name module => exact h.stack_insert name module
  | declare name module => exact h.stack_insert name module
  | push => exact h.stack_push
  | pop => exact h.stack_pop
  | _ => rfl

end Call

-- ---------------------------------------------------------------------------
-- Runs
-- ---------------------------------------------------------------------------

def Scopes.after (scopes : Scopes) (calls : List Call) : Scopes :=
  calls.foldl Call.onScopes scopes

def ScopeStack.after (stack : ScopeStack) (calls : List Call) : ScopeStack :=
  calls.foldl Call.onStack stack

theorem Scopes.after_append (scopes : Scopes) (first second : List Call) :
    scopes.after (first ++ second) = (scopes.after first).after second :=
  List.foldl_append

theorem Scopes.inserted_after (scopes : Scopes) (calls : List Call) :
    (scopes.after calls).inserted = scopes.inserted + UInt64.ofNat (Call.insertions calls) := by
  induction calls generalizing scopes with
  | nil => simp [after, Call.insertions]
  | cons call calls ih =>
    calc ((call.onScopes scopes).after calls).inserted
      _ = scopes.inserted + UInt64.ofNat (Call.insertions [call]) +
          UInt64.ofNat (Call.insertions calls) := by rw [ih, Call.inserted_onScopes]
      _ = scopes.inserted + UInt64.ofNat (Call.insertions (call :: calls)) := by
        rw [UInt64.add_assoc, ← UInt64.ofNat_add, ← Call.insertions_append, List.singleton_append]

theorem Scopes.WellFormed.after {scopes : Scopes} (h : scopes.WellFormed) (calls : List Call) :
    (scopes.after calls).WellFormed := by
  induction calls generalizing scopes with
  | nil => exact h
  | cons call calls ih => exact ih (Call.wellFormed_onScopes h call)

theorem Scopes.WellFormed.stack_after {scopes : Scopes} (h : scopes.WellFormed)
    (calls : List Call) : (scopes.after calls).stack = scopes.stack.after calls := by
  induction calls generalizing scopes with
  | nil => rfl
  | cons call calls ih =>
    have hc := ih (Call.wellFormed_onScopes h call)
    rwa [Call.stack_onScopes h call] at hc

namespace ScopeTable

variable {ρ : Type} [Reporter ρ]

def run (table : ScopeTable ρ) (calls : List Call) : Traced (ScopeTable ρ) :=
  Traced.fold Call.perform table calls

theorem scopes_run (table : ScopeTable ρ) (calls : List Call) :
    (table.run calls).value.scopes = table.scopes.after calls := by
  induction calls generalizing table with
  | nil => rfl
  | cons call calls ih =>
    have h := ih (call.perform table).value
    rw [Call.scopes_perform] at h
    rw [run, Traced.fold_cons]
    exact h

theorem wellFormed_run (reporter : ρ) (calls : List Call) :
    ((new reporter).run calls).value.scopes.WellFormed := by
  rw [scopes_run]
  exact Scopes.wellFormed_empty.after calls

theorem stack_run (reporter : ρ) (calls : List Call) :
    ((new reporter).run calls).value.scopes.stack = ScopeStack.empty.after calls := by
  rw [scopes_run, ← Scopes.stack_empty]
  exact Scopes.wellFormed_empty.stack_after calls

/-- Every question to the table has the answer that the stack gives, and every chain that it goes
through comes to an end. Of a binding that is found, the table gives name, span and module. -/
structure Shows (table : ScopeTable ρ) (stack : ScopeStack) : Prop where
  walks : table.scopes.Walks
  findLocal : ∀ name, (table.scopes.findLocal? name).map Entry.binding = stack.findLocal? name
  lookup : ∀ name, (table.scopes.lookup? name).map Entry.binding = stack.lookup? name
  resolve : ∀ name : Ident,
    (table.resolve name).value.1 = (stack.lookup? name.name).map Binding.module
  entries : table.scopes.entries.map Entry.binding = stack.top
  size : table.scopes.size = stack.top.length
  isEmpty : table.scopes.isEmpty = true ↔ stack.top = []
  depth : table.scopes.depth = stack.height
  isOutermost : table.scopes.isOutermost = true ↔ stack.height = 1

theorem shows_stack (table : ScopeTable ρ) (h : table.scopes.WellFormed) :
    table.Shows table.scopes.stack where
  walks := h.walks
  findLocal := table.scopes.binding_findLocal?
  lookup := table.scopes.binding_lookup?
  resolve := by
    intro name
    rw [module_resolve, ← Scopes.map_lookup?]
    rfl
  entries := rfl
  size := h.size_eq_top
  isEmpty := by rw [h.isEmpty_eq_top, List.isEmpty_iff]
  depth := table.scopes.depth_eq_height
  isOutermost := table.scopes.isOutermost_iff

/-- After any calls on a fresh table, whatever its reporter, the table answers like the stack of
lists after the same calls. -/
theorem shows_run (reporter : ρ) (calls : List Call) :
    ((new reporter).run calls).value.Shows (ScopeStack.empty.after calls) := by
  rw [← stack_run reporter calls]
  exact shows_stack _ (wellFormed_run reporter calls)

end ScopeTable

end OberonModules
