import OberonModules.ScopeTable

/-!
# Exercising the table

Drives a table through arbitrary moves over a small alphabet of names, and checks
after every move what the table promises about look-up and about the size of the
current scope. A look-up alone must report nothing.
-/

namespace OberonModules.ScopeTable

/-- One move; the number picks a name. -/
inductive Move
  | insert (letter : Nat)
  | declare (letter : Nat)
  | lookup (letter : Nat)
  | resolve (letter : Nat)
  | push
  | pop
deriving DecidableEq

/-- A table under exercise. Every name that is inserted or declared gets a module of its own. -/
structure Exercise where
  table : ScopeTable Diagnostics
  modules : Nat

namespace Exercise

def start : Exercise :=
  ⟨.new .empty, 0⟩

def nameOf (letter : Nat) : String :=
  "M" ++ toString (letter % 16)

def identOf (letter : Nat) : Ident :=
  ⟨nameOf letter, default⟩

/-- The name now leads to exactly this handle and this module. -/
def leadsTo (table : ScopeTable Diagnostics) (name : Ident) (handle : Handle)
    (module : ModuleId) : Bool :=
  match table.scopes.lookup? name.name with
  | some found => found.handle = handle && found.module = module
  | none => false

/-- The chain of the current scope is as long as its part of the arena, and there is a head
unless both are empty. -/
def sizesAgree (table : ScopeTable Diagnostics) : Bool :=
  table.scopes.entries.length = table.scopes.size &&
    table.scopes.isEmpty = (table.scopes.size = 0)

/-- Does a move, and checks what the table promises about it. -/
def advance (exercise : Exercise) : Move → Traced (Exercise × Bool)
  | .insert letter => do
    let module := ⟨exercise.modules⟩
    let (handle, table) ← exercise.table.insert (identOf letter) module
    return (⟨table, exercise.modules + 1⟩, leadsTo table (identOf letter) handle module)
  | .declare letter => do
    let module := ⟨exercise.modules⟩
    let (handle, table) ← exercise.table.declare (identOf letter) module
    return (⟨table, exercise.modules + 1⟩, leadsTo table (identOf letter) handle module)
  | .lookup letter =>
    let before := exercise.table.reporter.size
    let _ := exercise.table.scopes.lookup? (nameOf letter)
    return (exercise, exercise.table.reporter.size = before)
  | .resolve letter => do
    let found := (exercise.table.scopes.lookup? (nameOf letter)).map Entry.module
    let (module, table) ← exercise.table.resolve (identOf letter)
    return ({ exercise with table }, module = found)
  | .push => do
    let table ← exercise.table.push
    return ({ exercise with table }, true)
  | .pop => do
    let table ← exercise.table.pop
    return ({ exercise with table }, true)

def step : Option Exercise → Move → Traced (Option Exercise)
  | none, _ => return none
  | some exercise, move => do
    let (exercise, kept) ← exercise.advance move
    return if kept && sizesAgree exercise.table then some exercise else none

/-- The exercise after all moves, or none if a check failed. -/
def run (exercise : Exercise) (moves : List Move) : Traced (Option Exercise) :=
  Traced.fold step (some exercise) moves

end Exercise

end OberonModules.ScopeTable
