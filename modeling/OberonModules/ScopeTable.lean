import OberonModules.Reporter
import OberonModules.Scopes

/-!
# The scope table

Nested scopes together with a reporter. The operations are those of the scopes;
two of them also report: `declare` a name that its scope already has, and `resolve`
a name that no open scope has. Neither fails: the declaration is made, and the
missing module is `none`.

Every change goes into the log.
-/

namespace OberonModules

structure ScopeTable (ρ : Type) where
  scopes : Scopes
  reporter : ρ

namespace ScopeTable

variable {ρ : Type}

def new (reporter : ρ) : ScopeTable ρ :=
  ⟨.empty, reporter⟩

def insert (table : ScopeTable ρ) (name : Ident) (module : ModuleId) :
    Traced (Handle × ScopeTable ρ) := do
  Traced.emit (.declared name.name module table.scopes.depth)
  return (table.scopes.nextHandle, { table with scopes := table.scopes.insert name module })

def push (table : ScopeTable ρ) : Traced (ScopeTable ρ) := do
  let scopes := table.scopes.push
  Traced.emit (.entered scopes.depth)
  return { table with scopes }

/-- Closes the current scope. On the outermost scope it does nothing, and logs nothing. -/
def pop (table : ScopeTable ρ) : Traced (ScopeTable ρ) := do
  if table.scopes.isOutermost then
    return table
  else
    Traced.emit (.leaving table.scopes.depth table.scopes.size)
    return { table with scopes := table.scopes.pop }

def swapReporter (table : ScopeTable ρ) (reporter : ρ) : ρ × ScopeTable ρ :=
  (table.reporter, { table with reporter })

@[simp] theorem value_insert (table : ScopeTable ρ) (name : Ident) (module : ModuleId) :
    (table.insert name module).value =
      (table.scopes.nextHandle, { table with scopes := table.scopes.insert name module }) := rfl

@[simp] theorem value_push (table : ScopeTable ρ) :
    table.push.value = { table with scopes := table.scopes.push } := rfl

@[simp] theorem value_pop (table : ScopeTable ρ) :
    table.pop.value = { table with scopes := table.scopes.pop } := by
  obtain ⟨⟨arena, current, outer, depth, depth_eq, inserted⟩, reporter⟩ := table
  cases outer <;> rfl

variable [Reporter ρ]

def report (table : ScopeTable ρ) (diagnostic : Diagnostic) : Traced (ScopeTable ρ) := do
  Traced.emit (.reporting diagnostic)
  let reporter ← Reporter.report table.reporter diagnostic
  return { table with reporter }

def reportError (table : ScopeTable ρ) (code : Diagnostic.Code) (message : String) (span : Span) :
    Traced (ScopeTable ρ) :=
  table.report (.plain code message span)

def redeclaration? (scopes : Scopes) (name : Ident) : Option Diagnostic :=
  (scopes.findLocal? name.name).map fun previous => .redeclared name.name name.span previous.span

/-- Declares a name as `insert` does, and reports if the current scope already has it. -/
def declare (table : ScopeTable ρ) (name : Ident) (module : ModuleId) :
    Traced (Handle × ScopeTable ρ) := do
  let table ← match redeclaration? table.scopes name with
    | some diagnostic => table.report diagnostic
    | none => pure table
  table.insert name module

/-- The module a name stands for. Reports if no open scope has the name. -/
def resolve (table : ScopeTable ρ) (name : Ident) :
    Traced (Option ModuleId × ScopeTable ρ) := do
  match table.scopes.lookup? name.name with
  | some entry => return (some entry.module, table)
  | none =>
    let table ← table.report (.undeclared name.name name.span)
    return (none, table)

@[simp] theorem scopes_report (table : ScopeTable ρ) (diagnostic : Diagnostic) :
    (table.report diagnostic).value.scopes = table.scopes := rfl

@[simp] theorem reporter_report (table : ScopeTable ρ) (diagnostic : Diagnostic) :
    (table.report diagnostic).value.reporter =
      (Reporter.report table.reporter diagnostic).value := rfl

@[simp] theorem handle_declare (table : ScopeTable ρ) (name : Ident) (module : ModuleId) :
    (table.declare name module).value.1 = table.scopes.nextHandle := by
  simp only [declare]
  split <;> rfl

@[simp] theorem scopes_declare (table : ScopeTable ρ) (name : Ident) (module : ModuleId) :
    (table.declare name module).value.2.scopes = table.scopes.insert name module := by
  simp only [declare]
  split <;> rfl

@[simp] theorem module_resolve (table : ScopeTable ρ) (name : Ident) :
    (table.resolve name).value.1 = (table.scopes.lookup? name.name).map Entry.module := by
  unfold resolve
  split <;> simp_all

@[simp] theorem scopes_resolve (table : ScopeTable ρ) (name : Ident) :
    (table.resolve name).value.2.scopes = table.scopes := by
  unfold resolve
  split <;> rfl

end ScopeTable

end OberonModules
