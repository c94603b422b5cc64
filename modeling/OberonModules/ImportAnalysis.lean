import OberonModules.ScopeTable

/-!
# Import analysis

Goes through the modules of a unit in source order. Every import is resolved
against the modules declared so far; the local names of one import list must be
distinct, and live in a scope of their own; then the module itself is declared in
the outermost scope. Errors are reported on the way and stop nothing.
-/

namespace OberonModules

structure ResolvedImport where
  importer : ModuleId
  localName : String
  target : ModuleId
  span : Span
deriving DecidableEq

/-- Which checks are made. Undeclared modules and self imports are always reported. -/
structure Checks where
  redeclarations : Bool
  duplicateImports : Bool
deriving DecidableEq

def Checks.all : Checks := ⟨true, true⟩

def Checks.permissive : Checks := ⟨false, false⟩

structure ImportAnalysis (ρ : Type) where
  table : ScopeTable ρ
  checks : Checks
  imports : List ResolvedImport

namespace ImportAnalysis

variable {ρ : Type}

def new (reporter : ρ) (checks : Checks) : ImportAnalysis ρ :=
  ⟨.new reporter, checks, []⟩

variable [Reporter ρ]

/-- The module an import of the module `importer` stands for, if it is declared and not the
importer itself. Reports otherwise. -/
def resolveImport (importer : String) (table : ScopeTable ρ) (element : Import) :
    Traced (Option ModuleId × ScopeTable ρ) := do
  if element.module.name = importer then
    let table ← table.report (.importsItself importer element.module.span)
    return (none, table)
  else
    table.resolve element.module

/-- Every import of a list with the module it stands for. All are resolved before any local
name is bound, so a local name never stands in for a module. -/
def resolveImports (importer : String) (table : ScopeTable ρ) :
    List Import → Traced (List (Import × Option ModuleId) × ScopeTable ρ)
  | [] => return ([], table)
  | element :: rest => do
    let (target, table) ← resolveImport importer table element
    let (more, table) ← resolveImports importer table rest
    return ((element, target) :: more, table)

def duplicate? (checks : Checks) (scopes : Scopes) (localName : Ident) : Option Diagnostic :=
  if checks.duplicateImports then
    (scopes.findLocal? localName.name).map fun first =>
      .importedTwice localName.name localName.span first.span
  else
    none

/-- Binds the local name of every import in the current scope, and gives those imports that
have a module. A duplicate is reported and left out. An import without a module still takes
its name, bound to a placeholder that its position in the list chooses. -/
def bindImports (checks : Checks) (importer : ModuleId) (placeholder : Nat → ModuleId)
    (table : ScopeTable ρ) :
    List (Import × Option ModuleId) → Traced (List ResolvedImport × ScopeTable ρ)
  | [] => return ([], table)
  | (element, target) :: rest => do
    let localName := element.localName
    let later := fun position => placeholder (position + 1)
    match duplicate? checks table.scopes localName with
    | some diagnostic =>
      let table ← table.report diagnostic
      bindImports checks importer later table rest
    | none =>
      let (_, table) ← table.insert localName (target.getD (placeholder 0))
      let (more, table) ← bindImports checks importer later table rest
      let resolved := target.map fun module =>
        { importer, localName := localName.name, target := module, span := element.span }
      return (resolved.toList ++ more, table)

def declareModule (checks : Checks) (table : ScopeTable ρ) (id : ModuleId)
    (declaration : ModuleDecl) : Traced (ScopeTable ρ) := do
  let (_, table) ←
    if checks.redeclarations then table.declare declaration.name id
    else table.insert declaration.name id
  return table

/-- Analyzes one module. The scope of its import list is open only while the list is bound. -/
def addModule (placeholder : Nat → ModuleId) (analysis : ImportAnalysis ρ) (id : ModuleId)
    (declaration : ModuleDecl) : Traced (ImportAnalysis ρ) := do
  Traced.emit (.analyzing declaration.name.name)
  let (targets, table) ←
    resolveImports declaration.name.name analysis.table declaration.imports
  let table ← table.push
  let (resolved, table) ← bindImports analysis.checks id placeholder table targets
  let table ← table.pop
  let table ← declareModule analysis.checks table id declaration
  return { analysis with table, imports := analysis.imports ++ resolved }

/-- Analyzes every module of a unit in source order. The placeholders may depend on the
importer. -/
def addUnitUsing (placeholder : ModuleId → Nat → ModuleId) (analysis : ImportAnalysis ρ)
    (unit : CompilationUnit) : Traced (ImportAnalysis ρ) :=
  Traced.fold
    (fun analysis (id, declaration) => addModule (placeholder id) analysis id declaration)
    analysis unit.declarations

/-- Analyzes every module of a unit in source order. The importer is the placeholder for a
module that is missing. -/
def addUnit (analysis : ImportAnalysis ρ) (unit : CompilationUnit) :
    Traced (ImportAnalysis ρ) :=
  addUnitUsing (fun importer _ => importer) analysis unit

end ImportAnalysis

def CompilationUnit.analyze (unit : CompilationUnit) :
    Traced (Except Diagnostics (List ResolvedImport)) := do
  let analysis ← (ImportAnalysis.new Diagnostics.empty .all).addUnit unit
  let found := analysis.table.reporter
  return if found.isEmpty then .ok analysis.imports else .error found

end OberonModules
