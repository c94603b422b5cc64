import OberonModules.ImportAnalysis
import OberonModules.Proofs.Earlier

/-!
# The rules of imports

What an analysis has to report and to resolve, said of lists of declarations alone.
No table and no scope occurs here. A module is judged against the modules declared
before it, in whichever unit, and an import against those before it in its list:

- an import must name an earlier module, and not its own;
- the local names of a list must be distinct, if that is checked;
- no earlier module may have the name of the module, if that is checked.

Of several modules with one name the latest counts, of several imports with one
local name the first.
-/

namespace OberonModules.ImportRules

/-- A module with its id. Ids start again in every unit. -/
abbrev Declared := ModuleId × ModuleDecl

def latest? (earlier : List Declared) (name : String) : Option Declared :=
  earlier.reverse.find? (·.2.name.name = name)

-- ---------------------------------------------------------------------------
-- One import
-- ---------------------------------------------------------------------------

/-- The module that an import stands for. A module never stands for its own import. -/
def target? (earlier : List Declared) (importer : ModuleDecl) (element : Import) :
    Option ModuleId :=
  if element.module.name = importer.name.name then none
  else (latest? earlier element.module.name).map Prod.fst

def targetProblem? (earlier : List Declared) (importer : ModuleDecl) (element : Import) :
    Option Diagnostic :=
  if element.module.name = importer.name.name then
    some (.importsItself importer.name.name element.module.span)
  else if ∃ module ∈ earlier, module.2.name.name = element.module.name then none
  else some (.undeclared element.module.name element.module.span)

/-- The first import before this one in its list that has its local name, where that is
checked. -/
def clash? (checks : Checks) (before : List Import) (element : Import) : Option Import :=
  if checks.duplicateImports then
    before.find? (·.localName.name = element.localName.name)
  else none

def clashProblem? (checks : Checks) (before : List Import) (element : Import) :
    Option Diagnostic :=
  (clash? checks before element).map fun first =>
    .importedTwice element.localName.name element.localName.span first.localName.span

/-- What an import is recorded as. One without a module is not recorded, and neither is one whose
local name clashes. -/
def resolution? (checks : Checks) (earlier : List Declared) (importer : Declared)
    (before : List Import) (element : Import) : Option ResolvedImport :=
  if (clash? checks before element).isSome then none
  else
    (target? earlier importer.2 element).map fun target =>
      ⟨importer.1, element.localName.name, target, element.span⟩

-- ---------------------------------------------------------------------------
-- One module
-- ---------------------------------------------------------------------------

def nameProblem? (checks : Checks) (earlier : List Declared) (declaration : ModuleDecl) :
    Option Diagnostic :=
  if checks.redeclarations then
    (latest? earlier declaration.name.name).map fun previous =>
      .redeclared declaration.name.name declaration.name.span previous.2.name.span
  else none

/-- Everything that is wrong with a module: first the modules it imports, then their local names,
then its own name. -/
def moduleProblems (checks : Checks) (earlier : List Declared) (declaration : ModuleDecl) :
    List Diagnostic :=
  declaration.imports.filterMap (targetProblem? earlier declaration) ++
    (withEarlier [] declaration.imports).filterMap
      (fun (before, element) => clashProblem? checks before element) ++
    (nameProblem? checks earlier declaration).toList

def moduleResolutions (checks : Checks) (earlier : List Declared) (importer : Declared) :
    List ResolvedImport :=
  (withEarlier [] importer.2.imports).filterMap
    fun (before, element) => resolution? checks earlier importer before element

-- ---------------------------------------------------------------------------
-- Modules in a row
-- ---------------------------------------------------------------------------

def declared (units : List CompilationUnit) : List Declared :=
  units.flatMap CompilationUnit.declarations

/-- Everything that is wrong with these modules, each judged against those before it. -/
def problems (checks : Checks) (modules : List Declared) : List Diagnostic :=
  (withEarlier [] modules).flatMap
    fun (earlier, module) => moduleProblems checks earlier module.2

def resolutions (checks : Checks) (modules : List Declared) : List ResolvedImport :=
  (withEarlier [] modules).flatMap
    fun (earlier, module) => moduleResolutions checks earlier module

-- ---------------------------------------------------------------------------
-- Laws
-- ---------------------------------------------------------------------------

variable {checks : Checks} {earlier : List Declared} {name : String} {importer : Declared}
variable {before : List Import} {element first : Import}

theorem clash?_eq_find? (h : checks.duplicateImports = true) :
    clash? checks before element = before.find? (·.localName.name = element.localName.name) :=
  if_pos h

theorem clash?_eq_some_iff :
    clash? checks before element = some first ↔ checks.duplicateImports = true ∧
      before.find? (·.localName.name = element.localName.name) = some first := by
  simp [clash?]

theorem clashProblem?_eq_none_iff :
    clashProblem? checks before element = none ↔ clash? checks before element = none :=
  Option.map_eq_none_iff

theorem resolution?_of_clash (h : clash? checks before element = some first) :
    resolution? checks earlier importer before element = none := by
  rw [resolution?, h]
  rfl

theorem resolution?_of_free (h : clash? checks before element = none) :
    resolution? checks earlier importer before element =
      (target? earlier importer.2 element).map fun target =>
        ⟨importer.1, element.localName.name, target, element.span⟩ := by
  rw [resolution?, h]
  rfl

theorem resolutions_append (checks : Checks) (first second : List Declared) :
    resolutions checks (first ++ second) = resolutions checks first ++
      (withEarlier first second).flatMap
        fun (earlier, module) => moduleResolutions checks earlier module := by
  simp [resolutions, withEarlier_append]

theorem problems_concat (checks : Checks) (modules : List Declared) (module : Declared) :
    problems checks (modules ++ [module]) =
      problems checks modules ++ moduleProblems checks modules module.2 := by
  simp [problems, withEarlier_append]

theorem resolutions_concat (checks : Checks) (modules : List Declared) (module : Declared) :
    resolutions checks (modules ++ [module]) =
      resolutions checks modules ++ moduleResolutions checks modules module := by
  simp [resolutions_append]

theorem declared_concat (units : List CompilationUnit) (unit : CompilationUnit) :
    declared (units ++ [unit]) = declared units ++ unit.declarations := by
  simp [declared]

theorem latest?_append (first second : List Declared) (name : String) :
    latest? (first ++ second) name = (latest? second name).or (latest? first name) := by
  simp [latest?]

theorem latest?_map (change : Declared → Declared)
    (h : ∀ module, (change module).2.name = module.2.name) (earlier : List Declared)
    (name : String) :
    latest? (earlier.map change) name = (latest? earlier name).map change := by
  rw [latest?, ← List.map_reverse, List.find?_map]
  congr 2
  funext module
  simp [h]

theorem latest?_eq_some_iff {found : Declared} :
    latest? earlier name = some found ↔ found.2.name.name = name ∧
      ∃ first rest, earlier = first ++ found :: rest ∧
        ∀ module ∈ rest, module.2.name.name ≠ name := by
  simp only [latest?, List.find?_eq_some_iff_append, decide_eq_true_eq]
  refine and_congr_right fun _ => ?_
  constructor
  · rintro ⟨rest, first, h, hr⟩
    refine ⟨first.reverse, rest.reverse, ?_, ?_⟩
    · simpa using congrArg List.reverse h
    · simpa using hr
  · rintro ⟨first, rest, rfl, hr⟩
    exact ⟨rest.reverse, first.reverse, by simp, by simpa using hr⟩

theorem latest?_eq_none_iff :
    latest? earlier name = none ↔ ∀ module ∈ earlier, module.2.name.name ≠ name := by
  simp [latest?]

theorem isSome_latest?_iff :
    (latest? earlier name).isSome = true ↔ ∃ module ∈ earlier, module.2.name.name = name := by
  simp [latest?]

theorem targetProblem?_eq (earlier : List Declared) (importer : ModuleDecl) (element : Import) :
    targetProblem? earlier importer element =
      if element.module.name = importer.name.name then
        some (.importsItself importer.name.name element.module.span)
      else if (latest? earlier element.module.name).isSome then none
      else some (.undeclared element.module.name element.module.span) := by
  simp only [targetProblem?, isSome_latest?_iff]

end OberonModules.ImportRules
