import OberonModules.Proofs.SwitchedOff

/-!
# Aliases

An alias, and the span of an import as a whole, say nothing about which module is
meant. Units that differ in nothing else lead to the same modules: what is reported
is the same but for duplicate imports, the same modules are declared, and while
duplicate imports are not checked, the same modules are recorded as imported by the
same ones.
-/

namespace OberonModules

-- ---------------------------------------------------------------------------
-- Units without aliases
-- ---------------------------------------------------------------------------

def Import.withoutAlias (element : Import) : Import :=
  .plain element.module

/-- Nothing but the alias and the span of the whole import is lost. -/
theorem Import.withoutAlias_eq_iff {a b : Import} :
    a.withoutAlias = b.withoutAlias ↔ a.module = b.module := by
  constructor
  · intro h
    have hm := congrArg Import.module h
    exact hm
  · intro h
    exact congrArg Import.plain h

def ModuleDecl.withoutAliases (declaration : ModuleDecl) : ModuleDecl :=
  { declaration with imports := declaration.imports.map Import.withoutAlias }

def CompilationUnit.withoutAliases (unit : CompilationUnit) : CompilationUnit :=
  ⟨unit.modules.map ModuleDecl.withoutAliases⟩

namespace ImportRules

def Declared.withoutAliases (module : Declared) : Declared :=
  (module.1, module.2.withoutAliases)

theorem declarations_withoutAliases (unit : CompilationUnit) :
    unit.withoutAliases.declarations = unit.declarations.map Declared.withoutAliases := by
  apply List.ext_getElem?
  intro index
  cases hd : unit.modules[index]? with
  | none => simp [CompilationUnit.declarations, CompilationUnit.withoutAliases, hd]
  | some declaration =>
    simp [CompilationUnit.declarations, CompilationUnit.withoutAliases, Declared.withoutAliases, hd]

theorem declared_withoutAliases (units : List CompilationUnit) :
    declared (units.map CompilationUnit.withoutAliases) =
      (declared units).map Declared.withoutAliases := by
  simp only [declared, List.flatMap_map, List.map_flatMap, declarations_withoutAliases]

-- ---------------------------------------------------------------------------
-- The rules without aliases
-- ---------------------------------------------------------------------------

variable {checks : Checks}

theorem latest?_withoutAliases (earlier : List Declared) (name : String) :
    latest? (earlier.map Declared.withoutAliases) name =
      (latest? earlier name).map Declared.withoutAliases :=
  latest?_map Declared.withoutAliases (fun _ => rfl) earlier name

theorem target?_withoutAliases (earlier : List Declared) (importer : ModuleDecl)
    (element : Import) :
    target? (earlier.map Declared.withoutAliases) importer.withoutAliases element.withoutAlias =
      target? earlier importer element := by
  simp only [target?, latest?_withoutAliases, Option.map_map]
  rfl

theorem targetProblem?_withoutAliases (earlier : List Declared) (importer : ModuleDecl)
    (element : Import) :
    targetProblem? (earlier.map Declared.withoutAliases) importer.withoutAliases
        element.withoutAlias =
      targetProblem? earlier importer element := by
  simp only [targetProblem?_eq, latest?_withoutAliases, Option.isSome_map]
  rfl

theorem nameProblem?_withoutAliases (checks : Checks) (earlier : List Declared)
    (declaration : ModuleDecl) :
    nameProblem? checks (earlier.map Declared.withoutAliases) declaration.withoutAliases =
      nameProblem? checks earlier declaration := by
  simp only [nameProblem?, latest?_withoutAliases, Option.map_map]
  rfl

theorem clash?_unchecked (h : checks.duplicateImports = false) (before : List Import)
    (element : Import) : clash? checks before element = none := by
  simp [clash?, h]

theorem moduleProblems_unchecked (h : checks.duplicateImports = false) (earlier : List Declared)
    (declaration : ModuleDecl) :
    moduleProblems checks earlier declaration =
      declaration.imports.filterMap (targetProblem? earlier declaration) ++
        (nameProblem? checks earlier declaration).toList := by
  simp [moduleProblems, clashProblem?, clash?_unchecked h]

theorem moduleProblems_withoutAliases (h : checks.duplicateImports = false)
    (earlier : List Declared) (declaration : ModuleDecl) :
    moduleProblems checks (earlier.map Declared.withoutAliases) declaration.withoutAliases =
      moduleProblems checks earlier declaration := by
  have htargets : declaration.withoutAliases.imports.filterMap
      (targetProblem? (earlier.map Declared.withoutAliases) declaration.withoutAliases) =
        declaration.imports.filterMap (targetProblem? earlier declaration) := by
    rw [ModuleDecl.withoutAliases, List.filterMap_map]
    exact congrArg (declaration.imports.filterMap ·)
      (funext (targetProblem?_withoutAliases earlier declaration))
  rw [moduleProblems_unchecked h, moduleProblems_unchecked h, htargets,
    nameProblem?_withoutAliases]

theorem problems_withoutAliases (h : checks.duplicateImports = false) (modules : List Declared) :
    problems checks (modules.map Declared.withoutAliases) = problems checks modules := by
  rw [problems, flatMap_withEarlier_map]
  simp only [Declared.withoutAliases, moduleProblems_withoutAliases h, problems]

-- ---------------------------------------------------------------------------
-- Who imports whom
-- ---------------------------------------------------------------------------

/-- Importer and imported module. -/
def link (resolved : ResolvedImport) : ModuleId × ModuleId :=
  (resolved.importer, resolved.target)

theorem link_moduleResolutions (h : checks.duplicateImports = false) (earlier : List Declared)
    (importer : Declared) :
    (moduleResolutions checks earlier importer).map link =
      importer.2.imports.filterMap fun element =>
        (target? earlier importer.2 element).map fun target => (importer.1, target) := by
  have hlink : ∀ pair : List Import × Import,
      (resolution? checks earlier importer pair.1 pair.2).map link =
        (target? earlier importer.2 pair.2).map fun target => (importer.1, target) := by
    intro pair
    rw [resolution?_of_free (clash?_unchecked h pair.1 pair.2), Option.map_map]
    rfl
  simp only [moduleResolutions, List.map_filterMap, hlink]
  conv_rhs => rw [← map_snd_withEarlier [] importer.2.imports, List.filterMap_map]
  rfl

theorem links_withoutAliases (h : checks.duplicateImports = false) (modules : List Declared) :
    (resolutions checks (modules.map Declared.withoutAliases)).map link =
      (resolutions checks modules).map link := by
  simp only [resolutions, List.map_flatMap, link_moduleResolutions h, flatMap_withEarlier_map]
  congr 1
  funext pair
  rw [Declared.withoutAliases, ModuleDecl.withoutAliases, List.filterMap_map]
  congr 1
  funext element
  rw [Function.comp_apply, ← target?_withoutAliases pair.1 pair.2.2 element]
  rfl

-- The declarations themselves have no alias to lose.
theorem binding_withoutAliases (modules : List Declared) :
    (modules.map Declared.withoutAliases).map Declared.binding =
      modules.map Declared.binding := by
  rw [List.map_map]
  rfl

end ImportRules

namespace ImportAnalysis

open ImportRules

variable {ρ : Type} [Reporter ρ] {units others : List CompilationUnit}

-- Each of these can be read off the modules without their aliases.

theorem reports_ofUnits (checks : Checks) (units : List CompilationUnit) :
    (ofUnits Diagnostics.empty checks units).table.reporter.toList.filter
        (·.code ≠ .duplicateImport) =
      problems { checks with duplicateImports := false }
        ((declared units).map Declared.withoutAliases) := by
  rw [(follows_ofUnits _ checks units).toList_reporter, filter_ne_duplicateImport,
    problems_withoutAliases rfl]

theorem placed_ofUnits (reporter : ρ) (checks : Checks) (units : List CompilationUnit) :
    (ofUnits reporter checks units).table.scopes.placed =
      (((declared units).map Declared.withoutAliases).map Declared.binding).zipIdx.reverse := by
  rw [(follows_ofUnits reporter checks units).holds.placed_eq, binding_withoutAliases]

theorem links_ofUnits (reporter : ρ) {checks : Checks} (hc : checks.duplicateImports = false)
    (units : List CompilationUnit) :
    (ofUnits reporter checks units).imports.map link =
      (resolutions checks ((declared units).map Declared.withoutAliases)).map link := by
  rw [(follows_ofUnits reporter checks units).imports_eq, links_withoutAliases hc]

/-- The same is reported of both but for duplicate imports, both declare the same modules in the
same slots, and, while duplicate imports are not checked, the same modules are recorded as imported
by the same ones. -/
structure SameModules (reporter : ρ) (checks : Checks) (units others : List CompilationUnit) :
    Prop where
  reports_eq :
    (ofUnits Diagnostics.empty checks units).table.reporter.toList.filter
        (·.code ≠ .duplicateImport) =
      (ofUnits Diagnostics.empty checks others).table.reporter.toList.filter
        (·.code ≠ .duplicateImport)
  placed_eq : (ofUnits reporter checks units).table.scopes.placed =
    (ofUnits reporter checks others).table.scopes.placed
  links_eq : checks.duplicateImports = false →
    (ofUnits reporter checks units).imports.map link =
      (ofUnits reporter checks others).imports.map link

/-- Aliases do not matter for which modules there are and which of them an import means. -/
theorem sameModules_of_withoutAliases (reporter : ρ) (checks : Checks)
    (h : units.map CompilationUnit.withoutAliases = others.map CompilationUnit.withoutAliases) :
    SameModules reporter checks units others := by
  have hdeclared : (declared units).map Declared.withoutAliases =
      (declared others).map Declared.withoutAliases := by
    rw [← declared_withoutAliases, h, declared_withoutAliases]
  constructor
  case reports_eq => simp only [reports_ofUnits, hdeclared]
  case placed_eq => simp only [placed_ofUnits, hdeclared]
  case links_eq =>
    intro hc
    simp only [links_ofUnits reporter hc, hdeclared]

/-- `Out`, and after it `Main` with these imports. -/
def outMain (imports : List Import) : CompilationUnit :=
  .ofList [⟨⟨"Out", ⟨7, 10⟩⟩, [], ⟨0, 20⟩⟩, ⟨⟨"Main", ⟨28, 32⟩⟩, imports, ⟨21, 70⟩⟩]

/-- `In := Out` and `Out := In` trade the names; `In` is no module all the same. -/
def traded : List Import :=
  [.aliased ⟨"In", ⟨41, 43⟩⟩ ⟨"Out", ⟨47, 50⟩⟩, .aliased ⟨"Out", ⟨52, 55⟩⟩ ⟨"In", ⟨59, 61⟩⟩]

/-- Here the alias is taken twice. -/
def clashing : List Import :=
  [.plain ⟨"Out", ⟨47, 50⟩⟩, .aliased ⟨"Out", ⟨52, 55⟩⟩ ⟨"In", ⟨59, 61⟩⟩]

theorem sameModules_traded_clashing :
    [outMain traded].map CompilationUnit.withoutAliases =
        [outMain clashing].map CompilationUnit.withoutAliases ∧
      SameModules Diagnostics.empty .permissive [outMain traded] [outMain clashing] :=
  have h : [outMain traded].map CompilationUnit.withoutAliases =
      [outMain clashing].map CompilationUnit.withoutAliases := by
    simp [outMain, traded, clashing, CompilationUnit.ofList, CompilationUnit.withoutAliases,
      ModuleDecl.withoutAliases, Import.withoutAlias_eq_iff, Import.plain, Import.aliased]
  ⟨h, sameModules_of_withoutAliases Diagnostics.empty .permissive h⟩

end ImportAnalysis

end OberonModules
