import OberonModules.Proofs.DeclaredModules

/-!
# Checks that are switched off

A check that is switched off silences its diagnostics, and nothing else is reported
otherwise than before. The check of redeclarations does no more than that. The check
of duplicate imports also decides what is recorded: without it, an import is recorded
even if its local name is taken.

The names that duplicate imports insert raise the insertion count, so the tables of
two runs may differ in serial numbers. Nothing else of them shows.
-/

namespace OberonModules

/-- Whether these checks give diagnostics of a code at all. -/
def Checks.covers (checks : Checks) : Diagnostic.Code → Bool
  | .moduleRedeclared => checks.redeclarations
  | .duplicateImport => checks.duplicateImports
  | .undeclaredModule | .selfImport => true

@[simp] theorem Checks.covers_redeclared (checks : Checks) (name : String) (span previous : Span) :
    checks.covers (Diagnostic.redeclared name span previous).code = checks.redeclarations := rfl

@[simp] theorem Checks.covers_importedTwice (checks : Checks) (name : String) (span first : Span) :
    checks.covers (Diagnostic.importedTwice name span first).code = checks.duplicateImports := rfl

namespace ImportRules

-- ---------------------------------------------------------------------------
-- What is reported
-- ---------------------------------------------------------------------------

theorem filter_targetProblem? (checks : Checks) (earlier : List Declared) (importer : ModuleDecl)
    (element : Import) :
    (targetProblem? earlier importer element).filter (checks.covers ·.code) =
      targetProblem? earlier importer element := by
  unfold targetProblem?
  split
  · rfl
  · split <;> rfl

theorem filter_clashProblem? (checks : Checks) (before : List Import) (element : Import) :
    (clashProblem? .all before element).filter (checks.covers ·.code) =
      clashProblem? checks before element := by
  unfold clashProblem? clash?
  cases before.find? (·.localName.name = element.localName.name) with
  | none => cases hc : checks.duplicateImports <;> rfl
  | some first => cases hc : checks.duplicateImports <;> simp [Checks.all, hc]

theorem filter_nameProblem? (checks : Checks) (earlier : List Declared)
    (declaration : ModuleDecl) :
    (nameProblem? .all earlier declaration).filter (checks.covers ·.code) =
      nameProblem? checks earlier declaration := by
  unfold nameProblem?
  cases latest? earlier declaration.name.name with
  | none => cases hr : checks.redeclarations <;> rfl
  | some previous => cases hr : checks.redeclarations <;> simp [Checks.all, hr]

theorem filter_moduleProblems (checks : Checks) (earlier : List Declared)
    (declaration : ModuleDecl) :
    (moduleProblems .all earlier declaration).filter (checks.covers ·.code) =
      moduleProblems checks earlier declaration := by
  simp only [moduleProblems, List.filter_append, List.filter_filterMap, filter_targetProblem?,
    filter_clashProblem?, ← Option.toList_filter, filter_nameProblem?]

/-- Fewer checks find the same problems, less those of the checks that are not made. -/
theorem filter_problems (checks : Checks) (modules : List Declared) :
    (problems .all modules).filter (checks.covers ·.code) = problems checks modules := by
  simp only [problems, List.filter_flatMap, filter_moduleProblems]

theorem filter_ne_duplicateImport (checks : Checks) (modules : List Declared) :
    (problems checks modules).filter (·.code ≠ .duplicateImport) =
      problems { checks with duplicateImports := false } modules := by
  rw [← filter_problems checks, ← filter_problems { checks with duplicateImports := false },
    List.filter_filter]
  congr 1
  funext diagnostic
  cases diagnostic.code <;> simp [Checks.covers]

-- ---------------------------------------------------------------------------
-- What is recorded
-- ---------------------------------------------------------------------------

/-- An import that leads to a module, as it would be recorded, and whether an earlier import of its
list has the same local name. -/
structure Resolvable where
  record : ResolvedImport
  repeats : Bool

def resolvable? (earlier : List Declared) (importer : Declared) (before : List Import)
    (element : Import) : Option Resolvable :=
  (target? earlier importer.2 element).map fun target =>
    { record := ⟨importer.1, element.localName.name, target, element.span⟩
      repeats := before.any (·.localName.name = element.localName.name) }

/-- Every import of these modules that leads to a module, in order. -/
def resolvables (modules : List Declared) : List Resolvable :=
  (withEarlier [] modules).flatMap fun (earlier, importer) =>
    (withEarlier [] importer.2.imports).filterMap fun (before, element) =>
      resolvable? earlier importer before element

theorem isSome_clash? (checks : Checks) (before : List Import) (element : Import) :
    (clash? checks before element).isSome =
      (checks.duplicateImports &&
        before.any (·.localName.name = element.localName.name)) := by
  unfold clash?
  split <;> simp_all [List.isSome_find?]

theorem resolution?_eq (checks : Checks) (earlier : List Declared) (importer : Declared)
    (before : List Import) (element : Import) :
    resolution? checks earlier importer before element =
      ((resolvable? earlier importer before element).filter
        fun found => !(checks.duplicateImports && found.repeats)).map Resolvable.record := by
  rw [resolution?, isSome_clash?, resolvable?]
  cases target? earlier importer.2 element with
  | none => exact ite_self none
  | some target =>
    simp only [Option.map_some]
    generalize before.any (·.localName.name = element.localName.name) = repeats
    cases checks.duplicateImports <;> cases repeats <;> rfl

/-- All that the check of duplicate imports takes away are the imports that repeat a local name. -/
theorem resolutions_eq (checks : Checks) (modules : List Declared) :
    resolutions checks modules =
      ((resolvables modules).filter fun found =>
        !(checks.duplicateImports && found.repeats)).map Resolvable.record := by
  simp only [resolutions, moduleResolutions, resolvables, List.filter_flatMap, List.map_flatMap,
    List.filter_filterMap, List.map_filterMap, resolution?_eq]

end ImportRules

namespace ImportAnalysis

open ImportRules

variable {ρ : Type} [Reporter ρ]

/-- How an analysis of units with some checks compares to one with all checks. -/
structure OnlySilenced (reporter : ρ) (checks : Checks) (units : List CompilationUnit) : Prop where
  reports_eq : (ofUnits Diagnostics.empty checks units).table.reporter.toList =
    (ofUnits Diagnostics.empty .all units).table.reporter.toList.filter (checks.covers ·.code)
  /-- Whether redeclarations are checked shows in what is reported alone. -/
  redeclarations_only_reported : ∀ redeclarations,
    (ofUnits reporter { checks with redeclarations } units).imports =
        (ofUnits reporter checks units).imports ∧
      (ofUnits reporter { checks with redeclarations } units).table.scopes =
        (ofUnits reporter checks units).table.scopes
  records_all : (ofUnits reporter .all units).imports =
    ((resolvables (declared units)).filter (!·.repeats)).map Resolvable.record
  /-- Unchecked, the imports that repeat a local name are recorded too, each in its place. -/
  records_unchecked : checks.duplicateImports = false →
    (ofUnits reporter checks units).imports =
        (resolvables (declared units)).map Resolvable.record ∧
      (ofUnits reporter .all units).imports.Sublist (ofUnits reporter checks units).imports
  placed_eq : (ofUnits reporter checks units).table.scopes.placed =
    (ofUnits reporter .all units).table.scopes.placed

/-- Whatever the units are, checks that are switched off change no more than what they are for. -/
theorem onlySilenced_ofUnits (reporter : ρ) (checks : Checks) (units : List CompilationUnit) :
    OnlySilenced reporter checks units := by
  have hfollows := fun checks => follows_ofUnits reporter checks units
  have hall : (ofUnits reporter .all units).imports =
      ((resolvables (declared units)).filter (!·.repeats)).map Resolvable.record :=
    (hfollows .all).imports_eq.trans (resolutions_eq .all (declared units))
  constructor
  case reports_eq =>
    have hreports : ∀ checks, (ofUnits Diagnostics.empty checks units).table.reporter.toList =
        problems checks (declared units) :=
      fun checks => (follows_ofUnits Diagnostics.empty checks units).toList_reporter
    rw [hreports, hreports, filter_problems]
  case redeclarations_only_reported =>
    intro redeclarations
    have hscopes : ∀ checks, (ofUnits reporter checks units).table.scopes =
        (declared units).foldl (scopesWith checks) .empty :=
      fun checks => (follows_new reporter checks).scopes_addUnits units
    -- Which imports are recorded and which names are inserted depends on the other check alone.
    refine ⟨(hfollows _).imports_eq.trans ?_, (hscopes _).trans ?_⟩
    · exact (hfollows checks).imports_eq.symm
    · exact (hscopes checks).symm
  case records_all => exact hall
  case records_unchecked =>
    intro hc
    have hunchecked : (ofUnits reporter checks units).imports =
        (resolvables (declared units)).map Resolvable.record := by
      rw [(hfollows checks).imports_eq, resolutions_eq]
      simp [hc]
    refine ⟨hunchecked, ?_⟩
    rw [hunchecked, hall]
    exact List.filter_sublist.map Resolvable.record
  case placed_eq => rw [(hfollows checks).holds.placed_eq, (hfollows .all).holds.placed_eq]

end ImportAnalysis

end OberonModules
