import OberonModules.Proofs.AnalysisSteps

/-!
# Analyses of units

An analysis that is given unit after unit. At every moment its scopes hold the
modules analyzed so far, and what its reporter has received and what it has recorded
is what the rules of imports say of these modules in a row. Where one unit ends and
the next begins makes no difference to that.
-/

namespace OberonModules.ImportAnalysis

open ImportRules

variable {ρ : Type} [Reporter ρ]

def addUnits (analysis : ImportAnalysis ρ) (units : List CompilationUnit) :
    Traced (ImportAnalysis ρ) :=
  Traced.fold addUnit analysis units

theorem value_addUnits (analysis : ImportAnalysis ρ) (units : List CompilationUnit) :
    (analysis.addUnits units).value =
      (declared units).foldl
        (fun analysis module => (addModule (fun _ => module.1) analysis module.1 module.2).value)
        analysis := by
  simp only [addUnits, addUnit, addUnitUsing, Traced.value_fold, declared, List.foldl_flatMap]

/-- A fresh analysis after these units. -/
def ofUnits (reporter : ρ) (checks : Checks) (units : List CompilationUnit) : ImportAnalysis ρ :=
  ((new reporter checks).addUnits units).value

/-- The analysis began with this reporter and these checks, and these are its modules so far. -/
structure Follows (reporter : ρ) (checks : Checks) (modules : List Declared)
    (analysis : ImportAnalysis ρ) : Prop where
  holds : analysis.table.scopes.Holds modules
  checks_eq : analysis.checks = checks
  reporter_eq : analysis.table.reporter = Reporter.receive reporter (problems checks modules)
  imports_eq : analysis.imports = resolutions checks modules

variable {reporter : ρ} {checks : Checks} {modules : List Declared} {analysis : ImportAnalysis ρ}

theorem follows_new (reporter : ρ) (checks : Checks) :
    Follows reporter checks [] (new reporter checks) :=
  ⟨Scopes.holds_empty, rfl, rfl, rfl⟩

theorem Follows.addModule (h : Follows reporter checks modules analysis)
    (placeholder : Nat → ModuleId) (module : Declared) :
    Follows reporter checks (modules ++ [module])
      (addModule placeholder analysis module.1 module.2).value := by
  rw [value_addModule placeholder h.holds module]
  constructor
  · exact (h.holds.skip _).insert module
  · exact h.checks_eq
  · rw [problems_concat, h.checks_eq, ScopeTable.reporter_receive, h.reporter_eq]
    exact (List.foldl_append ..).symm
  · rw [resolutions_concat, h.checks_eq, h.imports_eq]

theorem Follows.addUnitUsing (h : Follows reporter checks modules analysis)
    (placeholder : ModuleId → Nat → ModuleId) (unit : CompilationUnit) :
    Follows reporter checks (modules ++ unit.declarations)
      (addUnitUsing placeholder analysis unit).value := by
  rw [ImportAnalysis.addUnitUsing, Traced.value_fold]
  generalize unit.declarations = more
  induction more generalizing modules analysis with
  | nil => rwa [List.append_nil]
  | cons module more ih =>
    have hm := ih (h.addModule (placeholder module.1) module)
    rwa [List.append_assoc] at hm

theorem Follows.addUnits (h : Follows reporter checks modules analysis)
    (units : List CompilationUnit) :
    Follows reporter checks (modules ++ declared units) (analysis.addUnits units).value := by
  rw [ImportAnalysis.addUnits, Traced.value_fold]
  induction units generalizing modules analysis with
  | nil => rwa [declared, List.flatMap_nil, List.append_nil]
  | cons unit units ih =>
    have hu := ih (h.addUnitUsing (fun importer _ => importer) unit)
    rwa [List.append_assoc] at hu

theorem follows_addUnits (reporter : ρ) (checks : Checks) (units : List CompilationUnit) :
    Follows reporter checks (declared units) ((new reporter checks).addUnits units).value :=
  (follows_new reporter checks).addUnits units

theorem follows_ofUnits (reporter : ρ) (checks : Checks) (units : List CompilationUnit) :
    Follows reporter checks (declared units) (ofUnits reporter checks units) :=
  follows_addUnits reporter checks units

theorem reporter_ofUnits (reporter : ρ) (checks : Checks) (units : List CompilationUnit) :
    (ofUnits reporter checks units).table.reporter =
      Reporter.receive reporter (problems checks (declared units)) :=
  (follows_ofUnits reporter checks units).reporter_eq

theorem imports_ofUnits (reporter : ρ) (checks : Checks) (units : List CompilationUnit) :
    (ofUnits reporter checks units).imports = resolutions checks (declared units) :=
  (follows_ofUnits reporter checks units).imports_eq

theorem Follows.toList_reporter {analysis : ImportAnalysis Diagnostics}
    (h : Follows Diagnostics.empty checks modules analysis) :
    analysis.table.reporter.toList = problems checks modules := by
  rw [h.reporter_eq, Diagnostics.toList_receive, Diagnostics.toList_empty, List.nil_append]

/-- The scopes after one more module. Its imports leave no more behind than that some local names
have been inserted. -/
def scopesWith (checks : Checks) (scopes : Scopes) (module : Declared) : Scopes :=
  (scopes.skip (kept checks [] module.2.imports).length).insert module.2.name module.1

theorem Follows.scopes_addModule (h : Follows reporter checks modules analysis)
    (placeholder : Nat → ModuleId) (module : Declared) :
    (ImportAnalysis.addModule placeholder analysis module.1 module.2).value.table.scopes =
      scopesWith checks analysis.table.scopes module := by
  rw [value_addModule placeholder h.holds module, h.checks_eq]
  rfl

theorem Follows.scopes_addUnits (h : Follows reporter checks modules analysis)
    (units : List CompilationUnit) :
    (analysis.addUnits units).value.table.scopes =
      (declared units).foldl (scopesWith checks) analysis.table.scopes := by
  rw [value_addUnits]
  generalize declared units = more
  induction more generalizing modules analysis with
  | nil => rfl
  | cons module more ih =>
    rw [List.foldl_cons, List.foldl_cons, ih (h.addModule _ module), h.scopes_addModule]

theorem scopes_ofUnits (reporter : ρ) (checks : Checks) (units : List CompilationUnit) :
    (ofUnits reporter checks units).table.scopes =
      (declared units).foldl (scopesWith checks) .empty :=
  (follows_new reporter checks).scopes_addUnits units

/-- What is collected from units is exactly what the rules find in their modules, in order. -/
theorem toList_reporter_addUnits (checks : Checks) (units : List CompilationUnit) :
    ((new Diagnostics.empty checks).addUnits units).value.table.reporter.toList =
      problems checks (declared units) := by
  rw [(follows_addUnits Diagnostics.empty checks units).reporter_eq,
    Diagnostics.toList_receive, Diagnostics.toList_empty, List.nil_append]

/-- What is recorded of units is exactly what the rules resolve in their modules, in order. -/
theorem imports_addUnits (reporter : ρ) (checks : Checks) (units : List CompilationUnit) :
    ((new reporter checks).addUnits units).value.imports = resolutions checks (declared units) :=
  (follows_addUnits reporter checks units).imports_eq

end OberonModules.ImportAnalysis
