import OberonModules.Proofs.AnalysisTrace

/-!
# Placeholders are never read

An import without a module still takes its local name, bound to a placeholder. Which
module that is makes no difference: while a list is bound, only the names and spans of
its bindings are looked at, and with the end of the list they are gone. Two runs with
other placeholders end in the same state, and tell the same but for the lines that
announce these bindings.
-/

namespace OberonModules.ImportAnalysis

open ImportRules

variable {ρ : Type} [Reporter ρ]

-- ---------------------------------------------------------------------------
-- What is left
-- ---------------------------------------------------------------------------

section
variable {reporter : ρ} {checks : Checks} {modules : List Declared} {analysis : ImportAnalysis ρ}

theorem Follows.value_addUnitUsing (h : Follows reporter checks modules analysis)
    (placeholder other : ModuleId → Nat → ModuleId) (unit : CompilationUnit) :
    (ImportAnalysis.addUnitUsing placeholder analysis unit).value =
      (ImportAnalysis.addUnitUsing other analysis unit).value := by
  simp only [ImportAnalysis.addUnitUsing, Traced.value_fold]
  generalize unit.declarations = more
  induction more generalizing modules analysis with
  | nil => rfl
  | cons module more ih =>
    have hmodule :
        (ImportAnalysis.addModule (placeholder module.1) analysis module.1 module.2).value =
          (ImportAnalysis.addModule (other module.1) analysis module.1 module.2).value := by
      rw [value_addModule _ h.holds, value_addModule _ h.holds]
    rw [List.foldl_cons, List.foldl_cons, ih (h.addModule (placeholder module.1) module), hmodule]

theorem addUnits_eq (analysis : ImportAnalysis ρ) (units : List CompilationUnit) :
    analysis.addUnits units = addUnitsUsing (fun _ importer _ => importer) analysis units := by
  induction units generalizing analysis with
  | nil => rfl
  | cons unit units ih =>
    rw [addUnits, Traced.fold_cons, addUnitsUsing]
    exact congrArg (addUnit analysis unit >>= ·) (funext ih)

theorem Follows.value_addUnitsUsing (h : Follows reporter checks modules analysis)
    (placeholder other : Nat → ModuleId → Nat → ModuleId) (units : List CompilationUnit) :
    (addUnitsUsing placeholder analysis units).value =
      (addUnitsUsing other analysis units).value := by
  induction units generalizing modules analysis placeholder other with
  | nil => rfl
  | cons unit units ih =>
    simp only [addUnitsUsing, Traced.value_bind]
    rw [h.value_addUnitUsing (placeholder 0) (other 0)]
    exact ih (h.addUnitUsing (other 0) unit) _ _

end

-- ---------------------------------------------------------------------------
-- What is logged
-- ---------------------------------------------------------------------------

/-- Of the unit of this number, the import of this module that stands at this position binds its
local name, although it names the module itself or none that is declared before. -/
def BindsPlaceholder (checks : Checks) (units : List CompilationUnit) (number : Nat)
    (importer : Declared) (position : Nat) (element : Import) : Prop :=
  ∃ before unit earlier preceding,
    (before, unit) ∈ withEarlier [] units ∧ before.length = number ∧
    (earlier, importer) ∈ withEarlier (declared before) unit.declarations ∧
    (preceding, element) ∈ withEarlier [] importer.2.imports ∧ preceding.length = position ∧
    clash? checks preceding element = none ∧
    (element.module.name = importer.2.name.name ∨
      ∀ module ∈ earlier, module.2.name.name ≠ element.module.name)

/-- One line with some placeholders, and the line in its place where the importer is the
placeholder. -/
inductive Alike (checks : Checks) (placeholder : Nat → ModuleId → Nat → ModuleId)
    (units : List CompilationUnit) : LogEvent → LogEvent → Prop
  | same (line : LogEvent) : Alike checks placeholder units line line
  | binding {number importer position element}
      (h : BindsPlaceholder checks units number importer position element) :
      Alike checks placeholder units
        (.declared element.localName.name (placeholder number importer.1 position) 2)
        (.declared element.localName.name importer.1 2)

variable {checks : Checks} {placeholder : Nat → ModuleId → Nat → ModuleId}
variable {units before : List CompilationUnit} {unit : CompilationUnit}
variable {earlier : List Declared} {importer : Declared} {preceding : List Import} {element : Import}

theorem Alike.diagnostic?_eq {line other : LogEvent} (h : Alike checks placeholder units line other) :
    line.diagnostic? = other.diagnostic? := by
  cases h with
  | same => rfl
  | binding => rfl

theorem forall₂_alike_refl (lines : List LogEvent) :
    List.Forall₂ (Alike checks placeholder units) lines lines :=
  List.forall₂_same.mpr fun line _ => .same line

/-- A reporter adds the same to lines that are alike. -/
theorem forall₂_remarked {lines others : List LogEvent}
    (h : List.Forall₂ (Alike checks placeholder units) lines others) (reporter : ρ) :
    List.Forall₂ (Alike checks placeholder units) (Reporter.remarked reporter lines)
      (Reporter.remarked reporter others) := by
  induction h generalizing reporter with
  | nil => exact .nil
  | @cons line other lines others hline _ ih =>
    rw [Reporter.remarked, Reporter.remarked, ← hline.diagnostic?_eq]
    cases line.diagnostic? with
    | none => exact .cons hline (ih reporter)
    | some diagnostic => exact List.rel_append (.cons hline (forall₂_alike_refl _)) (ih _)

theorem target?_eq_none_iff {declaration : ModuleDecl} :
    target? earlier declaration element = none ↔ element.module.name = declaration.name.name ∨
      ∀ module ∈ earlier, module.2.name.name ≠ element.module.name := by
  rw [target?, ← latest?_eq_none_iff]
  split <;> simp_all

theorem alike_bindingLine (hu : (before, unit) ∈ withEarlier [] units)
    (hm : (earlier, importer) ∈ withEarlier (declared before) unit.declarations)
    (hi : (preceding, element) ∈ withEarlier [] importer.2.imports) :
    Alike checks placeholder units
      (bindingLine checks earlier importer (placeholder before.length importer.1) preceding element)
      (bindingLine checks earlier importer (fun _ => importer.1) preceding element) := by
  simp only [bindingLine]
  cases hc : clashProblem? checks preceding element with
  | some diagnostic => exact .same _
  | none =>
    cases ht : target? earlier importer.2 element with
    | some target => exact .same _
    | none =>
      exact .binding ⟨before, unit, earlier, preceding, hu, rfl, hm, hi, rfl,
        clashProblem?_eq_none_iff.mp hc, target?_eq_none_iff.mp ht⟩

theorem forall₂_moduleLines (hu : (before, unit) ∈ withEarlier [] units)
    (hm : (earlier, importer) ∈ withEarlier (declared before) unit.declarations) :
    List.Forall₂ (Alike checks placeholder units)
      (moduleLines checks earlier (placeholder before.length importer.1) importer)
      (moduleLines checks earlier (fun _ => importer.1) importer) := by
  have hbindings : List.Forall₂ (Alike checks placeholder units)
      (bindingLines checks earlier importer (placeholder before.length importer.1))
      (bindingLines checks earlier importer (fun _ => importer.1)) := by
    rw [bindingLines, bindingLines, List.forall₂_map_left_iff, List.forall₂_map_right_iff]
    exact List.forall₂_same.mpr fun _ hi => alike_bindingLine hu hm hi
  refine List.rel_append (List.rel_append (List.rel_append ?_ (.cons (.same _) hbindings)) ?_) ?_
  all_goals exact forall₂_alike_refl _

/-- Lines that are alike for every item of a list are alike for the list. -/
theorem forall₂_flatMap_alike {α : Type} {items : List α} {lines others : α → List LogEvent}
    (h : ∀ item ∈ items, List.Forall₂ (Alike checks placeholder units) (lines item) (others item)) :
    List.Forall₂ (Alike checks placeholder units) (items.flatMap lines) (items.flatMap others) := by
  rw [List.flatMap_def, List.flatMap_def]
  apply List.rel_flatten
  rw [List.forall₂_map_left_iff, List.forall₂_map_right_iff]
  exact List.forall₂_same.mpr h

theorem forall₂_unitsLines (checks : Checks) (placeholder : Nat → ModuleId → Nat → ModuleId)
    (units : List CompilationUnit) :
    List.Forall₂ (Alike checks placeholder units) (unitsLines checks placeholder [] units)
      (unitsLines checks (fun _ importer _ => importer) [] units) := by
  refine forall₂_flatMap_alike ?_
  rintro ⟨before, unit⟩ hu
  refine forall₂_flatMap_alike ?_
  rintro ⟨earlier, importer⟩ hm
  exact forall₂_moduleLines hu hm

-- ---------------------------------------------------------------------------
-- Two runs
-- ---------------------------------------------------------------------------

/-- An analysis of units with these placeholders, beside the one where the importer is always the
placeholder. -/
structure NeverRead (reporter : ρ) (checks : Checks)
    (placeholder : Nat → ModuleId → Nat → ModuleId) (units : List CompilationUnit) : Prop where
  reporter_eq : (addUnitsUsing placeholder (new reporter checks) units).value.table.reporter =
    ((new reporter checks).addUnits units).value.table.reporter
  imports_eq : (addUnitsUsing placeholder (new reporter checks) units).value.imports =
    ((new reporter checks).addUnits units).value.imports
  scopes_eq : (addUnitsUsing placeholder (new reporter checks) units).value.table.scopes =
    ((new reporter checks).addUnits units).value.table.scopes
  /-- All that is asked of the table from then on gets the same answers, and logs the same. -/
  respond_eq : ∀ requests,
    (addUnitsUsing placeholder (new reporter checks) units).value.table.respond requests =
      ((new reporter checks).addUnits units).value.table.respond requests
  log_alike : List.Forall₂ (Alike checks placeholder units)
    (addUnitsUsing placeholder (new reporter checks) units).log
    ((new reporter checks).addUnits units).log

/-- Whatever the imports without a module are bound to, one by one, shows in the lines of these
bindings alone. -/
theorem neverRead_placeholder (reporter : ρ) (checks : Checks)
    (placeholder : Nat → ModuleId → Nat → ModuleId) (units : List CompilationUnit) :
    NeverRead reporter checks placeholder units := by
  have hvalue : (addUnitsUsing placeholder (new reporter checks) units).value =
      ((new reporter checks).addUnits units).value := by
    rw [addUnits_eq]
    exact (follows_new reporter checks).value_addUnitsUsing placeholder _ units
  constructor
  case reporter_eq => rw [hvalue]
  case imports_eq => rw [hvalue]
  case scopes_eq => rw [hvalue]
  case respond_eq => intro requests; rw [hvalue]
  case log_alike =>
    rw [addUnits_eq, log_addUnitsUsing, log_addUnitsUsing]
    exact forall₂_remarked (forall₂_unitsLines checks placeholder units) reporter

/-- `M` imports a module that is missing, and has itself for the placeholder or some other module. -/
example :
    let unit := CompilationUnit.ofList [⟨⟨"M", ⟨0, 1⟩⟩, [.plain ⟨"X", ⟨2, 3⟩⟩], ⟨0, 4⟩⟩]
    let lines := fun placeholder : ModuleId => [LogEvent.analyzing "M",
      .reporting (.undeclared "X" ⟨2, 3⟩), .entered 2, .declared "X" placeholder 2, .leaving 2 1,
      .declared "M" ⟨0⟩ 1]
    ((new Diagnostics.empty .all).addUnits [unit]).log = lines ⟨0⟩ ∧
      (addUnitsUsing (fun _ _ _ => ⟨7⟩) (new Diagnostics.empty .all) [unit]).log = lines ⟨7⟩ := by
  decide

end OberonModules.ImportAnalysis
