import Mathlib.Logic.Relation
import OberonModules.ImportAnalysis.Exercise
import OberonModules.Proofs.Acceptance

/-!
# Imports of a unit make no cycle

Every import that is recorded of one unit leads from a module to an earlier one, under
another name, also where the unit has errors: a name is looked up among the modules
before the importer, whatever the imports of the list have been bound to. So no module
imports itself by way of others, and the exercise of the analysis never fails.
-/

namespace OberonModules.ImportAnalysis

open ImportRules

variable {checks : Checks} {unit : CompilationUnit} {imports : List ResolvedImport}

/-- The importer is a module of the unit, and the target an earlier one of another name. -/
structure LeadsDown (unit : CompilationUnit) (resolved : ResolvedImport) : Prop where
  target_lt : resolved.target.index < resolved.importer.index
  importer_lt : resolved.importer.index < unit.size
  names_ne : ∃ importer target, unit.get? resolved.importer = some importer ∧
    unit.get? resolved.target = some target ∧ target.name.name ≠ importer.name.name

/-- Some record leads from the one module to the other. -/
def Imports (imports : List ResolvedImport) (importer target : ModuleId) : Prop :=
  ∃ resolved ∈ imports, resolved.importer = importer ∧ resolved.target = target

structure Acyclic (unit : CompilationUnit) (imports : List ResolvedImport) : Prop where
  leadsDown : ∀ resolved ∈ imports, LeadsDown unit resolved
  irreflexive : ∀ id, ¬ Relation.TransGen (Imports imports) id id

theorem leadsDown_of_resolution? {earlier : List Declared} {importer : Declared}
    (h : (earlier, importer) ∈ withEarlier [] unit.declarations) {before : List Import}
    {element : Import} {resolved : ResolvedImport}
    (hr : resolution? checks earlier importer before element = some resolved) :
    LeadsDown unit resolved := by
  simp only [resolution?, target?, Option.ite_none_left_eq_some, Option.map_eq_some_iff] at hr
  obtain ⟨-, _, ⟨hself, target, htarget, rfl⟩, rfl⟩ := hr
  obtain ⟨hname, first, rest, rfl, -⟩ := latest?_eq_some_iff.mp htarget
  have himporter := CompilationUnit.get?_of_mem_withEarlier h
  have hmem : target ∈ first ++ target :: rest := by simp
  obtain ⟨hlt, hget⟩ := (CompilationUnit.mem_earlier_iff h).mp hmem
  refine ⟨hlt, CompilationUnit.lt_size_of_get? himporter, importer.2, target.2, himporter, hget, ?_⟩
  rwa [hname]

theorem leadsDown_resolutions :
    ∀ resolved ∈ resolutions checks unit.declarations, LeadsDown unit resolved := by
  intro resolved h
  simp only [resolutions, moduleResolutions, List.mem_flatMap, List.mem_filterMap] at h
  obtain ⟨_, hmodule, _, -, hr⟩ := h
  exact leadsDown_of_resolution? hmodule hr

theorem index_lt_of_transGen (h : ∀ resolved ∈ imports, LeadsDown unit resolved)
    {importer target : ModuleId} (hpath : Relation.TransGen (Imports imports) importer target) :
    target.index < importer.index := by
  induction hpath with
  | single edge =>
    obtain ⟨resolved, hm, rfl, rfl⟩ := edge
    exact (h resolved hm).target_lt
  | tail _ edge ih =>
    obtain ⟨resolved, hm, rfl, rfl⟩ := edge
    exact Nat.lt_trans (h resolved hm).target_lt ih

theorem acyclic_resolutions (checks : Checks) (unit : CompilationUnit) :
    Acyclic unit (resolutions checks unit.declarations) where
  leadsDown := leadsDown_resolutions
  irreflexive id hpath :=
    Nat.lt_irrefl id.index (index_lt_of_transGen leadsDown_resolutions hpath)

theorem Sketch.check_eq_true (sketches : List Sketch) : (check sketches).value = true := by
  rw [check, Traced.value_bind]
  cases ha : (unit sketches).analyze.value with
  | error found => rfl
  | ok imports =>
    obtain ⟨-, rfl⟩ := CompilationUnit.value_analyze_eq_ok_iff.mp ha
    refine List.all_eq_true.mpr fun resolved hm => decide_eq_true ?_
    exact (leadsDown_resolutions resolved hm).target_lt

/-- Whatever is checked and reported, the records of a unit lead to earlier modules only; and the
exercise finds no unit where they do not. -/
theorem acyclic_addUnit {ρ : Type} [Reporter ρ] (reporter : ρ) (checks : Checks)
    (unit : CompilationUnit) (sketches : List Sketch) :
    Acyclic unit ((new reporter checks).addUnit unit).value.imports ∧
      (Sketch.check sketches).value = true := by
  have hf := (follows_new reporter checks).addUnitUsing (fun importer _ => importer) unit
  refine ⟨?_, Sketch.check_eq_true sketches⟩
  rw [addUnit, hf.imports_eq]
  exact acyclic_resolutions checks unit

end OberonModules.ImportAnalysis
