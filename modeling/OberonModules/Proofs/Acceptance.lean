import OberonModules.Proofs.AnalysisRun

/-!
# Accepted units

A unit is accepted if and only if it is well formed, a condition on its declarations
alone: the names of its modules are distinct, every import names a module before the
importer, and the local names of each import list are distinct. That no module imports
itself need not be said: its name would be that of an earlier module.

An accepted unit has every import recorded, and each leads to the one module with the
imported name.
-/

namespace OberonModules

open ImportRules

-- ---------------------------------------------------------------------------
-- Declarations with those before them
-- ---------------------------------------------------------------------------

namespace CompilationUnit

theorem getElem?_declarations (unit : CompilationUnit) (index : Nat) :
    unit.declarations[index]? =
      (unit.get? ⟨index⟩).map fun declaration => (⟨index⟩, declaration) := by
  simp [declarations, get?, List.getElem?_mapIdx]

theorem mem_take_declarations_iff {unit : CompilationUnit} {count : Nat} {module : Declared} :
    module ∈ unit.declarations.take count ↔
      module.1.index < count ∧ unit.get? module.1 = some module.2 := by
  simp only [List.mem_iff_getElem?, List.getElem?_take, getElem?_declarations]
  constructor
  · rintro ⟨index, h⟩
    simp only [Option.ite_none_right_eq_some, Option.map_eq_some_iff] at h
    obtain ⟨hlt, declaration, hg, rfl⟩ := h
    exact ⟨hlt, hg⟩
  · rintro ⟨hlt, hg⟩
    refine ⟨module.1.index, ?_⟩
    simp [hlt, hg]

/-- What stands before a module in its unit are the modules with smaller ids. -/
theorem earlier_eq_take {unit : CompilationUnit} {earlier : List Declared} {module : Declared}
    (h : (earlier, module) ∈ withEarlier [] unit.declarations) :
    earlier = unit.declarations.take module.1.index := by
  obtain ⟨_, rest, hd, rfl⟩ := mem_withEarlier_iff.mp h
  have hg := unit.getElem?_declarations earlier.length
  rw [hd, List.getElem?_append_right (Nat.le_refl _), Nat.sub_self, List.getElem?_cons_zero,
    eq_comm, Option.map_eq_some_iff] at hg
  obtain ⟨_, _, rfl⟩ := hg
  rw [hd]
  exact List.take_left.symm

theorem mem_earlier_iff {unit : CompilationUnit} {earlier : List Declared} {module other : Declared}
    (h : (earlier, module) ∈ withEarlier [] unit.declarations) :
    other ∈ earlier ↔ other.1 < module.1 ∧ unit.get? other.1 = some other.2 := by
  rw [earlier_eq_take h]
  exact mem_take_declarations_iff

theorem get?_of_mem_withEarlier {unit : CompilationUnit} {earlier : List Declared}
    {module : Declared} (h : (earlier, module) ∈ withEarlier [] unit.declarations) :
    unit.get? module.1 = some module.2 :=
  mem_declarations_iff.mp (mem_of_mem_withEarlier h)

theorem exists_earlier {unit : CompilationUnit} {id : ModuleId} {declaration : ModuleDecl}
    (h : unit.get? id = some declaration) :
    ∃ earlier, (earlier, (id, declaration)) ∈ withEarlier [] unit.declarations := by
  rw [← mem_declarations_iff, ← map_snd_withEarlier [] unit.declarations] at h
  obtain ⟨⟨earlier, _⟩, hm, rfl⟩ := List.mem_map.mp h
  exact ⟨earlier, hm⟩

-- ---------------------------------------------------------------------------
-- Well-formed units
-- ---------------------------------------------------------------------------

/-- No name stands twice where it must not, and every import names an earlier module. -/
structure WellFormed (unit : CompilationUnit) : Prop where
  names_nodup : (unit.modules.toList.map (·.name.name)).Nodup
  imports_earlier : ∀ id declaration, unit.get? id = some declaration →
    ∀ element ∈ declaration.imports, ∃ earlier target, earlier < id ∧
      unit.get? earlier = some target ∧ target.name.name = element.module.name
  localNames_nodup : ∀ id declaration, unit.get? id = some declaration →
    (declaration.imports.map (·.localName.name)).Nodup

theorem names_eq_declarations (unit : CompilationUnit) :
    unit.modules.toList.map (·.name.name) = unit.declarations.map (·.2.name.name) := by
  apply List.ext_getElem?
  intro index
  simp [getElem?_declarations, get?, Function.comp_def]

theorem names_nodup_iff {unit : CompilationUnit} :
    (unit.modules.toList.map (·.name.name)).Nodup ↔
      ∀ pair ∈ withEarlier [] unit.declarations, ∀ other ∈ pair.1,
        other.2.name.name ≠ pair.2.2.name.name := by
  rw [names_eq_declarations, List.Nodup, List.pairwise_map, pairwise_iff_withEarlier]

/-- In a well-formed unit a name belongs to one module. -/
theorem WellFormed.id_unique {unit : CompilationUnit} (h : unit.WellFormed) {a b : ModuleId}
    {first second : ModuleDecl} (ha : unit.get? a = some first) (hb : unit.get? b = some second)
    (hn : first.name.name = second.name.name) : a = b := by
  have hga : (unit.modules.toList.map (·.name.name))[a.index]? = some first.name.name := by
    simpa using ⟨first, ha, rfl⟩
  have hgb : (unit.modules.toList.map (·.name.name))[b.index]? = some second.name.name := by
    simpa using ⟨second, hb, rfl⟩
  have hlt := (List.getElem?_eq_some_iff.mp hga).choose
  have hi := (List.getElem?_inj hlt h.names_nodup).mp
    (hga.trans ((congrArg some hn).trans hgb.symm))
  cases a
  cases b
  cases hi
  rfl

-- ---------------------------------------------------------------------------
-- No problems
-- ---------------------------------------------------------------------------

theorem targetProblem?_eq_none_iff {earlier : List Declared} {importer : ModuleDecl}
    {element : Import} :
    targetProblem? earlier importer element = none ↔
      element.module.name ≠ importer.name.name ∧
        ∃ module ∈ earlier, module.2.name.name = element.module.name := by
  unfold targetProblem?
  split
  · rename_i hs
    simp only [reduceCtorEq, false_iff]
    exact fun h => h.1 hs
  · rename_i hs
    split
    · rename_i hf
      simp only [true_iff]
      exact ⟨hs, hf⟩
    · rename_i hf
      simp only [reduceCtorEq, false_iff]
      exact fun h => hf h.2

theorem clashProblems_eq_nil_iff {elements : List Import} :
    (withEarlier [] elements).filterMap
        (fun (before, element) => clashProblem? .all before element) = [] ↔
      (elements.map (·.localName.name)).Nodup := by
  rw [List.Nodup, List.pairwise_map, pairwise_iff_withEarlier, List.filterMap_eq_nil_iff]
  simp [clashProblem?_eq_none_iff, clash?, Checks.all]

theorem nameProblem?_eq_none_iff {earlier : List Declared} {declaration : ModuleDecl} :
    nameProblem? .all earlier declaration = none ↔
      ∀ other ∈ earlier, other.2.name.name ≠ declaration.name.name := by
  rw [← latest?_eq_none_iff]
  simp [nameProblem?, Checks.all]

theorem moduleProblems_eq_nil_iff {earlier : List Declared} {declaration : ModuleDecl} :
    moduleProblems .all earlier declaration = [] ↔
      (∀ element ∈ declaration.imports, element.module.name ≠ declaration.name.name ∧
        ∃ module ∈ earlier, module.2.name.name = element.module.name) ∧
      (declaration.imports.map (·.localName.name)).Nodup ∧
      ∀ other ∈ earlier, other.2.name.name ≠ declaration.name.name := by
  rw [moduleProblems, List.append_eq_nil_iff, List.append_eq_nil_iff, clashProblems_eq_nil_iff,
    Option.toList_eq_nil_iff, nameProblem?_eq_none_iff, List.filterMap_eq_nil_iff, and_assoc]
  simp only [targetProblem?_eq_none_iff]

theorem problems_eq_nil_iff {unit : CompilationUnit} :
    problems .all unit.declarations = [] ↔ unit.WellFormed := by
  simp only [problems, List.flatMap_eq_nil_iff, moduleProblems_eq_nil_iff]
  constructor
  · intro h
    refine ⟨names_nodup_iff.mpr fun pair hm => (h pair hm).2.2, ?_, ?_⟩
    · intro id declaration hg element he
      obtain ⟨earlier, hm⟩ := exists_earlier hg
      obtain ⟨-, target, ht, hn⟩ := (h _ hm).1 element he
      obtain ⟨hlt, hg⟩ := (mem_earlier_iff hm).mp ht
      exact ⟨target.1, target.2, hlt, hg, hn⟩
    · intro id declaration hg
      obtain ⟨earlier, hm⟩ := exists_earlier hg
      exact (h _ hm).2.1
  · rintro h ⟨earlier, module⟩ hm
    have hg := get?_of_mem_withEarlier hm
    have hfresh := names_nodup_iff.mp h.names_nodup _ hm
    refine ⟨?_, h.localNames_nodup _ _ hg, hfresh⟩
    intro element he
    obtain ⟨id, target, hlt, ht, hn⟩ := h.imports_earlier _ _ hg element he
    have hmem : (id, target) ∈ earlier := (mem_earlier_iff hm).mpr ⟨hlt, ht⟩
    refine ⟨?_, (id, target), hmem, hn⟩
    -- An import of the module's own name would find that name on an earlier module.
    intro hself
    exact hfresh _ hmem (hn.trans hself)

-- ---------------------------------------------------------------------------
-- Records
-- ---------------------------------------------------------------------------

/-- Every import of a unit with the id of its importer, in source order. -/
def sources (unit : CompilationUnit) : List (ModuleId × Import) :=
  unit.declarations.flatMap fun module => module.2.imports.map fun element => (module.1, element)

/-- The import is recorded as it stands, and leads to the one module that has the imported
name. -/
structure Records (unit : CompilationUnit) (source : ModuleId × Import)
    (resolved : ResolvedImport) : Prop where
  importer_eq : resolved.importer = source.1
  localName_eq : resolved.localName = source.2.localName.name
  span_eq : resolved.span = source.2.span
  target_iff : ∀ id, id = resolved.target ↔
    ∃ declaration, unit.get? id = some declaration ∧ declaration.name.name = source.2.module.name

theorem WellFormed.records {unit : CompilationUnit} (h : unit.WellFormed)
    {earlier : List Declared} {module : Declared}
    (hm : (earlier, module) ∈ withEarlier [] unit.declarations) {before : List Import}
    {element : Import} (he : (before, element) ∈ withEarlier [] module.2.imports) :
    ∃ resolved, resolution? .all earlier module before element = some resolved ∧
      Records unit (module.1, element) resolved := by
  have hg := get?_of_mem_withEarlier hm
  have helement : element ∈ module.2.imports := mem_of_mem_withEarlier he
  have hnone := problems_eq_nil_iff.mpr h
  simp only [problems, List.flatMap_eq_nil_iff, moduleProblems_eq_nil_iff] at hnone
  obtain ⟨hself, other, hother, hname⟩ := (hnone _ hm).1 element helement
  have hclash : clash? .all before element = none := by
    have hc := List.filterMap_eq_nil_iff.mp
      (clashProblems_eq_nil_iff.mpr (h.localNames_nodup _ _ hg)) _ he
    exact clashProblem?_eq_none_iff.mp hc
  obtain ⟨target, htarget⟩ : ∃ target, latest? earlier element.module.name = some target := by
    refine Option.ne_none_iff_exists'.mp fun hl => ?_
    exact latest?_eq_none_iff.mp hl other hother hname
  have hlatest := (mem_earlier_iff hm).mp (List.mem_reverse.mp (List.mem_of_find?_eq_some htarget))
  have hfound : target.2.name.name = element.module.name := by
    simpa using List.find?_some htarget
  refine ⟨⟨module.1, element.localName.name, target.1, element.span⟩, ?_, rfl, rfl, rfl, ?_⟩
  · rw [resolution?_of_free hclash, target?, if_neg hself, htarget]
    rfl
  · intro id
    constructor
    · rintro rfl
      exact ⟨target.2, hlatest.2, hfound⟩
    · rintro ⟨declaration, hd, hn⟩
      exact h.id_unique hd hlatest.2 (hn.trans hfound.symm)

theorem WellFormed.forall₂_records {unit : CompilationUnit} (h : unit.WellFormed) :
    List.Forall₂ (Records unit) unit.sources (resolutions .all unit.declarations) := by
  apply forall₂_flatMap_withEarlier
  intro _ hm
  apply forall₂_filterMap_withEarlier
  intro _ he
  exact h.records hm he

-- ---------------------------------------------------------------------------
-- Acceptance
-- ---------------------------------------------------------------------------

theorem value_analyze_eq_ok_iff {unit : CompilationUnit} {imports : List ResolvedImport} :
    unit.analyze.value = .ok imports ↔
      problems .all unit.declarations = [] ∧ imports = resolutions .all unit.declarations := by
  have hf := (ImportAnalysis.follows_new Diagnostics.empty .all).addUnitUsing
    (fun importer _ => importer) unit
  rw [List.nil_append] at hf
  have he : ((ImportAnalysis.new Diagnostics.empty .all).addUnit unit).value.table.reporter.isEmpty
      = true ↔ problems .all unit.declarations = [] := by
    rw [Diagnostics.isEmpty_iff, ImportAnalysis.addUnit, hf.toList_reporter]
  have hi : ((ImportAnalysis.new Diagnostics.empty .all).addUnit unit).value.imports =
      resolutions .all unit.declarations := hf.imports_eq
  simp only [analyze, Traced.value_bind, Traced.value_pure, hi]
  split
  · rename_i hempty
    simp [he.mp hempty, eq_comm]
  · rename_i hempty
    simp [mt he.mpr hempty]

/-- A unit is accepted if and only if it is well formed. All its imports are then recorded, in
source order, and lead where their names say. -/
theorem accepted_iff_wellFormed (unit : CompilationUnit) :
    ((∃ imports, unit.analyze.value = .ok imports) ↔ unit.WellFormed) ∧
      ∀ imports, unit.analyze.value = .ok imports →
        List.Forall₂ (Records unit) unit.sources imports := by
  have hok : ∀ imports, unit.analyze.value = .ok imports ↔
      unit.WellFormed ∧ imports = resolutions .all unit.declarations := by
    intro imports
    rw [value_analyze_eq_ok_iff, problems_eq_nil_iff]
  constructor
  · simp only [hok, exists_and_left, exists_eq, and_true]
  · intro imports h
    obtain ⟨hw, rfl⟩ := (hok imports).mp h
    exact hw.forall₂_records

/-- `Out`, and after it `Main` with the import `F := Out`. -/
def aliasedOut : CompilationUnit :=
  .ofList [⟨⟨"Out", ⟨7, 10⟩⟩, [], ⟨0, 20⟩⟩,
    ⟨⟨"Main", ⟨28, 32⟩⟩, [.aliased ⟨"F", ⟨41, 42⟩⟩ ⟨"Out", ⟨46, 49⟩⟩], ⟨21, 60⟩⟩]

theorem accepted_aliasedOut :
    aliasedOut.analyze.value = .ok [⟨⟨1⟩, "F", ⟨0⟩, ⟨41, 49⟩⟩] ∧
      List.Forall₂ (Records aliasedOut) aliasedOut.sources [⟨⟨1⟩, "F", ⟨0⟩, ⟨41, 49⟩⟩] :=
  have h : aliasedOut.analyze.value = .ok [⟨⟨1⟩, "F", ⟨0⟩, ⟨41, 49⟩⟩] := by rfl
  ⟨h, (accepted_iff_wellFormed aliasedOut).2 _ h⟩

end CompilationUnit

end OberonModules
