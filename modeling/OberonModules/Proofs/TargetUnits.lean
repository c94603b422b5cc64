import OberonModules.Proofs.Acceptance

/-!
# Units that targets are in

An id is a position in some unit, and one analysis may be given several units. The
importer of a recorded import is always in the unit that was analyzed when the import
was recorded. The target need not be: it is in the unit that declared the imported
name last, and if no module before the importer has that name in its own unit, this
is an earlier one.
-/

namespace OberonModules

open ImportRules

-- ---------------------------------------------------------------------------
-- The last declaration of a name
-- ---------------------------------------------------------------------------

namespace CompilationUnit

variable {unit : CompilationUnit} {stop : ModuleId} {name : String} {found : Declared}

/-- Of the modules of this name that stand before a position, the last. -/
structure LatestBefore (unit : CompilationUnit) (stop : ModuleId) (name : String)
    (id : ModuleId) : Prop where
  before : id < stop
  named : ∃ declaration, unit.get? id = some declaration ∧ declaration.name.name = name
  latest : ∀ other declaration, unit.get? other = some declaration →
    declaration.name.name = name → other < stop → other.index ≤ id.index

def LacksBefore (unit : CompilationUnit) (stop : ModuleId) (name : String) : Prop :=
  ∀ id declaration, unit.get? id = some declaration → id < stop →
    declaration.name.name ≠ name

theorem pairwise_declarations (unit : CompilationUnit) :
    unit.declarations.Pairwise (·.1 < ·.1) := by
  refine List.pairwise_iff_getElem.mpr fun i j hi hj hij => ?_
  simp only [declarations, List.getElem_mapIdx]
  exact hij

theorem latestBefore_of_latest?
    (h : latest? (unit.declarations.take stop.index) name = some found) :
    unit.LatestBefore stop name found.1 := by
  obtain ⟨hname, first, rest, hsplit, hrest⟩ := latest?_eq_some_iff.mp h
  have hfound : found ∈ unit.declarations.take stop.index := by simp [hsplit]
  obtain ⟨hlt, hg⟩ := mem_take_declarations_iff.mp hfound
  refine ⟨hlt, ⟨found.2, hg, hname⟩, ?_⟩
  intro other declaration hg hn hlt
  have hsorted : (unit.declarations.take stop.index).Pairwise (·.1 < ·.1) :=
    unit.pairwise_declarations.take
  have hmem : (other, declaration) ∈ unit.declarations.take stop.index :=
    mem_take_declarations_iff.mpr ⟨hlt, hg⟩
  rw [hsplit] at hmem hsorted
  obtain hm | hm := List.mem_append.mp hmem
  · exact Nat.le_of_lt ((List.pairwise_append.mp hsorted).2.2 _ hm found List.mem_cons_self)
  · rcases List.mem_cons.mp hm with rfl | hm
    · exact Nat.le_refl _
    · exact absurd hn (hrest _ hm)

theorem lacksBefore_of_latest?
    (h : latest? (unit.declarations.take stop.index) name = none) :
    unit.LacksBefore stop name := by
  intro id declaration hg hlt
  exact latest?_eq_none_iff.mp h (id, declaration) (mem_take_declarations_iff.mpr ⟨hlt, hg⟩)

/-- No module of a unit stands outside the positions before `nextId`. -/
theorem take_nextId (unit : CompilationUnit) :
    unit.declarations.take unit.nextId.index = unit.declarations :=
  List.take_of_length_le (by simp [declarations, nextId, size])

end CompilationUnit

/-- Where a name was declared last, seen from the position `stop` of a unit that comes after the
units `before`. -/
inductive DeclaredLast (before : List CompilationUnit) (unit : CompilationUnit)
    (stop : ModuleId) (name : String) (id : ModuleId) : Prop
  | own (found : unit.LatestBefore stop name id)
  | carried (home : CompilationUnit) (first rest : List CompilationUnit)
      (lacking : unit.LacksBefore stop name)
      (split : before = first ++ home :: rest)
      (skipped : ∀ other ∈ rest, other.LacksBefore other.nextId name)
      (found : home.LatestBefore home.nextId name id)

theorem exists_home {units : List CompilationUnit} {name : String} {found : Declared}
    (h : latest? (declared units) name = some found) :
    ∃ home first rest, units = first ++ home :: rest ∧
      (∀ other ∈ rest, other.LacksBefore other.nextId name) ∧
      home.LatestBefore home.nextId name found.1 := by
  induction units using List.reverseRecOn with
  | nil => cases h
  | append_singleton units unit ih =>
    rw [declared_concat, latest?_append, Option.or_eq_some_iff, ← unit.take_nextId] at h
    obtain h | ⟨hnone, h⟩ := h
    · exact ⟨unit, units, [], rfl, by simp, CompilationUnit.latestBefore_of_latest? h⟩
    · obtain ⟨home, first, rest, rfl, hskipped, hfound⟩ := ih h
      refine ⟨home, first, rest ++ [unit], by simp, ?_, hfound⟩
      intro other hm
      obtain hm | hm := List.mem_append.mp hm
      · exact hskipped other hm
      · rw [List.mem_singleton.mp hm]
        exact CompilationUnit.lacksBefore_of_latest? hnone

theorem declaredLast_of_latest? {before : List CompilationUnit} {unit : CompilationUnit}
    {stop : ModuleId} {name : String} {found : Declared}
    (h : latest? (declared before ++ unit.declarations.take stop.index) name = some found) :
    DeclaredLast before unit stop name found.1 := by
  rw [latest?_append, Option.or_eq_some_iff] at h
  obtain h | ⟨hnone, h⟩ := h
  · exact .own (CompilationUnit.latestBefore_of_latest? h)
  · obtain ⟨home, first, rest, hsplit, hskipped, hfound⟩ := exists_home h
    exact .carried home first rest (CompilationUnit.lacksBefore_of_latest? hnone) hsplit hskipped
      hfound

-- ---------------------------------------------------------------------------
-- The records of one unit
-- ---------------------------------------------------------------------------

namespace ImportAnalysis

variable {ρ : Type} [Reporter ρ]

/-- What is recorded while a unit is analyzed, after the units `before`. -/
def recorded (reporter : ρ) (checks : Checks) (before : List CompilationUnit)
    (unit : CompilationUnit) : List ResolvedImport :=
  (ofUnits reporter checks (before ++ [unit])).imports.drop
    (ofUnits reporter checks before).imports.length

theorem recorded_eq (reporter : ρ) (checks : Checks) (before : List CompilationUnit)
    (unit : CompilationUnit) :
    recorded reporter checks before unit =
      (withEarlier (declared before) unit.declarations).flatMap
        fun (earlier, module) => moduleResolutions checks earlier module := by
  rw [recorded, imports_ofUnits, imports_ofUnits, declared_concat, resolutions_append]
  exact List.drop_left

/-- An analysis only ever adds to what it has recorded. -/
theorem imports_concat (reporter : ρ) (checks : Checks) (before : List CompilationUnit)
    (unit : CompilationUnit) :
    (ofUnits reporter checks (before ++ [unit])).imports =
      (ofUnits reporter checks before).imports ++ recorded reporter checks before unit := by
  rw [recorded_eq, imports_ofUnits, imports_ofUnits, declared_concat, resolutions_append]

/-- An import of `unit` with its record. The importer is a module of the unit, the one with this
import; the target is where the imported name was declared last. -/
structure LeadsBack (before : List CompilationUnit) (unit : CompilationUnit)
    (resolved : ResolvedImport) (source : ModuleId × Import) : Prop where
  importer_eq : resolved.importer = source.1
  importer_imports : ∃ importer, unit.get? resolved.importer = some importer ∧
    source.2 ∈ importer.imports
  localName_eq : resolved.localName = source.2.localName.name
  span_eq : resolved.span = source.2.span
  target : DeclaredLast before unit resolved.importer source.2.module.name resolved.target

theorem leadsBack_of_resolution? {checks : Checks} {before : List CompilationUnit}
    {unit : CompilationUnit} {earlier : List Declared} {importer : Declared}
    (h : (earlier, importer) ∈ withEarlier (declared before) unit.declarations)
    {elements : List Import} {element : Import} (he : element ∈ importer.2.imports)
    {resolved : ResolvedImport}
    (hr : resolution? checks earlier importer elements element = some resolved) :
    LeadsBack before unit resolved (importer.1, element) := by
  obtain ⟨first, rest, hsplit, rfl⟩ := mem_withEarlier_iff.mp h
  have hpair : (first, importer) ∈ withEarlier [] unit.declarations :=
    mem_withEarlier_iff.mpr ⟨first, rest, hsplit, rfl⟩
  have hg := CompilationUnit.get?_of_mem_withEarlier hpair
  rw [CompilationUnit.earlier_eq_take hpair] at hr
  simp only [resolution?, target?, Option.ite_none_left_eq_some, Option.map_eq_some_iff] at hr
  obtain ⟨-, target, ⟨-, found, hfound, rfl⟩, rfl⟩ := hr
  exact ⟨rfl, ⟨importer.2, hg, he⟩, rfl, rfl, declaredLast_of_latest? hfound⟩

/-- What is recorded while a unit is analyzed are imports of that unit, in order, each under the id
of its importer there, and each leads to where its module was declared last. -/
theorem leadsBack_recorded (reporter : ρ) (checks : Checks) (before : List CompilationUnit)
    (unit : CompilationUnit) :
    (ofUnits reporter checks (before ++ [unit])).imports =
        (ofUnits reporter checks before).imports ++ recorded reporter checks before unit ∧
      List.SublistForall₂ (LeadsBack before unit) (recorded reporter checks before unit)
        unit.sources := by
  refine ⟨imports_concat reporter checks before unit, ?_⟩
  rw [recorded_eq]
  apply sublistForall₂_flatMap_withEarlier
  rintro ⟨earlier, importer⟩ hm
  apply sublistForall₂_filterMap_withEarlier
  rintro ⟨elements, element⟩ he resolved hr
  exact leadsBack_of_resolution? hm (mem_of_mem_withEarlier he) hr

-- ---------------------------------------------------------------------------
-- A target in another unit
-- ---------------------------------------------------------------------------

/-- Importer and target are modules of this one unit, and the importer imports a module with the
name of the target. -/
def StaysIn (unit : CompilationUnit) (resolved : ResolvedImport) : Prop :=
  ∃ importer element target, unit.get? resolved.importer = some importer ∧
    element ∈ importer.imports ∧ resolved.localName = element.localName.name ∧
    unit.get? resolved.target = some target ∧ target.name.name = element.module.name

def outAlone : CompilationUnit :=
  .ofList [⟨⟨"Out", ⟨7, 10⟩⟩, [], ⟨0, 20⟩⟩]

def mainAlone : CompilationUnit :=
  .ofList [⟨⟨"Main", ⟨7, 11⟩⟩, [.plain ⟨"Out", ⟨20, 23⟩⟩], ⟨0, 40⟩⟩]

/-- `Main` imports `Out` from the unit before. The target is position 0 of that unit; in the unit of
`Main`, this is `Main`. -/
theorem not_staysIn_mainAlone :
    ¬ ∀ resolved ∈ recorded Diagnostics.empty .all [outAlone] mainAlone,
      StaysIn mainAlone resolved := by
  have hrecorded : recorded Diagnostics.empty .all [outAlone] mainAlone =
      [⟨⟨0⟩, "Out", ⟨0⟩, ⟨20, 23⟩⟩] := by rfl
  intro h
  obtain ⟨importer, element, target, hi, he, -, ht, hn⟩ := h ⟨⟨0⟩, "Out", ⟨0⟩, ⟨20, 23⟩⟩
    (by simp [hrecorded])
  cases hi
  cases ht
  cases List.mem_singleton.mp he
  exact absurd hn (by decide)

end ImportAnalysis

end OberonModules
