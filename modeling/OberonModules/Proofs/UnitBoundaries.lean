import OberonModules.Proofs.TargetUnits

/-!
# Where units begin and end

Modules may be given as one unit or cut into several, one after another: the same is
reported, the same imports are recorded and the table has the same entries. All that
differs are ids, because they start again in every unit. Nothing that is decided on
the way depends on an id, so the two runs are one run with other ids.
-/

namespace OberonModules

open ImportRules

-- ---------------------------------------------------------------------------
-- Other ids
-- ---------------------------------------------------------------------------

def ResolvedImport.rename (rename : ModuleId → ModuleId) (resolved : ResolvedImport) :
    ResolvedImport :=
  { resolved with
    importer := rename resolved.importer
    target := rename resolved.target }

def Entry.rename (rename : ModuleId → ModuleId) (entry : Entry) : Entry :=
  { entry with module := rename entry.module }

/-- The same scopes with other modules. Names, spans and handles stay. -/
def Scopes.rename (rename : ModuleId → ModuleId) (scopes : Scopes) : Scopes :=
  { scopes with arena := scopes.arena.map (Entry.rename rename) }

@[simp] theorem Scopes.rename_empty (rename : ModuleId → ModuleId) :
    Scopes.empty.rename rename = .empty := by
  simp [Scopes.rename, empty]

namespace ImportRules

def Declared.rename (rename : ModuleId → ModuleId) (module : Declared) : Declared :=
  (rename module.1, module.2)

section
variable (rename : ModuleId → ModuleId)

theorem latest?_rename (earlier : List Declared) (name : String) :
    latest? (earlier.map (Declared.rename rename)) name =
      (latest? earlier name).map (Declared.rename rename) :=
  latest?_map (Declared.rename rename) (fun _ => rfl) earlier name

theorem target?_rename (earlier : List Declared) (importer : ModuleDecl) (element : Import) :
    target? (earlier.map (Declared.rename rename)) importer element =
      (target? earlier importer element).map rename := by
  simp only [target?, latest?_rename, Option.map_map]
  split <;> simp [Function.comp_def, Declared.rename]

theorem targetProblem?_rename (earlier : List Declared) (importer : ModuleDecl)
    (element : Import) :
    targetProblem? (earlier.map (Declared.rename rename)) importer element =
      targetProblem? earlier importer element := by
  simp only [targetProblem?_eq, latest?_rename, Option.isSome_map]

theorem nameProblem?_rename (checks : Checks) (earlier : List Declared)
    (declaration : ModuleDecl) :
    nameProblem? checks (earlier.map (Declared.rename rename)) declaration =
      nameProblem? checks earlier declaration := by
  simp only [nameProblem?, latest?_rename, Option.map_map]
  rfl

theorem problems_rename (checks : Checks) (modules : List Declared) :
    problems checks (modules.map (Declared.rename rename)) = problems checks modules := by
  simp only [problems, flatMap_withEarlier_map, moduleProblems, targetProblem?_rename,
    nameProblem?_rename, Declared.rename]

theorem resolution?_rename (checks : Checks) (earlier : List Declared) (importer : Declared)
    (before : List Import) (element : Import) :
    resolution? checks (earlier.map (Declared.rename rename)) (importer.rename rename) before
        element =
      (resolution? checks earlier importer before element).map (ResolvedImport.rename rename) := by
  simp only [resolution?, target?_rename, Declared.rename]
  split <;> simp [Function.comp_def, ResolvedImport.rename]

theorem moduleResolutions_rename (checks : Checks) (earlier : List Declared)
    (importer : Declared) :
    moduleResolutions checks (earlier.map (Declared.rename rename)) (importer.rename rename) =
      (moduleResolutions checks earlier importer).map (ResolvedImport.rename rename) := by
  simp only [moduleResolutions, resolution?_rename, List.map_filterMap]
  rfl

end

/-- A record names a module and one that was declared before it. -/
theorem ids_of_mem_moduleResolutions {checks : Checks} {earlier : List Declared}
    {importer : Declared} {resolved : ResolvedImport}
    (h : resolved ∈ moduleResolutions checks earlier importer) :
    resolved.importer = importer.1 ∧ ∃ target ∈ earlier, resolved.target = target.1 := by
  obtain ⟨⟨before, element⟩, -, hr⟩ := List.mem_filterMap.mp h
  simp only [resolution?, target?, Option.ite_none_left_eq_some, Option.map_eq_some_iff] at hr
  obtain ⟨-, _, ⟨-, found, hfound, rfl⟩, rfl⟩ := hr
  obtain ⟨-, first, rest, rfl, -⟩ := latest?_eq_some_iff.mp hfound
  exact ⟨rfl, found, by simp, rfl⟩

end ImportRules

-- ---------------------------------------------------------------------------
-- Several units as one
-- ---------------------------------------------------------------------------

namespace CompilationUnit

/-- The modules of all these units in a row. -/
def join (units : List CompilationUnit) : CompilationUnit :=
  .ofList (units.flatMap (·.modules.toList))

/-- The position in the row of the module that has this id in the unit of this number. -/
def position : List CompilationUnit → Nat → ModuleId → ModuleId
  | unit :: rest, number + 1, id => ⟨unit.size + (position rest number id).index⟩
  | _, _, id => id

/-- The number of the unit that a module of the row came from, and the id that it has there. -/
def address : List CompilationUnit → ModuleId → Nat × ModuleId
  | [], id => (0, id)
  | unit :: rest, id =>
    if id.index < unit.size then (0, id)
    else ((address rest ⟨id.index - unit.size⟩).1 + 1, (address rest ⟨id.index - unit.size⟩).2)

variable {units : List CompilationUnit} {unit : CompilationUnit} {id : ModuleId}

theorem size_join_cons (unit : CompilationUnit) (units : List CompilationUnit) :
    (join (unit :: units)).size = unit.size + (join units).size := by
  simp [join, ofList, size]

theorem get?_join_of_lt (h : id.index < unit.size) (units : List CompilationUnit) :
    (join (unit :: units)).get? id = unit.get? id := by
  have hi : id.index < unit.modules.toList.length := h
  simp [join, ofList, get?, List.getElem?_append_left hi]

theorem get?_join_of_ge (h : unit.size ≤ id.index) (units : List CompilationUnit) :
    (join (unit :: units)).get? id = (join units).get? ⟨id.index - unit.size⟩ := by
  have hi : unit.modules.toList.length ≤ id.index := h
  simp [join, ofList, get?, List.getElem?_append_right hi, size]

theorem address_of_lt (h : id.index < unit.size) (units : List CompilationUnit) :
    address (unit :: units) id = (0, id) :=
  if_pos h

theorem address_shift (unit : CompilationUnit) (units : List CompilationUnit) (id : ModuleId) :
    address (unit :: units) ⟨unit.size + id.index⟩ =
      ((address units id).1 + 1, (address units id).2) := by
  simp [address]

theorem position_address (units : List CompilationUnit) (id : ModuleId) :
    position units (address units id).1 (address units id).2 = id := by
  induction units generalizing id with
  | nil => rfl
  | cons unit units ih =>
    rw [address]
    split
    · rfl
    · rename_i hge
      simp only [position, ih]
      congr 1
      omega

theorem get?_address (units : List CompilationUnit) (id : ModuleId) :
    units[(address units id).1]?.bind (·.get? (address units id).2) = (join units).get? id := by
  induction units generalizing id with
  | nil => rfl
  | cons unit units ih =>
    rw [address]
    split
    · rename_i hlt
      exact (get?_join_of_lt hlt units).symm
    · rename_i hge
      rw [get?_join_of_ge (Nat.le_of_not_lt hge), ← ih]
      rfl

/-- Modules further on in the row are in the same unit or in a later one. -/
theorem address_mono {a b : ModuleId} (h : a.index ≤ b.index) :
    (address units a).1 ≤ (address units b).1 := by
  induction units generalizing a b with
  | nil => exact Nat.le_refl 0
  | cons unit units ih =>
    simp only [address]
    split
    · exact Nat.zero_le _
    · rw [if_neg (by omega)]
      exact Nat.succ_le_succ (ih (Nat.sub_le_sub_right h unit.size))

theorem address_append (h : id.index < (join units).size) (more : List CompilationUnit) :
    address (units ++ more) id = address units id := by
  induction units generalizing id with
  | nil => simp [join, ofList, size] at h
  | cons unit units ih =>
    rw [size_join_cons] at h
    rw [List.cons_append, address, address]
    split
    · rfl
    · rw [ih (by simp only; omega)]

theorem address_last (units : List CompilationUnit) (h : id.index < unit.size) :
    address (units ++ [unit]) ⟨(join units).size + id.index⟩ = (units.length, id) := by
  induction units with
  | nil =>
    rw [show (join []).size = 0 from rfl, Nat.zero_add]
    exact address_of_lt h []
  | cons first units ih =>
    rw [size_join_cons, List.cons_append, Nat.add_assoc]
    have hshift := address_shift first (units ++ [unit]) ⟨(join units).size + id.index⟩
    rw [hshift, ih, List.length_cons]

/-- Of two lists in a row, the ids of the second go on where those of the first end. -/
theorem declarations_append (first second : List ModuleDecl) :
    (ofList (first ++ second)).declarations = (ofList first).declarations ++
      (ofList second).declarations.map (Declared.rename fun id => ⟨first.length + id.index⟩) := by
  simp only [declarations, ofList, List.mapIdx_append]
  congr 1
  apply List.ext_getElem?
  intro index
  simp [List.getElem?_mapIdx, Function.comp_def, Declared.rename, Nat.add_comm]

theorem declarations_join_cons (unit : CompilationUnit) (units : List CompilationUnit) :
    (join (unit :: units)).declarations = unit.declarations ++
      (join units).declarations.map (Declared.rename fun id => ⟨unit.size + id.index⟩) :=
  declarations_append unit.modules.toList _

/-- The modules of a unit under the ids that they have in the row, after these units. -/
def placedAfter (units : List CompilationUnit) (unit : CompilationUnit) : List Declared :=
  unit.declarations.map (Declared.rename fun id => ⟨(join units).size + id.index⟩)

theorem declarations_join_concat (units : List CompilationUnit) (unit : CompilationUnit) :
    (join (units ++ [unit])).declarations =
      (join units).declarations ++ placedAfter units unit := by
  have happend := declarations_append (units.flatMap (·.modules.toList)) unit.modules.toList
  simpa [join, size, ofList, placedAfter] using happend

theorem address_of_mem_placedAfter {module : Declared} (h : module ∈ placedAfter units unit) :
    (address (units ++ [unit]) module.1).1 = units.length := by
  obtain ⟨original, ho, rfl⟩ := List.mem_map.mp h
  have hlt := lt_size_of_get? (mem_declarations_iff.mp ho)
  simp only [Declared.rename, address_last units hlt]

/-- The modules of the units in a row are those of the joined unit, under their ids at home. -/
theorem declared_eq (units : List CompilationUnit) :
    declared units =
      (join units).declarations.map (Declared.rename fun id => (address units id).2) := by
  induction units with
  | nil => rfl
  | cons unit units ih =>
    rw [declared, List.flatMap_cons, declarations_join_cons, List.map_append, List.map_map]
    congr 1
    · refine ((List.map_congr_left fun module hm => ?_).trans (List.map_id _)).symm
      have hlt := lt_size_of_get? (mem_declarations_iff.mp hm)
      simp only [Declared.rename, address_of_lt hlt, id_eq]
    · rw [← declared, ih]
      refine List.map_congr_left fun module _ => ?_
      simp only [Function.comp_apply, Declared.rename, address_shift]

end CompilationUnit

-- ---------------------------------------------------------------------------
-- The same run twice
-- ---------------------------------------------------------------------------

namespace ImportAnalysis

open CompilationUnit

variable {ρ : Type} [Reporter ρ]

/-- Every record of an analysis of these units, with the number of the unit in which it was made. -/
def recordedIn (reporter : ρ) (checks : Checks) (units : List CompilationUnit) :
    List (Nat × ResolvedImport) :=
  (withEarlier [] units).flatMap fun (before, unit) =>
    (recorded reporter checks before unit).map fun resolved => (before.length, resolved)

theorem recordedIn_concat (reporter : ρ) (checks : Checks) (units : List CompilationUnit)
    (unit : CompilationUnit) :
    recordedIn reporter checks (units ++ [unit]) = recordedIn reporter checks units ++
      (recorded reporter checks units unit).map fun resolved => (units.length, resolved) := by
  simp [recordedIn, withEarlier_append]

theorem map_snd_recordedIn (reporter : ρ) (checks : Checks) (units : List CompilationUnit) :
    (recordedIn reporter checks units).map Prod.snd = (ofUnits reporter checks units).imports := by
  induction units using List.reverseRecOn with
  | nil => rfl
  | append_singleton units unit ih =>
    rw [recordedIn_concat, List.map_append, ih, imports_concat]
    simp [Function.comp_def]

theorem mem_resolutions {checks : Checks} {unit : CompilationUnit} {resolved : ResolvedImport}
    (h : resolved ∈ resolutions checks unit.declarations) :
    resolved.target < resolved.importer ∧
      (∃ target, unit.get? resolved.target = some target) ∧
      ∃ importer, unit.get? resolved.importer = some importer := by
  obtain ⟨⟨earlier, importer⟩, hm, hr⟩ := List.mem_flatMap.mp h
  obtain ⟨hi, target, ht, hid⟩ := ids_of_mem_moduleResolutions hr
  obtain ⟨hlt, hg⟩ := (mem_earlier_iff hm).mp ht
  rw [hi, hid]
  exact ⟨hlt, ⟨target.2, hg⟩, importer.2, get?_of_mem_withEarlier hm⟩

/-- A record of the joined unit with its number and as its own unit has it. -/
def atHome (units : List CompilationUnit) (resolved : ResolvedImport) : Nat × ResolvedImport :=
  ((address units resolved.importer).1, resolved.rename fun id => (address units id).2)

theorem recorded_eq_atHome (reporter : ρ) (checks : Checks) (units : List CompilationUnit)
    (unit : CompilationUnit) :
    (recorded reporter checks units unit).map (fun resolved => (units.length, resolved)) =
      ((withEarlier (join units).declarations (placedAfter units unit)).flatMap
        fun (earlier, module) => moduleResolutions checks earlier module).map
          (atHome (units ++ [unit])) := by
  have hrow := declared_eq (units ++ [unit])
  rw [declared_concat, declarations_join_concat, List.map_append] at hrow
  obtain ⟨hbefore, hunit⟩ := List.append_inj hrow (by simp [declared_eq units])
  rw [recorded_eq, hbefore, hunit, withEarlier_map, List.flatMap_map, List.map_flatMap,
    List.map_flatMap]
  apply List.flatMap_congr
  rintro ⟨earlier, importer⟩ hm
  have hlast := address_of_mem_placedAfter (mem_of_mem_withEarlier hm)
  simp only [moduleResolutions_rename, List.map_map]
  refine List.map_congr_left fun resolved hr => ?_
  obtain ⟨hi, -⟩ := ids_of_mem_moduleResolutions hr
  simp only [Function.comp_apply, atHome, hi, hlast]

theorem recordedIn_eq (reporter : ρ) (checks : Checks) (units : List CompilationUnit) :
    recordedIn reporter checks units =
      (resolutions checks (join units).declarations).map (atHome units) := by
  induction units using List.reverseRecOn with
  | nil => rfl
  | append_singleton units unit ih =>
    rw [recordedIn_concat, ih, declarations_join_concat, resolutions_append, List.map_append,
      recorded_eq_atHome]
    congr 1
    refine List.map_congr_left fun resolved hr => ?_
    obtain ⟨-, ⟨target, ht⟩, importer, hi⟩ := mem_resolutions hr
    simp only [atHome, ResolvedImport.rename, address_append (lt_size_of_get? hi),
      address_append (lt_size_of_get? ht)]

/-- In the unit of this number the id is that of a module, and in the row of all units the position
is that of the same module. -/
structure Denotes (units : List CompilationUnit) (number : Nat) (id place : ModuleId) : Prop where
  position_eq : position units number id = place
  declaration_eq : ∃ unit declaration, units[number]? = some unit ∧
    unit.get? id = some declaration ∧ (join units).get? place = some declaration

theorem denotes_address {units : List CompilationUnit} {place : ModuleId}
    {declaration : ModuleDecl} (h : (join units).get? place = some declaration) :
    Denotes units (address units place).1 (address units place).2 place where
  position_eq := position_address units place
  declaration_eq := by
    have hg := (get?_address units place).trans h
    obtain ⟨unit, hu, hd⟩ := Option.bind_eq_some_iff.mp hg
    exact ⟨unit, declaration, hu, hd, h⟩

/-- A record made in the unit of this number, and one of the same import with all units in a row.
The importer is of this unit, the target of this unit or of an earlier one. -/
structure SameImport (units : List CompilationUnit) (record : Nat × ResolvedImport)
    (joined : ResolvedImport) : Prop where
  localName_eq : record.2.localName = joined.localName
  span_eq : record.2.span = joined.span
  importer : Denotes units record.1 record.2.importer joined.importer
  target : ∃ home ≤ record.1, Denotes units home record.2.target joined.target

theorem sameImport_atHome {checks : Checks} {units : List CompilationUnit}
    {resolved : ResolvedImport}
    (h : resolved ∈ resolutions checks (join units).declarations) :
    SameImport units (atHome units resolved) resolved := by
  obtain ⟨hlt, ⟨target, ht⟩, importer, hi⟩ := mem_resolutions h
  exact ⟨rfl, rfl, denotes_address hi,
    (address units resolved.target).1, address_mono (Nat.le_of_lt hlt), denotes_address ht⟩

theorem scopesWith_rename (rename : ModuleId → ModuleId) (checks : Checks) (scopes : Scopes)
    (module : Declared) :
    scopesWith checks (scopes.rename rename) (module.rename rename) =
      (scopesWith checks scopes module).rename rename := by
  simp [scopesWith, Scopes.rename, Scopes.skip, Scopes.insert, Scopes.nextHandle,
    Declared.rename, Entry.rename]

theorem foldl_scopesWith_rename (rename : ModuleId → ModuleId) (checks : Checks)
    (scopes : Scopes) (modules : List Declared) :
    (modules.map (Declared.rename rename)).foldl (scopesWith checks) (scopes.rename rename) =
      (modules.foldl (scopesWith checks) scopes).rename rename := by
  induction modules generalizing scopes with
  | nil => rfl
  | cons module modules ih =>
    rw [List.map_cons, List.foldl_cons, List.foldl_cons, scopesWith_rename, ih]

/-- How an analysis of units in a row compares to one of the same modules as one unit. -/
structure SameAsJoined (reporter : ρ) (checks : Checks) (units : List CompilationUnit) :
    Prop where
  reporter_eq : (ofUnits reporter checks units).table.reporter =
    (ofUnits reporter checks [join units]).table.reporter
  imports_eq : (ofUnits reporter checks units).imports =
    (recordedIn reporter checks units).map Prod.snd
  imports_same : List.Forall₂ (SameImport units) (recordedIn reporter checks units)
    (ofUnits reporter checks [join units]).imports
  scopes_eq : (ofUnits reporter checks units).table.scopes =
    (ofUnits reporter checks [join units]).table.scopes.rename fun id => (address units id).2

/-- However modules are cut into units, the run is the one over all of them as one unit, with other
ids. -/
theorem sameAsJoined_ofUnits (reporter : ρ) (checks : Checks) (units : List CompilationUnit) :
    SameAsJoined reporter checks units := by
  have hjoined : declared [join units] = (join units).declarations := List.flatMap_singleton ..
  constructor
  case reporter_eq =>
    rw [reporter_ofUnits, reporter_ofUnits, hjoined, declared_eq, problems_rename]
  case imports_eq => exact (map_snd_recordedIn reporter checks units).symm
  case imports_same =>
    rw [recordedIn_eq, imports_ofUnits, hjoined, List.forall₂_map_left_iff]
    exact List.forall₂_same.mpr fun resolved hr => sameImport_atHome hr
  case scopes_eq =>
    rw [scopes_ofUnits, scopes_ofUnits, hjoined, declared_eq, ← foldl_scopesWith_rename,
      Scopes.rename_empty]

end ImportAnalysis

end OberonModules
