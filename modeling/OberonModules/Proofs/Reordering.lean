import Mathlib.Data.List.FinRange
import Mathlib.Logic.Equiv.Basic
import OberonModules.Proofs.Acceptance

/-!
# Units in another order

The modules of an accepted unit may be put into another order: the unit is accepted
again if and only if every module still comes after those it imports. What is then
recorded are the imports that were recorded before, importer by importer in the new
order, with the ids that the modules have there.
-/

namespace OberonModules.CompilationUnit

open ImportRules

variable {unit : CompilationUnit} {imports reordered : List ResolvedImport}

-- ---------------------------------------------------------------------------
-- Another order
-- ---------------------------------------------------------------------------

/-- The modules in another order, which names the module for each position. -/
def reorder (unit : CompilationUnit) (order : Equiv.Perm (Fin unit.modules.size)) :
    CompilationUnit :=
  ⟨Array.ofFn fun position => unit.modules[order position]⟩

/-- The id that a module has in the new order. -/
def renamed {count : Nat} (order : Equiv.Perm (Fin count)) (id : ModuleId) : ModuleId :=
  if h : id.index < count then ⟨order.symm ⟨id.index, h⟩⟩ else id

def ImportsFrom (unit : CompilationUnit) (importer target : Fin unit.modules.size) : Prop :=
  ∃ element ∈ unit.modules[importer].imports,
    element.module.name = unit.modules[target].name.name

/-- In this order every imported module comes before each module that imports it. -/
def KeepsImports (unit : CompilationUnit) (order : Equiv.Perm (Fin unit.modules.size)) : Prop :=
  ∀ importer target, unit.ImportsFrom importer target → order.symm target < order.symm importer

/-- Those of the imports that belong to one importer. -/
def block (imports : List ResolvedImport) (importer : ModuleId) : List ResolvedImport :=
  imports.filter (·.importer = importer)

/-- The blocks of the importers in the new order, with the ids that the modules have there. -/
def rearranged {count : Nat} (order : Equiv.Perm (Fin count)) (imports : List ResolvedImport) :
    List ResolvedImport :=
  (List.finRange count).flatMap fun position =>
    (block imports ⟨order position⟩).map fun resolved =>
      { resolved with
        importer := renamed order resolved.importer
        target := renamed order resolved.target }

variable (order : Equiv.Perm (Fin unit.modules.size))

@[simp] theorem renamed_position (position : Fin unit.modules.size) :
    renamed order ⟨position⟩ = ⟨order.symm position⟩ := by
  simp [renamed]

theorem get?_position (position : Fin unit.modules.size) :
    unit.get? ⟨position⟩ = some unit.modules[position] := by
  simp [get?]

theorem exists_position {id : ModuleId} {declaration : ModuleDecl}
    (h : unit.get? id = some declaration) :
    ∃ position : Fin unit.modules.size, id = ⟨position⟩ ∧
      unit.modules[position] = declaration := by
  obtain ⟨hlt, hd⟩ := Array.getElem?_eq_some_iff.mp h
  exact ⟨⟨id.index, hlt⟩, rfl, hd⟩

theorem get?_reorder (position : Fin unit.modules.size) :
    (unit.reorder order).get? ⟨order.symm position⟩ = some unit.modules[position] := by
  simp [get?, reorder]

theorem exists_position_reorder {id : ModuleId} {declaration : ModuleDecl}
    (h : (unit.reorder order).get? id = some declaration) :
    ∃ position : Fin unit.modules.size, id = ⟨order.symm position⟩ ∧
      unit.modules[position] = declaration := by
  simp only [get?, reorder, Array.getElem?_ofFn, Option.dite_none_right_eq_some,
    Option.some.injEq] at h
  obtain ⟨hlt, hd⟩ := h
  exact ⟨order ⟨id.index, hlt⟩, by simp, hd⟩

-- ---------------------------------------------------------------------------
-- Well-formed again
-- ---------------------------------------------------------------------------

theorem WellFormed.name_injective (h : unit.WellFormed) :
    Function.Injective fun position : Fin unit.modules.size =>
      unit.modules[position].name.name := by
  intro a b hn
  have hid := h.id_unique (get?_position a) (get?_position b) hn
  exact Fin.ext (congrArg ModuleId.index hid)

theorem WellFormed.names_nodup_reorder (h : unit.WellFormed) :
    ((unit.reorder order).modules.toList.map (·.name.name)).Nodup := by
  rw [reorder, Array.toList_ofFn, List.map_ofFn, List.nodup_ofFn]
  exact h.name_injective.comp order.injective

theorem WellFormed.reorder_iff (h : unit.WellFormed) :
    (unit.reorder order).WellFormed ↔ unit.KeepsImports order := by
  constructor
  · rintro hr importer target ⟨element, he, hn⟩
    obtain ⟨earlier, declaration, hlt, hg, hd⟩ :=
      hr.imports_earlier _ _ (get?_reorder order importer) element he
    obtain ⟨position, rfl, rfl⟩ := exists_position_reorder order hg
    obtain rfl : position = target := h.name_injective (hd.trans hn)
    exact hlt
  · intro hk
    refine ⟨h.names_nodup_reorder order, ?_, ?_⟩
    · intro id declaration hg element he
      obtain ⟨importer, rfl, rfl⟩ := exists_position_reorder order hg
      obtain ⟨earlier, declaration, -, ht, hn⟩ :=
        h.imports_earlier _ _ (get?_position importer) element he
      obtain ⟨target, rfl, rfl⟩ := exists_position ht
      have hlt := hk importer target ⟨element, he, hn.symm⟩
      exact ⟨⟨order.symm target⟩, _, hlt, get?_reorder order target, hn⟩
    · intro id declaration hg
      obtain ⟨importer, rfl, rfl⟩ := exists_position_reorder order hg
      exact h.localNames_nodup _ _ (get?_position importer)

-- ---------------------------------------------------------------------------
-- The same records
-- ---------------------------------------------------------------------------

theorem Records.unique {source : ModuleId × Import} {first second : ResolvedImport}
    (h : Records unit source first) (h' : Records unit source second) : first = second := by
  have htarget : first.target = second.target :=
    (h'.target_iff first.target).mpr ((h.target_iff first.target).mp rfl)
  cases first
  cases second
  simp only [ResolvedImport.mk.injEq]
  exact ⟨h.importer_eq.trans h'.importer_eq.symm, h.localName_eq.trans h'.localName_eq.symm,
    htarget, h.span_eq.trans h'.span_eq.symm⟩

theorem Records.renamed {source : ModuleId × Import} {resolved : ResolvedImport}
    (h : Records unit source resolved) :
    Records (unit.reorder order) (renamed order source.1, source.2)
      { resolved with
        importer := renamed order resolved.importer
        target := renamed order resolved.target } where
  importer_eq := congrArg (CompilationUnit.renamed order) h.importer_eq
  localName_eq := h.localName_eq
  span_eq := h.span_eq
  target_iff := by
    obtain ⟨declaration, hg, hn⟩ := (h.target_iff resolved.target).mp rfl
    obtain ⟨target, ht, rfl⟩ := exists_position hg
    intro id
    rw [ht, renamed_position]
    constructor
    · rintro rfl
      exact ⟨_, get?_reorder order target, hn⟩
    · rintro ⟨other, ho, hname⟩
      obtain ⟨position, rfl, rfl⟩ := exists_position_reorder order ho
      have hid := (h.target_iff ⟨position⟩).mpr ⟨_, get?_position position, hname⟩
      rw [ht] at hid
      obtain rfl : position = target := Fin.ext (congrArg ModuleId.index hid)
      rfl

-- ---------------------------------------------------------------------------
-- Blocks
-- ---------------------------------------------------------------------------

theorem declarations_ofFn {count : Nat} (module : Fin count → ModuleDecl) :
    (⟨Array.ofFn module⟩ : CompilationUnit).declarations =
      (List.finRange count).map fun position => (⟨position⟩, module position) := by
  apply List.ext_getElem
  · simp [declarations]
  · intro index h h'
    simp [declarations]

/-- The imports of the module at this position, with its id. -/
def sourcesAt (unit : CompilationUnit) (position : Fin unit.modules.size) :
    List (ModuleId × Import) :=
  unit.modules[position].imports.map fun element => (⟨position⟩, element)

theorem sources_eq (unit : CompilationUnit) :
    unit.sources = (List.finRange unit.modules.size).flatMap unit.sourcesAt := by
  have hunit : unit =
      ⟨Array.ofFn fun position : Fin unit.modules.size => unit.modules[position]⟩ := by
    simp
  conv_lhs => rw [sources, hunit, declarations_ofFn, List.flatMap_map]
  rfl

theorem sources_reorder :
    (unit.reorder order).sources = (List.finRange unit.modules.size).flatMap fun position =>
      (unit.sourcesAt (order position)).map fun source => (renamed order source.1, source.2) := by
  rw [sources, reorder, declarations_ofFn, List.flatMap_map]
  congr 1
  funext position
  simp [sourcesAt, Function.comp_def]

theorem filter_sourcesAt_ne {position other : Fin unit.modules.size} (h : other ≠ position) :
    (unit.sourcesAt other).filter (·.1 = ⟨position⟩) = [] := by
  have hne : (⟨other⟩ : ModuleId) ≠ ⟨position⟩ := by
    intro he
    exact h (Fin.ext (congrArg ModuleId.index he))
  simp [sourcesAt, hne]

theorem filter_sources (position : Fin unit.modules.size) :
    unit.sources.filter (·.1 = ⟨position⟩) = unit.sourcesAt position := by
  obtain ⟨first, rest, hsplit⟩ := List.append_of_mem (List.mem_finRange position)
  have hnodup := List.nodup_finRange unit.modules.size
  rw [hsplit, List.nodup_middle, List.nodup_cons, List.mem_append] at hnodup
  have hothers : ∀ others : List (Fin unit.modules.size), position ∉ others →
      (others.flatMap unit.sourcesAt).filter (·.1 = ⟨position⟩) = [] := by
    intro others hnot
    rw [List.filter_flatMap, List.flatMap_eq_nil_iff]
    intro other hm
    exact filter_sourcesAt_ne (fun he => hnot (he ▸ hm))
  rw [sources_eq, hsplit, List.flatMap_append, List.flatMap_cons, List.filter_append,
    List.filter_append, hothers first (fun hm => hnodup.1 (.inl hm)),
    hothers rest (fun hm => hnodup.1 (.inr hm))]
  simp [sourcesAt]

theorem forall₂_block (h : List.Forall₂ (Records unit) unit.sources imports)
    (position : Fin unit.modules.size) :
    List.Forall₂ (Records unit) (unit.sourcesAt position) (block imports ⟨position⟩) := by
  rw [← filter_sources, block]
  refine List.rel_filter ?_ h
  intro source resolved hr
  simp [hr.importer_eq]

theorem forall₂_blocks (h : List.Forall₂ (Records unit) unit.sources imports) :
    List.Forall₂ (Records unit) unit.sources
      ((List.finRange unit.modules.size).flatMap fun position : Fin unit.modules.size =>
        block imports ⟨position⟩) := by
  rw [sources_eq]
  refine List.rel_flatMap (List.forall₂_same.mpr fun position _ => rfl) ?_
  rintro position _ rfl
  exact forall₂_block h position

theorem forall₂_rearranged (h : List.Forall₂ (Records unit) unit.sources imports) :
    List.Forall₂ (Records (unit.reorder order)) (unit.reorder order).sources
      (rearranged order imports) := by
  rw [sources_reorder]
  refine List.rel_flatMap (List.forall₂_same.mpr fun position _ => rfl) ?_
  rintro position _ rfl
  exact List.rel_map (fun _ _ hr => hr.renamed order) (forall₂_block h (order position))

-- ---------------------------------------------------------------------------
-- Accepted again
-- ---------------------------------------------------------------------------

theorem records_unique {first second : List ResolvedImport}
    (h : List.Forall₂ (Records unit) unit.sources first)
    (h' : List.Forall₂ (Records unit) unit.sources second) : first = second :=
  List.right_unique_forall₂' (fun _ _ _ hr hr' => hr.unique hr') h h'

/-- The imports of an accepted unit stand in one block for each importer. In another order the unit
is accepted if and only if the order keeps its imports, and these are then the same blocks, with new
ids, in the order of their importers. -/
theorem analyze_reorder_eq_ok_iff (h : unit.analyze.value = .ok imports) :
    imports = (List.finRange unit.modules.size).flatMap
        (fun position : Fin unit.modules.size => block imports ⟨position⟩) ∧
      ∀ (order : Equiv.Perm (Fin unit.modules.size)) (reordered : List ResolvedImport),
        (unit.reorder order).analyze.value = .ok reordered ↔
          unit.KeepsImports order ∧ reordered = rearranged order imports := by
  obtain ⟨hnone, himports⟩ := value_analyze_eq_ok_iff.mp h
  have hw := problems_eq_nil_iff.mp hnone
  have hrecords : List.Forall₂ (Records unit) unit.sources imports := by
    rw [himports]
    exact hw.forall₂_records
  refine ⟨records_unique hrecords (forall₂_blocks hrecords), ?_⟩
  intro order reordered
  rw [value_analyze_eq_ok_iff, problems_eq_nil_iff, hw.reorder_iff]
  refine and_congr_right fun hk => ?_
  have hr := ((hw.reorder_iff order).mpr hk).forall₂_records
  rw [records_unique hr (forall₂_rearranged order hrecords)]

/-- `Out` and `In`, then `Files`, which imports `Out`, and `Main`, which imports `In` as `I`. -/
def twoPairs : CompilationUnit :=
  .ofList [⟨⟨"Out", ⟨7, 10⟩⟩, [], ⟨0, 20⟩⟩, ⟨⟨"In", ⟨28, 30⟩⟩, [], ⟨21, 40⟩⟩,
    ⟨⟨"Files", ⟨48, 53⟩⟩, [.plain ⟨"Out", ⟨62, 65⟩⟩], ⟨41, 70⟩⟩,
    ⟨⟨"Main", ⟨78, 82⟩⟩, [.aliased ⟨"I", ⟨91, 92⟩⟩ ⟨"In", ⟨96, 98⟩⟩], ⟨71, 110⟩⟩]

/-- `In`, `Out`, `Main`, `Files`. -/
def crossed : Equiv.Perm (Fin twoPairs.modules.size) :=
  (Equiv.swap (0 : Fin 4) 1).trans (Equiv.swap 2 3)

theorem analyze_reorder_crossed :
    twoPairs.analyze.value = .ok [⟨⟨2⟩, "Out", ⟨0⟩, ⟨62, 65⟩⟩, ⟨⟨3⟩, "I", ⟨1⟩, ⟨91, 98⟩⟩] ∧
      (twoPairs.reorder crossed).analyze.value =
        .ok [⟨⟨2⟩, "I", ⟨0⟩, ⟨91, 98⟩⟩, ⟨⟨3⟩, "Out", ⟨1⟩, ⟨62, 65⟩⟩] ∧
      twoPairs.KeepsImports crossed ∧
      [⟨⟨2⟩, "I", ⟨0⟩, ⟨91, 98⟩⟩, ⟨⟨3⟩, "Out", ⟨1⟩, ⟨62, 65⟩⟩] =
        rearranged crossed [⟨⟨2⟩, "Out", ⟨0⟩, ⟨62, 65⟩⟩, ⟨⟨3⟩, "I", ⟨1⟩, ⟨91, 98⟩⟩] :=
  have h : twoPairs.analyze.value =
      .ok [⟨⟨2⟩, "Out", ⟨0⟩, ⟨62, 65⟩⟩, ⟨⟨3⟩, "I", ⟨1⟩, ⟨91, 98⟩⟩] := by rfl
  have hcrossed : (twoPairs.reorder crossed).analyze.value =
      .ok [⟨⟨2⟩, "I", ⟨0⟩, ⟨91, 98⟩⟩, ⟨⟨3⟩, "Out", ⟨1⟩, ⟨62, 65⟩⟩] := by rfl
  ⟨h, hcrossed, ((analyze_reorder_eq_ok_iff h).2 crossed _).mp hcrossed⟩

end OberonModules.CompilationUnit
