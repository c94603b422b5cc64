import OberonModules.Proofs.AnalysisRun
import OberonModules.Proofs.ArenaLayout

/-!
# What an analysis leaves in its table

Between two modules, and so after every unit, only the outermost scope is open, and
its arena is the list of the modules so far: one entry for each, in the slot of its
position. The local names of the import lists have taken slots on the way, and the
modules have taken these slots again.
-/

namespace OberonModules

open ImportRules

namespace Scopes

variable {scopes : Scopes} {modules : List Declared}

theorem Holds.outer_eq (h : scopes.Holds modules) : scopes.outer = [] := by
  have hbelow : scopes.outer.map scopes.bindingsOf = [] := congrArg ScopeStack.below h.stack_eq
  exact List.map_eq_nil_iff.mp hbelow

theorem Holds.depth_eq (h : scopes.Holds modules) : scopes.depth = 1 := by
  simp [scopes.depth_eq, h.outer_eq]

/-- The outermost scope has the whole arena. -/
theorem Holds.entries_eq (h : scopes.Holds modules) :
    scopes.entries = scopes.arena.toList.reverse := by
  have hstart : scopes.current.start = 0 := by
    have ht := h.wellFormed.tiled_outer
    rw [h.outer_eq] at ht
    exact ht.stop_eq_zero
  have hentries := h.wellFormed.entriesOf_eq h.wellFormed.owns_current
  rwa [hstart, Array.extract_size] at hentries

theorem Holds.map_binding (h : scopes.Holds modules) :
    scopes.arena.toList.map Entry.binding = modules.map Declared.binding := by
  have htop : scopes.entries.map Entry.binding = (modules.map Declared.binding).reverse :=
    congrArg ScopeStack.top h.stack_eq
  simpa [h.entries_eq] using htop

theorem Holds.size_arena (h : scopes.Holds modules) : scopes.arena.size = modules.length := by
  have hlen := congrArg List.length h.map_binding
  simpa using hlen

theorem Holds.getElem?_arena (h : scopes.Holds modules) {index : Nat} {module : Declared}
    (hm : modules[index]? = some module) :
    ∃ entry, scopes.arena[index]? = some entry ∧ entry.handle.slot = index ∧
      entry.binding = module.binding := by
  have hb := congrArg (·[index]?) h.map_binding
  simp only [List.getElem?_map, hm, Option.map_some, Option.map_eq_some_iff,
    Array.getElem?_toList] at hb
  obtain ⟨entry, he, hbinding⟩ := hb
  exact ⟨entry, he, h.wellFormed.slot_eq index entry he, hbinding⟩

theorem Holds.lookup?_eq (h : scopes.Holds modules) (name : String) :
    scopes.lookup? name = scopes.entries.find? (·.name = name) := by
  have hcurrent : scopes.findIn? scopes.current name = scopes.entries.find? (·.name = name) :=
    scopes.findIn?_eq scopes.current name
  rw [lookup?, h.outer_eq, List.findSome?_cons, ← hcurrent]
  cases scopes.findIn? scopes.current name <;> rfl

/-- Name, span and module of each entry of the current scope with its slot, latest first. -/
def placed (scopes : Scopes) : List (Binding × Nat) :=
  scopes.entries.map fun entry => (entry.binding, entry.handle.slot)

theorem Holds.placed_eq (h : scopes.Holds modules) :
    scopes.placed = (modules.map Declared.binding).zipIdx.reverse := by
  have hslots : scopes.arena.toList.map (fun entry => (entry.binding, entry.handle.slot)) =
      (scopes.arena.toList.map Entry.binding).zipIdx := by
    apply List.ext_getElem?
    intro index
    cases he : scopes.arena[index]? with
    | none => simp [he]
    | some entry => simp [he, h.wellFormed.slot_eq index entry he]
  rw [placed, h.entries_eq, List.map_reverse, hslots, h.map_binding]

/-- Only the outermost scope is open. Its arena has these modules, each in the slot of its
position, and nothing else; a look-up leads to the latest one of a name. -/
structure HoldsOnly (scopes : Scopes) (modules : List Declared) : Prop where
  depth_eq : scopes.depth = 1
  outer_eq : scopes.outer = []
  size_arena : scopes.arena.size = modules.length
  getElem?_arena : ∀ (index : Nat) (module : Declared), modules[index]? = some module →
    ∃ entry, scopes.arena[index]? = some entry ∧ entry.handle.slot = index ∧
      entry.binding = module.binding
  entries_eq : scopes.entries = scopes.arena.toList.reverse
  lookup?_eq : ∀ name, scopes.lookup? name = scopes.entries.find? (·.name = name)
  binding_lookup? : ∀ name,
    (scopes.lookup? name).map Entry.binding = (latest? modules name).map Declared.binding

theorem Holds.holdsOnly (h : scopes.Holds modules) : scopes.HoldsOnly modules where
  depth_eq := h.depth_eq
  outer_eq := h.outer_eq
  size_arena := h.size_arena
  getElem?_arena := fun _ _ => h.getElem?_arena
  entries_eq := h.entries_eq
  lookup?_eq := h.lookup?_eq
  binding_lookup? := fun name => (scopes.binding_lookup? name).trans (h.lookup?_stack name)

end Scopes

/-- After any units, whatever is wrong with them and whatever the checks, the table has their
modules and nothing that an import list has bound. -/
theorem ImportAnalysis.holdsOnly_addUnits {ρ : Type} [Reporter ρ] (reporter : ρ) (checks : Checks)
    (units : List CompilationUnit) :
    ((new reporter checks).addUnits units).value.table.scopes.HoldsOnly (declared units) :=
  (follows_addUnits reporter checks units).holds.holdsOnly

end OberonModules
