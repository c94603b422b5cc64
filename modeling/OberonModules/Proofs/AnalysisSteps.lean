import OberonModules.Proofs.ImportRules
import OberonModules.Proofs.NestedScope
import OberonModules.Proofs.Reports

/-!
# One module of an analysis

The value of every step of the import analysis, in full, on scopes that hold just the
modules declared before. What a step answers and reports is what the rules of imports
say. The bindings of an import list come and go with their scope, and what they were
bound to is never read.
-/

namespace OberonModules

open ImportRules

variable {ρ : Type} [Reporter ρ] {scopes : Scopes} {earlier : List Declared}

-- ---------------------------------------------------------------------------
-- Scopes that hold the modules so far
-- ---------------------------------------------------------------------------

def ImportRules.Declared.binding (module : Declared) : Binding :=
  ⟨module.2.name.name, module.2.name.span, module.1⟩

/-- Only the outermost scope is open, and it holds these modules. -/
structure Scopes.Holds (scopes : Scopes) (modules : List Declared) : Prop where
  wellFormed : scopes.WellFormed
  stack_eq : scopes.stack = ⟨(modules.map Declared.binding).reverse, []⟩

namespace Scopes

theorem holds_empty : empty.Holds [] :=
  ⟨wellFormed_empty, rfl⟩

theorem Holds.skip (h : scopes.Holds earlier) (count : Nat) : (scopes.skip count).Holds earlier :=
  ⟨h.wellFormed.skip count, h.stack_eq⟩

theorem Holds.insert (h : scopes.Holds earlier) (module : Declared) :
    (scopes.insert module.2.name module.1).Holds (earlier ++ [module]) where
  wellFormed := h.wellFormed.insert _ _
  stack_eq := by
    rw [h.wellFormed.stack_insert, h.stack_eq, List.map_append, List.map_singleton,
      List.reverse_concat]
    rfl

theorem Holds.findLocal?_stack (h : scopes.Holds earlier) (name : String) :
    scopes.stack.findLocal? name = (latest? earlier name).map Declared.binding := by
  rw [h.stack_eq, ScopeStack.findLocal?, latest?, ← List.map_reverse, List.find?_map]
  rfl

theorem Holds.lookup?_stack (h : scopes.Holds earlier) (name : String) :
    scopes.stack.lookup? name = (latest? earlier name).map Declared.binding := by
  rw [← h.findLocal?_stack, ScopeStack.lookup?, ScopeStack.findLocal?, h.stack_eq]
  simp only [List.flatten_cons, List.flatten_nil, List.append_nil]

theorem Holds.module_lookup? (h : scopes.Holds earlier) (name : String) :
    (scopes.lookup? name).map Entry.module = (latest? earlier name).map Prod.fst := by
  have hm := scopes.map_lookup? name Binding.module
  rw [h.lookup?_stack, Option.map_map] at hm
  exact hm

theorem Holds.unresolved?_eq (h : scopes.Holds earlier) (name : Ident) :
    ScopeTable.unresolved? scopes name =
      if (latest? earlier name.name).isSome then none
      else some (.undeclared name.name name.span) := by
  have hm := congrArg Option.isSome (h.module_lookup? name.name)
  rw [Option.isSome_map, Option.isSome_map] at hm
  rw [ScopeTable.unresolved?, hm]

theorem Holds.redeclaration?_eq (h : scopes.Holds earlier) (name : Ident) :
    ScopeTable.redeclaration? scopes name =
      (latest? earlier name.name).map fun previous =>
        .redeclared name.name name.span previous.2.name.span := by
  have hm := scopes.map_findLocal? name.name fun previous =>
    Diagnostic.redeclared name.name name.span previous.span
  rw [h.findLocal?_stack, Option.map_map] at hm
  exact hm

end Scopes

namespace ImportAnalysis

-- ---------------------------------------------------------------------------
-- Modules of imports
-- ---------------------------------------------------------------------------

theorem value_resolveImport {table : ScopeTable ρ} (h : table.scopes.Holds earlier)
    (importer : ModuleDecl) (element : Import) :
    (resolveImport importer.name.name table element).value =
      (target? earlier importer element,
        table.receive (targetProblem? earlier importer element).toList) := by
  rw [resolveImport, target?, targetProblem?_eq]
  split
  · rfl
  · rw [ScopeTable.value_resolve, h.module_lookup?, h.unresolved?_eq]

theorem value_resolveImports {table : ScopeTable ρ} (h : table.scopes.Holds earlier)
    (importer : ModuleDecl) (elements : List Import) :
    (resolveImports importer.name.name table elements).value =
      (elements.map fun element => (element, target? earlier importer element),
        table.receive (elements.filterMap (targetProblem? earlier importer))) := by
  induction elements generalizing table with
  | nil => rfl
  | cons element elements ih =>
    have hv := value_resolveImport h importer element
    have hr := @ih (table.receive (targetProblem? earlier importer element).toList) h
    simp only [resolveImports, Traced.value_bind, Traced.value_pure, hv, hr,
      ScopeTable.receive_receive, List.map_cons]
    congr 2
    cases hp : targetProblem? earlier importer element <;> simp [hp]

-- ---------------------------------------------------------------------------
-- Local names of imports
-- ---------------------------------------------------------------------------

/-- Of each local name, the current scope has the first of these imports. -/
def NamesTaken (scopes : Scopes) (before : List Import) : Prop :=
  ∀ name, (scopes.stack.findLocal? name).map Binding.span =
    (before.find? (·.localName.name = name)).map (·.localName.span)

theorem namesTaken_push (h : scopes.WellFormed) : NamesTaken scopes.push [] := by
  intro name
  rw [h.stack_push]
  rfl

theorem NamesTaken.clash {before : List Import} (h : NamesTaken scopes before) {element : Import}
    (hc : before.find? (·.localName.name = element.localName.name) = some first) :
    NamesTaken scopes (before ++ [element]) := by
  intro name
  rw [h name, List.find?_append]
  -- The first import with a name is never left out, so the scope has it already.
  by_cases hn : element.localName.name = name
  · subst hn
    rw [hc]
    rfl
  · simp [hn]

theorem NamesTaken.insert {before : List Import} (h : NamesTaken scopes before)
    (hw : scopes.WellFormed) {element : Import}
    (hc : before.find? (·.localName.name = element.localName.name) = none) (module : ModuleId) :
    NamesTaken (scopes.insert element.localName module) (before ++ [element]) := by
  intro name
  rw [hw.stack_insert, ScopeStack.findLocal?_insert, List.find?_append]
  by_cases hn : element.localName.name = name
  · subst hn
    simp [hc]
  · simp [hn, h name]

theorem duplicate?_eq {checks : Checks} {before : List Import}
    (h : checks.duplicateImports = true → NamesTaken scopes before) (element : Import) :
    duplicate? checks scopes element.localName = clashProblem? checks before element := by
  unfold duplicate? clashProblem? clash?
  split
  · rename_i hc
    let report := Diagnostic.importedTwice element.localName.name element.localName.span
    have hm := scopes.map_findLocal? element.localName.name fun first => report first.span
    have hs := congrArg (Option.map report) (h hc element.localName.name)
    rw [Option.map_map, Option.map_map] at hs
    exact hm.trans hs
  · rfl

def kept (checks : Checks) (before elements : List Import) : List Import :=
  ((withEarlier before elements).filter
    fun (before, element) => (clash? checks before element).isNone).map Prod.snd

section
variable {checks : Checks} {importer : ModuleId} {placeholder : Nat → ModuleId}
variable {table : ScopeTable ρ} {element : Import} {target : Option ModuleId}

theorem value_bindImports_clash {diagnostic : Diagnostic}
    (hd : duplicate? checks table.scopes element.localName = some diagnostic)
    (rest : List (Import × Option ModuleId)) :
    (bindImports checks importer placeholder table ((element, target) :: rest)).value =
      (bindImports checks importer (fun position => placeholder (position + 1))
        (table.receive [diagnostic]) rest).value := by
  rw [bindImports]
  simp only [hd, Traced.value_bind, ScopeTable.value_report]

theorem value_bindImports_keep
    (hd : duplicate? checks table.scopes element.localName = none)
    (rest : List (Import × Option ModuleId)) :
    (bindImports checks importer placeholder table ((element, target) :: rest)).value =
      let (more, table) := (bindImports checks importer (fun position => placeholder (position + 1))
        { table with scopes :=
            table.scopes.insert element.localName (target.getD (placeholder 0)) } rest).value
      ((target.map fun target =>
        ⟨importer, element.localName.name, target, element.span⟩).toList ++ more, table) := by
  rw [bindImports]
  simp only [hd, Traced.value_bind, ScopeTable.value_insert, Traced.value_pure]
end

/-- The imports that take their local name are bound, each to some module; the clashes are
reported; what is answered are the imports to be recorded. -/
theorem value_bindImports (checks : Checks) (earlier : List Declared) (importer : Declared)
    (placeholder : Nat → ModuleId) (table : ScopeTable ρ) (before : List Import)
    (hw : table.scopes.WellFormed)
    (hn : checks.duplicateImports = true → NamesTaken table.scopes before)
    (elements : List Import) :
    ∃ bindings : List (Ident × ModuleId),
      bindings.map Prod.fst = (kept checks before elements).map Import.localName ∧
      (bindImports checks importer.1 placeholder table
          (elements.map fun element => (element, target? earlier importer.2 element))).value =
        ((withEarlier before elements).filterMap
            fun (before, element) => resolution? checks earlier importer before element,
          { table with scopes := table.scopes.insertAll bindings }.receive
            ((withEarlier before elements).filterMap
              fun (before, element) => clashProblem? checks before element)) := by
  induction elements generalizing table before placeholder with
  | nil => exact ⟨[], rfl, rfl⟩
  | cons element elements ih =>
    have hd := duplicate?_eq hn element
    cases hc : clash? checks before element with
    | some first =>
      obtain ⟨hcheck, hfirst⟩ := clash?_eq_some_iff.mp hc
      have hp : clashProblem? checks before element = some (.importedTwice
          element.localName.name element.localName.span first.localName.span) := by
        rw [clashProblem?, hc]
        rfl
      obtain ⟨bindings, hb, hv⟩ := ih (fun position => placeholder (position + 1))
        (table.receive [.importedTwice element.localName.name element.localName.span
          first.localName.span]) (before ++ [element]) hw fun _ => (hn hcheck).clash hfirst
      refine ⟨bindings, ?_, ?_⟩
      · simpa [kept, hc] using hb
      · rw [List.map_cons, value_bindImports_clash (hd.trans hp), hv]
        simp only [withEarlier_cons, List.filterMap_cons, hp, resolution?_of_clash hc]
        rfl
    | none =>
      have hp := clashProblem?_eq_none_iff.mpr hc
      let module := (target? earlier importer.2 element).getD (placeholder 0)
      have hn' : checks.duplicateImports = true →
          NamesTaken (table.scopes.insert element.localName module) (before ++ [element]) := by
        intro hcheck
        rw [clash?_eq_find? hcheck] at hc
        exact (hn hcheck).insert hw hc module
      obtain ⟨bindings, hb, hv⟩ := ih (fun position => placeholder (position + 1))
        { table with scopes := table.scopes.insert element.localName module }
        (before ++ [element]) (hw.insert element.localName module) hn'
      refine ⟨(element.localName, module) :: bindings, ?_, ?_⟩
      · simpa [kept, hc] using hb
      · rw [List.map_cons, value_bindImports_keep (hd.trans hp), hv]
        simp only [withEarlier_cons, List.filterMap_cons, hp, resolution?_of_free hc]
        cases target? earlier importer.2 element <;> rfl

/-- What the bindings of a list, in a scope of their own, answer and leave behind. -/
theorem value_bindImports_scope (checks : Checks) (earlier : List Declared) (importer : Declared)
    (placeholder : Nat → ModuleId) (table : ScopeTable ρ) (h : table.scopes.WellFormed) :
    let bound := (bindImports checks importer.1 placeholder table.push.value
      (importer.2.imports.map fun element => (element, target? earlier importer.2 element))).value
    bound.1 = moduleResolutions checks earlier importer ∧
      bound.2.pop.value =
        { table with
          scopes := table.scopes.skip (kept checks [] importer.2.imports).length }.receive
            ((withEarlier [] importer.2.imports).filterMap
              fun (before, element) => clashProblem? checks before element) := by
  obtain ⟨bindings, hb, hv⟩ := value_bindImports checks earlier importer placeholder
    table.push.value [] h.push (fun _ => namesTaken_push h) importer.2.imports
  have hlen : (kept checks [] importer.2.imports).length = bindings.length := by
    rw [← List.length_map Prod.fst, hb, List.length_map]
  have hpop := Scopes.pop_insertAll_push table.scopes bindings
  simp only [hv, ScopeTable.value_pop, hlen]
  refine ⟨rfl, ?_⟩
  rw [← hpop]
  rfl

-- ---------------------------------------------------------------------------
-- The module itself
-- ---------------------------------------------------------------------------

theorem value_declareModule (checks : Checks) {table : ScopeTable ρ}
    (h : table.scopes.Holds earlier) (id : ModuleId) (declaration : ModuleDecl) :
    (declareModule checks table id declaration).value =
      { table with scopes := table.scopes.insert declaration.name id }.receive
        (nameProblem? checks earlier declaration).toList := by
  rw [declareModule, nameProblem?]
  split
  · rw [Traced.value_bind, ScopeTable.value_declare, h.redeclaration?_eq]
    rfl
  · rfl

/-- An analysis of one module declares it, hands the reporter what is wrong with it, and records
its imports. The insertion count also rises by the names that its imports took. -/
theorem value_addModule (placeholder : Nat → ModuleId) {analysis : ImportAnalysis ρ}
    (h : analysis.table.scopes.Holds earlier) (module : Declared) :
    (addModule placeholder analysis module.1 module.2).value =
      { analysis with
        table := { analysis.table with
          scopes := (analysis.table.scopes.skip
            (kept analysis.checks [] module.2.imports).length).insert module.2.name module.1
          }.receive (moduleProblems analysis.checks earlier module.2)
        imports := analysis.imports ++ moduleResolutions analysis.checks earlier module } := by
  have ht := value_resolveImports h module.2 module.2.imports
  obtain ⟨hresolved, hpop⟩ := value_bindImports_scope analysis.checks earlier module placeholder
    (analysis.table.receive (module.2.imports.filterMap (targetProblem? earlier module.2)))
    h.wellFormed
  simp only [addModule, Traced.value_bind, Traced.value_pure, ht, hresolved, hpop]
  rw [value_declareModule _ (h.skip _)]
  simp only [moduleProblems, ← ScopeTable.receive_receive]
  rfl

end ImportAnalysis

end OberonModules
