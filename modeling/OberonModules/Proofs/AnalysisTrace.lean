import OberonModules.Proofs.DeclaredModules
import OberonModules.Proofs.Interleavings
import OberonModules.Proofs.ScopeTrace

/-!
# The log of an analysis

Every line that an analysis logs, by the rules of imports. A module that is missing has no
id; the name of its import is bound to a placeholder, and the placeholders, one for each
import, are a parameter here. The line of such a binding is the only one that tells of its
placeholder.
-/

namespace OberonModules

open ImportRules

namespace ImportRules

variable {checks : Checks} {earlier : List Declared} {importer : Declared}
variable {placeholder : Nat → ModuleId} {before : List Import} {element : Import}

/-- The line of the local name of an import, two scopes deep. The placeholder of an import is chosen
by its position in the list. -/
def bindingLine (checks : Checks) (earlier : List Declared) (importer : Declared)
    (placeholder : Nat → ModuleId) (before : List Import) (element : Import) : LogEvent :=
  match clashProblem? checks before element with
  | some diagnostic => .reporting diagnostic
  | none => .declared element.localName.name
      ((target? earlier importer.2 element).getD (placeholder before.length)) 2

def bindingLines (checks : Checks) (earlier : List Declared) (importer : Declared)
    (placeholder : Nat → ModuleId) : List LogEvent :=
  (withEarlier [] importer.2.imports).map fun (before, element) =>
    bindingLine checks earlier importer placeholder before element

/-- The lines of one module: the modules it imports, their local names in a scope of their own, and
its own name. -/
def moduleLines (checks : Checks) (earlier : List Declared) (placeholder : Nat → ModuleId)
    (module : Declared) : List LogEvent :=
  .analyzing module.2.name.name ::
    (module.2.imports.filterMap (targetProblem? earlier module.2)).map .reporting ++
    .entered 2 :: bindingLines checks earlier module placeholder ++
    .leaving 2 (ImportAnalysis.kept checks [] module.2.imports).length ::
    (nameProblem? checks earlier module.2).toList.map .reporting ++
    [.declared module.2.name.name module.1 1]

/-- The lines of modules one after another, which come after these `earlier` ones. -/
def modulesLines (checks : Checks) (placeholder : ModuleId → Nat → ModuleId)
    (earlier modules : List Declared) : List LogEvent :=
  (withEarlier earlier modules).flatMap fun (earlier, module) =>
    moduleLines checks earlier (placeholder module.1) module

/-- The lines of units one after another. Ids are those of the unit, so the placeholders also
depend on its number. -/
def unitsLines (checks : Checks) (placeholder : Nat → ModuleId → Nat → ModuleId)
    (before units : List CompilationUnit) : List LogEvent :=
  (withEarlier before units).flatMap fun (before, unit) =>
    modulesLines checks (placeholder before.length) (declared before) unit.declarations

theorem diagnostic?_bindingLine :
    (bindingLine checks earlier importer placeholder before element).diagnostic? =
      clashProblem? checks before element := by
  unfold bindingLine
  cases clashProblem? checks before element <;> rfl

theorem filterMap_bindingLines (checks : Checks) (earlier : List Declared) (importer : Declared)
    (placeholder : Nat → ModuleId) :
    (bindingLines checks earlier importer placeholder).filterMap LogEvent.diagnostic? =
      (withEarlier [] importer.2.imports).filterMap
        fun (before, element) => clashProblem? checks before element := by
  rw [bindingLines, List.filterMap_map]
  refine List.filterMap_congr fun pair _ => ?_
  exact diagnostic?_bindingLine

theorem filterMap_moduleLines (checks : Checks) (earlier : List Declared)
    (placeholder : Nat → ModuleId) (module : Declared) :
    (moduleLines checks earlier placeholder module).filterMap LogEvent.diagnostic? =
      moduleProblems checks earlier module.2 := by
  simp only [moduleLines, moduleProblems, List.filterMap_append, List.filterMap_cons,
    List.filterMap_nil, LogEvent.diagnostic?, LogEvent.filterMap_reporting, filterMap_bindingLines,
    List.append_nil]

end ImportRules

/-- The line that leaves the scope of an import list. -/
theorem ScopeTable.log_pop_insertAll {ρ : Type} {scopes : Scopes} {modules : List Declared}
    (h : scopes.Holds modules) (reporter : ρ) (bindings : List (Ident × ModuleId)) :
    (⟨scopes.push.insertAll bindings, reporter⟩ : ScopeTable ρ).pop.log =
      [.leaving 2 bindings.length] := by
  have hw := h.wellFormed.push
  have hstack : (scopes.push.insertAll bindings).stack = scopes.stack.push.insertAll bindings := by
    rw [← Scopes.after_insertCalls, hw.stack_after, h.wellFormed.stack_push,
      ScopeStack.after_insertCalls]
  have hinserted : (scopes.push.insertAll bindings).WellFormed := by
    rw [← Scopes.after_insertCalls]
    exact hw.after _
  rw [log_pop _ hinserted, hstack, h.stack_eq]
  simp [Call.moves, ScopeStack.push, ScopeStack.insertAll, ScopeStack.height]

namespace ImportAnalysis

variable {ρ : Type} [Reporter ρ] {earlier : List Declared}

-- ---------------------------------------------------------------------------
-- The lines of one module
-- ---------------------------------------------------------------------------

theorem log_resolveImport {table : ScopeTable ρ} (h : table.scopes.Holds earlier)
    (importer : ModuleDecl) (element : Import) :
    (resolveImport importer.name.name table element).log =
      Reporter.remarked table.reporter
        ((targetProblem? earlier importer element).toList.map .reporting) := by
  rw [resolveImport, targetProblem?_eq]
  split
  · simp [ScopeTable.log_report]
  · rw [ScopeTable.log_resolve, h.unresolved?_eq]

theorem log_resolveImports {table : ScopeTable ρ} (h : table.scopes.Holds earlier)
    (importer : ModuleDecl) (elements : List Import) :
    (resolveImports importer.name.name table elements).log =
      Reporter.remarked table.reporter
        ((elements.filterMap (targetProblem? earlier importer)).map .reporting) := by
  induction elements generalizing table with
  | nil => rfl
  | cons element elements ih =>
    have hvalue := value_resolveImport h importer element
    have hrest := @ih (table.receive (targetProblem? earlier importer element).toList) h
    have hsplit : (element :: elements).filterMap (targetProblem? earlier importer) =
        (targetProblem? earlier importer element).toList ++
          elements.filterMap (targetProblem? earlier importer) := by
      cases hp : targetProblem? earlier importer element <;> simp [hp]
    rw [hsplit, List.map_append, Reporter.remarked_append, LogEvent.filterMap_reporting]
    simp [resolveImports, hvalue, hrest, log_resolveImport h]

section
variable {checks : Checks} {importer : ModuleId} {placeholder : Nat → ModuleId}
variable {table : ScopeTable ρ} {element : Import} {target : Option ModuleId}

theorem log_bindImports_clash {diagnostic : Diagnostic}
    (hd : duplicate? checks table.scopes element.localName = some diagnostic)
    (rest : List (Import × Option ModuleId)) :
    (bindImports checks importer placeholder table ((element, target) :: rest)).log =
      Reporter.remarked table.reporter [.reporting diagnostic] ++
        (bindImports checks importer (fun position => placeholder (position + 1))
          (table.receive [diagnostic]) rest).log := by
  rw [bindImports]
  simp only [hd, Traced.log_bind, ScopeTable.log_report, ScopeTable.value_report]

theorem log_bindImports_keep
    (hd : duplicate? checks table.scopes element.localName = none)
    (rest : List (Import × Option ModuleId)) :
    (bindImports checks importer placeholder table ((element, target) :: rest)).log =
      .declared element.localName.name (target.getD (placeholder 0)) table.scopes.depth ::
        (bindImports checks importer (fun position => placeholder (position + 1))
          { table with scopes :=
              table.scopes.insert element.localName (target.getD (placeholder 0)) } rest).log := by
  rw [bindImports]
  simp only [hd, Traced.log_bind, Traced.log_pure, ScopeTable.value_insert, List.append_nil]
  rfl
end

/-- The lines of the imports that follow those `before` in their list, which have the first of the
placeholders. -/
theorem log_bindImports (checks : Checks) (earlier : List Declared) (importer : Declared)
    (placeholder : Nat → ModuleId) (table : ScopeTable ρ) (before : List Import)
    (hw : table.scopes.WellFormed) (hd : table.scopes.depth = 2)
    (hn : checks.duplicateImports = true → NamesTaken table.scopes before)
    (elements : List Import) :
    (bindImports checks importer.1 (fun position => placeholder (before.length + position)) table
        (elements.map fun element => (element, target? earlier importer.2 element))).log =
      Reporter.remarked table.reporter
        ((withEarlier before elements).map fun (before, element) =>
          bindingLine checks earlier importer placeholder before element) := by
  induction elements generalizing table before with
  | nil => rfl
  | cons element elements ih =>
    have hdup := duplicate?_eq hn element
    -- The rest of the list goes on with the placeholder of the next position.
    have hlater := shift_concat placeholder before element
    rw [List.map_cons, withEarlier_cons, List.map_cons]
    cases hc : clashProblem? checks before element with
    | some diagnostic =>
      obtain ⟨first, hfirst, -⟩ := Option.map_eq_some_iff.mp hc
      obtain ⟨hcheck, hclash⟩ := clash?_eq_some_iff.mp hfirst
      have htail := ih (table.receive [diagnostic]) (before ++ [element]) hw hd
        fun _ => (hn hcheck).clash hclash
      have hline : bindingLine checks earlier importer placeholder before element =
          .reporting diagnostic := by rw [bindingLine, hc]
      simp only [hline]
      rw [log_bindImports_clash (hdup.trans hc), hlater, htail]
      exact (Reporter.remarked_append table.reporter [.reporting diagnostic] _).symm
    | none =>
      let module := (target? earlier importer.2 element).getD (placeholder before.length)
      have hn' : checks.duplicateImports = true →
          NamesTaken (table.scopes.insert element.localName module) (before ++ [element]) := by
        intro hcheck
        rw [clashProblem?_eq_none_iff, clash?_eq_find? hcheck] at hc
        exact (hn hcheck).insert hw hc module
      have htail := ih { table with scopes := table.scopes.insert element.localName module }
        (before ++ [element]) (hw.insert element.localName module) hd hn'
      have hline : bindingLine checks earlier importer placeholder before element =
          .declared element.localName.name module 2 := by rw [bindingLine, hc]
      simp only [hline]
      rw [log_bindImports_keep (hdup.trans hc), hlater, hd, Nat.add_zero, htail]
      rfl

theorem log_bindImports_scope (checks : Checks) (importer : Declared)
    (placeholder : Nat → ModuleId) (table : ScopeTable ρ) (h : table.scopes.Holds earlier) :
    let bound := bindImports checks importer.1 placeholder table.push.value
      (importer.2.imports.map fun element => (element, target? earlier importer.2 element))
    bound.log = Reporter.remarked table.reporter
        (bindingLines checks earlier importer placeholder) ∧
      bound.value.2.pop.log = [.leaving 2 (kept checks [] importer.2.imports).length] := by
  have hlog := log_bindImports checks earlier importer placeholder table.push.value []
    h.wellFormed.push (congrArg (· + 1) h.depth_eq) (fun _ => namesTaken_push h.wellFormed)
    importer.2.imports
  obtain ⟨bindings, hb, hvalue⟩ := value_bindImports checks earlier importer placeholder
    table.push.value [] h.wellFormed.push (fun _ => namesTaken_push h.wellFormed)
    importer.2.imports
  have hlen : (kept checks [] importer.2.imports).length = bindings.length := by
    rw [← List.length_map Prod.fst, hb, List.length_map]
  simp only [List.length_nil, Nat.zero_add] at hlog
  refine ⟨hlog, ?_⟩
  rw [hvalue, hlen]
  exact ScopeTable.log_pop_insertAll h _ bindings

theorem log_declareModule (checks : Checks) {table : ScopeTable ρ}
    (h : table.scopes.Holds earlier) (id : ModuleId) (declaration : ModuleDecl) :
    (declareModule checks table id declaration).log =
      Reporter.remarked table.reporter
          ((nameProblem? checks earlier declaration).toList.map .reporting) ++
        [.declared declaration.name.name id 1] := by
  have hheight : table.scopes.stack.height = 1 := by
    rw [← Scopes.depth_eq_height, h.depth_eq]
  rw [declareModule, nameProblem?]
  split
  · simp [ScopeTable.log_declare, h.redeclaration?_eq, hheight]
  · simp [ScopeTable.log_insert, hheight, Reporter.remarked]

theorem log_addModule (placeholder : Nat → ModuleId) {analysis : ImportAnalysis ρ}
    (h : analysis.table.scopes.Holds earlier) (module : Declared) :
    (addModule placeholder analysis module.1 module.2).log =
      Reporter.remarked analysis.table.reporter
        (moduleLines analysis.checks earlier placeholder module) := by
  have hheight : analysis.table.scopes.stack.height = 1 := by
    rw [← Scopes.depth_eq_height, h.depth_eq]
  have htargets := value_resolveImports h module.2 module.2.imports
  obtain ⟨hlog, hleave⟩ := log_bindImports_scope analysis.checks module placeholder
    (analysis.table.receive (module.2.imports.filterMap (targetProblem? earlier module.2))) h
  obtain ⟨-, hpop⟩ := value_bindImports_scope analysis.checks earlier module placeholder
    (analysis.table.receive (module.2.imports.filterMap (targetProblem? earlier module.2)))
    h.wellFormed
  simp only [addModule, Traced.log_bind, Traced.log_pure, Traced.log_emit, htargets,
    log_resolveImports h, ScopeTable.log_push, hlog, hleave, hpop]
  rw [log_declareModule _ (h.skip _)]
  simp only [moduleLines, Reporter.remarked_append, Reporter.remarked, LogEvent.diagnostic?,
    LogEvent.filterMap_reporting, filterMap_bindingLines, ScopeTable.scopes_receive,
    ScopeTable.reporter_receive, Reporter.receive_receive, hheight, List.cons_append,
    List.nil_append, List.append_assoc, List.append_nil]

-- ---------------------------------------------------------------------------
-- The lines of units
-- ---------------------------------------------------------------------------

/-- What is done next with the analysis logs these lines, and its reporter receives the diagnostics
that they announce. -/
structure Logs (lines : List LogEvent) (analysis : ImportAnalysis ρ)
    (next : Traced (ImportAnalysis ρ)) : Prop where
  log_eq : next.log = Reporter.remarked analysis.table.reporter lines
  reporter_eq : next.value.table.reporter =
    Reporter.receive analysis.table.reporter (lines.filterMap LogEvent.diagnostic?)

section
variable {reporter : ρ} {checks : Checks} {modules : List Declared} {analysis : ImportAnalysis ρ}
variable {first second : List LogEvent} {next : Traced (ImportAnalysis ρ)}

theorem logs_pure (analysis : ImportAnalysis ρ) : Logs [] analysis (pure analysis) :=
  ⟨rfl, rfl⟩

theorem Logs.bind {more : ImportAnalysis ρ → Traced (ImportAnalysis ρ)}
    (h : Logs first analysis next) (h' : Logs second next.value (more next.value)) :
    Logs (first ++ second) analysis (next >>= more) where
  log_eq := by
    rw [Traced.log_bind, h.log_eq, h'.log_eq, h.reporter_eq, Reporter.remarked_append]
  reporter_eq := by
    rw [Traced.value_bind, h'.reporter_eq, h.reporter_eq, Reporter.receive_receive,
      List.filterMap_append]

theorem Follows.logs_addModule (h : Follows reporter checks modules analysis)
    (placeholder : Nat → ModuleId) (module : Declared) :
    Logs (moduleLines checks modules placeholder module) analysis
      (ImportAnalysis.addModule placeholder analysis module.1 module.2) where
  log_eq := by rw [log_addModule placeholder h.holds, h.checks_eq]
  reporter_eq := by
    rw [value_addModule placeholder h.holds, filterMap_moduleLines, h.checks_eq]
    rfl

theorem Follows.logs_addUnitUsing (h : Follows reporter checks modules analysis)
    (placeholder : ModuleId → Nat → ModuleId) (unit : CompilationUnit) :
    Logs (modulesLines checks placeholder modules unit.declarations) analysis
      (ImportAnalysis.addUnitUsing placeholder analysis unit) := by
  rw [ImportAnalysis.addUnitUsing, modulesLines]
  generalize unit.declarations = more
  induction more generalizing modules analysis with
  | nil => exact logs_pure analysis
  | cons module more ih =>
    rw [Traced.fold_cons, withEarlier_cons, List.flatMap_cons]
    exact (h.logs_addModule (placeholder module.1) module).bind
      (ih (h.addModule (placeholder module.1) module))

/-- Analyzes units one after another. The placeholders may depend on the number of the unit. -/
def addUnitsUsing (placeholder : Nat → ModuleId → Nat → ModuleId) (analysis : ImportAnalysis ρ) :
    List CompilationUnit → Traced (ImportAnalysis ρ)
  | [] => return analysis
  | unit :: units => do
    let analysis ← addUnitUsing (placeholder 0) analysis unit
    addUnitsUsing (fun number => placeholder (number + 1)) analysis units

theorem Follows.logs_addUnitsUsing {before : List CompilationUnit}
    (h : Follows reporter checks (declared before) analysis)
    (placeholder : Nat → ModuleId → Nat → ModuleId) (units : List CompilationUnit) :
    Logs (unitsLines checks placeholder before units) analysis
      (ImportAnalysis.addUnitsUsing (fun number => placeholder (before.length + number))
        analysis units) := by
  induction units generalizing before analysis with
  | nil => exact logs_pure analysis
  | cons unit units ih =>
    have hafter := h.addUnitUsing (placeholder before.length) unit
    rw [← declared_concat] at hafter
    rw [ImportAnalysis.addUnitsUsing, unitsLines, withEarlier_cons, List.flatMap_cons,
      shift_concat placeholder before unit]
    exact (h.logs_addUnitUsing (placeholder before.length) unit).bind (ih hafter)

end

/-- The whole log of an analysis of units. -/
theorem log_addUnitsUsing (reporter : ρ) (checks : Checks)
    (placeholder : Nat → ModuleId → Nat → ModuleId) (units : List CompilationUnit) :
    (addUnitsUsing placeholder (new reporter checks) units).log =
      Reporter.remarked reporter (unitsLines checks placeholder [] units) := by
  have hnew : Follows reporter checks (declared []) (new reporter checks) :=
    follows_new reporter checks
  have hlogs := hnew.logs_addUnitsUsing placeholder units
  simp only [List.length_nil, Nat.zero_add] at hlogs
  exact hlogs.log_eq

end ImportAnalysis

end OberonModules
