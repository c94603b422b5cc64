import OberonModules.Proofs.CollectedReports
import OberonModules.Proofs.NestedScope

/-!
# The order of names

Two rows of bindings may differ in how bindings of different names are interleaved. A
table into which the one or the other is put answers alike: of what was bound under a
name, only the latest counts. If they are declared, the same names are reported as taken,
with the same hints, and those of each name in the same order.
-/

namespace OberonModules

open Call
open Scopes (insertCalls)

-- ---------------------------------------------------------------------------
-- Rows that differ in their interleaving
-- ---------------------------------------------------------------------------

/-- Lists that agree on what has each key have the same items. -/
theorem perm_of_filter_eq {α κ : Type} [DecidableEq α] [DecidableEq κ] (key : α → κ)
    {first second : List α}
    (h : ∀ k, first.filter (key · = k) = second.filter (key · = k)) : first.Perm second := by
  refine List.perm_iff_count.mpr fun item => ?_
  have hcount : ∀ items : List α,
      items.count item = (items.filter (key · = key item)).count item :=
    fun items => (List.count_filter (by simp)).symm
  rw [hcount first, hcount second, h]

def namesOf (bindings : List (Ident × ModuleId)) : List String :=
  bindings.map fun binding => binding.1.name

def ofName (name : String) (bindings : List (Ident × ModuleId)) : List (Ident × ModuleId) :=
  bindings.filter (·.1.name = name)

/-- Of each name, both have the same bindings in the same order. -/
def Interleaved (first second : List (Ident × ModuleId)) : Prop :=
  ∀ name, ofName name first = ofName name second

variable {first second : List (Ident × ModuleId)}

theorem ofName_eq_nil {name : String} {bindings : List (Ident × ModuleId)}
    (h : name ∉ namesOf bindings) : ofName name bindings = [] := by
  simpa [ofName, namesOf] using h

theorem ofName_cons (name : String) (binding : Ident × ModuleId)
    (bindings : List (Ident × ModuleId)) :
    ofName name (binding :: bindings) =
      if binding.1.name = name then binding :: ofName name bindings else ofName name bindings := by
  simp [ofName, List.filter_cons]

theorem interleaved_iff : Interleaved first second ↔
    ∀ name ∈ namesOf first ++ namesOf second, ofName name first = ofName name second := by
  constructor
  · exact fun h name _ => h name
  · intro h name
    by_cases hname : name ∈ namesOf first ++ namesOf second
    · exact h name hname
    · rw [List.mem_append, not_or] at hname
      rw [ofName_eq_nil hname.1, ofName_eq_nil hname.2]

instance (first second : List (Ident × ModuleId)) : Decidable (Interleaved first second) :=
  decidable_of_iff _ interleaved_iff.symm

theorem Interleaved.perm (h : Interleaved first second) : first.Perm second :=
  perm_of_filter_eq (fun binding : Ident × ModuleId => binding.1.name) h

-- ---------------------------------------------------------------------------
-- Many bindings at once
-- ---------------------------------------------------------------------------

def Scopes.declareCalls (bindings : List (Ident × ModuleId)) : List Call :=
  bindings.map fun binding => .declare binding.1 binding.2

open Scopes (declareCalls)

def Binding.ofPair (binding : Ident × ModuleId) : Binding :=
  ⟨binding.1.name, binding.1.span, binding.2⟩

def Diagnostic.takenMessage (name : String) : String :=
  (redeclared name default default).message

theorem Diagnostic.takenMessage_inj {name other : String} :
    takenMessage name = takenMessage other ↔ name = other := by
  simp [takenMessage, redeclared, plain, withHint]

open Diagnostic (takenMessage takenMessage_inj)

namespace ScopeStack

variable {stack stack' : ScopeStack} {name : String}

def insertAll (stack : ScopeStack) (bindings : List (Ident × ModuleId)) : ScopeStack :=
  { stack with top := (bindings.map Binding.ofPair).reverse ++ stack.top }

theorem foldl_insert (stack : ScopeStack) (bindings : List (Ident × ModuleId)) :
    bindings.foldl (fun stack binding => stack.insert binding.1 binding.2) stack =
      stack.insertAll bindings := by
  induction bindings generalizing stack with
  | nil => rfl
  | cons binding bindings ih =>
    rw [List.foldl_cons, ih]
    simp [insertAll, insert, Binding.ofPair]

theorem after_insertCalls (stack : ScopeStack) (bindings : List (Ident × ModuleId)) :
    stack.after (insertCalls bindings) = stack.insertAll bindings := by
  rw [← foldl_insert]
  exact List.foldl_map

theorem after_declareCalls (stack : ScopeStack) (bindings : List (Ident × ModuleId)) :
    stack.after (declareCalls bindings) = stack.insertAll bindings := by
  rw [← foldl_insert]
  exact List.foldl_map

theorem find?_ofPair (bindings : List (Ident × ModuleId)) (rest : List Binding) (name : String) :
    ((bindings.map Binding.ofPair).reverse ++ rest).find? (·.name = name) =
      ((ofName name bindings).getLast?.map Binding.ofPair).or (rest.find? (·.name = name)) := by
  have hfilter : (bindings.map Binding.ofPair).filter (·.name = name) =
      (ofName name bindings).map Binding.ofPair := by
    rw [List.filter_map]
    rfl
  rw [List.find?_append, ← List.head?_filter, List.filter_reverse, List.head?_reverse, hfilter,
    List.getLast?_map]

/-- The latest new binding of a name, or else what the name had before. -/
theorem findLocal?_insertAll (stack : ScopeStack) (bindings : List (Ident × ModuleId))
    (name : String) :
    (stack.insertAll bindings).findLocal? name =
      ((ofName name bindings).getLast?.map Binding.ofPair).or (stack.findLocal? name) :=
  find?_ofPair bindings stack.top name

theorem lookup?_insertAll (stack : ScopeStack) (bindings : List (Ident × ModuleId))
    (name : String) :
    (stack.insertAll bindings).lookup? name =
      ((ofName name bindings).getLast?.map Binding.ofPair).or (stack.lookup? name) := by
  have h := find?_ofPair bindings (stack.top :: stack.below).flatten name
  rwa [List.flatten_cons, ← List.append_assoc] at h

-- ---------------------------------------------------------------------------
-- Reports of many declarations
-- ---------------------------------------------------------------------------

/-- What calls have to report, one after another. -/
def due (stack : ScopeStack) : List Call → List Diagnostic
  | [] => []
  | call :: rest => call.reports stack ++ due (call.onStack stack) rest

theorem of_mem_reports_declare {diagnostic : Diagnostic} {binding : Ident} {module : ModuleId}
    (h : diagnostic ∈ reports stack (.declare binding module)) :
    diagnostic.code = .moduleRedeclared ∧ diagnostic.message = takenMessage binding.name := by
  rw [reports] at h
  split at h
  · rw [List.mem_singleton.mp h]
    exact ⟨rfl, rfl⟩
  · cases h

theorem filter_reports_declare (stack : ScopeStack) (binding : Ident) (module : ModuleId)
    (name : String) :
    (reports stack (.declare binding module)).filter (·.message = takenMessage name) =
      if binding.name = name then reports stack (.declare binding module) else [] := by
  split
  · rename_i hname
    refine List.filter_eq_self.mpr fun diagnostic hd => ?_
    simp [(of_mem_reports_declare hd).2, hname]
  · rename_i hname
    refine List.filter_eq_nil_iff.mpr fun diagnostic hd => ?_
    simp [(of_mem_reports_declare hd).2, takenMessage_inj, hname]

theorem due_declareCalls_cons (stack : ScopeStack) (binding : Ident × ModuleId)
    (bindings : List (Ident × ModuleId)) :
    stack.due (declareCalls (binding :: bindings)) =
      reports stack (.declare binding.1 binding.2) ++
        (stack.insert binding.1 binding.2).due (declareCalls bindings) := rfl

theorem of_mem_due {diagnostic : Diagnostic} {bindings : List (Ident × ModuleId)}
    (h : diagnostic ∈ stack.due (declareCalls bindings)) :
    diagnostic.code = .moduleRedeclared ∧ ∃ name, diagnostic.message = takenMessage name := by
  induction bindings generalizing stack with
  | nil => cases h
  | cons binding bindings ih =>
    rw [due_declareCalls_cons, List.mem_append] at h
    obtain h | h := h
    · obtain ⟨hcode, hmessage⟩ := of_mem_reports_declare h
      exact ⟨hcode, binding.1.name, hmessage⟩
    · exact ih h

/-- Of the stack, only what the innermost scope has under their name decides what declarations of one
name report. -/
theorem due_congr {bindings : List (Ident × ModuleId)}
    (hb : ∀ binding ∈ bindings, binding.1.name = name)
    (h : stack.findLocal? name = stack'.findLocal? name) :
    stack.due (declareCalls bindings) = stack'.due (declareCalls bindings) := by
  induction bindings generalizing stack stack' with
  | nil => rfl
  | cons binding bindings ih =>
    obtain ⟨hname, hrest⟩ := List.forall_mem_cons.mp hb
    have hinsert : (stack.insert binding.1 binding.2).findLocal? name =
        (stack'.insert binding.1 binding.2).findLocal? name := by
      rw [findLocal?_insert, findLocal?_insert, h]
    rw [due_declareCalls_cons, due_declareCalls_cons, ih hrest hinsert, reports, reports,
      hname, h]

/-- What is reported of a name is reported as if only this name were declared. -/
theorem filter_due (stack : ScopeStack) (bindings : List (Ident × ModuleId)) (name : String) :
    (stack.due (declareCalls bindings)).filter (·.message = takenMessage name) =
      stack.due (declareCalls (ofName name bindings)) := by
  induction bindings generalizing stack with
  | nil => rfl
  | cons binding bindings ih =>
    rw [due_declareCalls_cons, List.filter_append, ih, filter_reports_declare, ofName_cons]
    by_cases hname : binding.1.name = name
    · rw [if_pos hname, if_pos hname, due_declareCalls_cons]
    · rw [if_neg hname, if_neg hname, List.nil_append]
      -- A binding of another name makes no difference to this one.
      have hb : ∀ other ∈ ofName name bindings, other.1.name = name :=
        fun other ho => of_decide_eq_true (List.mem_filter.mp ho).2
      apply due_congr hb
      rw [findLocal?_insert, if_neg hname]

theorem perm_due (stack : ScopeStack) (h : Interleaved first second) :
    (stack.due (declareCalls first)).Perm (stack.due (declareCalls second)) := by
  refine perm_of_filter_eq Diagnostic.message fun message => ?_
  by_cases hname : ∃ name, message = takenMessage name
  · obtain ⟨name, rfl⟩ := hname
    rw [filter_due, filter_due, h name]
  · have hnone : ∀ bindings, (stack.due (declareCalls bindings)).filter (·.message = message) =
        [] := by
      intro bindings
      refine List.filter_eq_nil_iff.mpr fun diagnostic hd hm => hname ?_
      obtain ⟨-, name, hmessage⟩ := of_mem_due hd
      exact ⟨name, (of_decide_eq_true hm).symm.trans hmessage⟩
    rw [hnone, hnone]

end ScopeStack

-- ---------------------------------------------------------------------------
-- Tables
-- ---------------------------------------------------------------------------

namespace ScopeTable

variable {ρ : Type}

/-- The tables answer alike about names: with name, span and module. -/
structure AnswersAlike (table other : ScopeTable ρ) : Prop where
  lookup? : ∀ name, (table.scopes.lookup? name).map Entry.binding =
    (other.scopes.lookup? name).map Entry.binding
  findLocal? : ∀ name, (table.scopes.findLocal? name).map Entry.binding =
    (other.scopes.findLocal? name).map Entry.binding
  size : table.scopes.size = other.scopes.size
  depth : table.scopes.depth = other.scopes.depth

theorem answersAlike_of_stack {table other : ScopeTable ρ} {stack : ScopeStack}
    (h : Interleaved first second) (ht : table.scopes.WellFormed) (ho : other.scopes.WellFormed)
    (hfirst : table.scopes.stack = stack.insertAll first)
    (hsecond : other.scopes.stack = stack.insertAll second) : AnswersAlike table other where
  lookup? := by
    intro name
    rw [Scopes.binding_lookup?, Scopes.binding_lookup?, hfirst, hsecond,
      ScopeStack.lookup?_insertAll, ScopeStack.lookup?_insertAll, h name]
  findLocal? := by
    intro name
    rw [Scopes.binding_findLocal?, Scopes.binding_findLocal?, hfirst, hsecond,
      ScopeStack.findLocal?_insertAll, ScopeStack.findLocal?_insertAll, h name]
  size := by
    rw [ht.size_eq_top, ho.size_eq_top, hfirst, hsecond]
    simp [ScopeStack.insertAll, h.perm.length_eq]
  depth := by
    rw [Scopes.depth_eq_height, Scopes.depth_eq_height, hfirst, hsecond]
    rfl

variable [Reporter ρ]

/-- Calls that put the bindings of a row into the innermost scope, and no more, make no difference
between two rows. -/
theorem answersAlike_run {table : ScopeTable ρ} (htable : table.scopes.WellFormed)
    (h : Interleaved first second) {put : List (Ident × ModuleId) → List Call}
    (hput : ∀ (stack : ScopeStack) bindings, stack.after (put bindings) = stack.insertAll bindings) :
    AnswersAlike (table.run (put first)).value (table.run (put second)).value := by
  have hwf : ∀ calls, (table.run calls).value.scopes.WellFormed := by
    intro calls
    rw [scopes_run]
    exact htable.after calls
  have hstack : ∀ bindings, (table.run (put bindings)).value.scopes.stack =
      table.scopes.stack.insertAll bindings := by
    intro bindings
    rw [scopes_run, htable.stack_after, hput]
  exact answersAlike_of_stack h (hwf _) (hwf _) (hstack first) (hstack second)

theorem value_run (table : ScopeTable ρ) (h : table.scopes.WellFormed) (calls : List Call) :
    (table.run calls).value =
      { table with scopes := table.scopes.after calls }.receive
        (table.scopes.stack.due calls) := by
  induction calls generalizing table with
  | nil => rfl
  | cons call calls ih =>
    have hnext := Call.wellFormed_onScopes h call
    rw [run, Traced.fold_cons, Traced.value_bind, ← run, call.value_perform, ih _ hnext,
      ScopeStack.due, ← receive_receive, scopes_receive, Call.stack_onScopes h call]
    rfl

def redeclarations (table : ScopeTable ρ) (bindings : List (Ident × ModuleId)) : List Diagnostic :=
  table.scopes.stack.due (declareCalls bindings)

/-- It makes no difference to a table which of two rows of bindings is put into it, but for the order
in which different names are reported. -/
structure Interchangeable (table : ScopeTable ρ) (first second : List (Ident × ModuleId)) :
    Prop where
  inserted : AnswersAlike (table.run (insertCalls first)).value
    (table.run (insertCalls second)).value
  declared : AnswersAlike (table.run (declareCalls first)).value
    (table.run (declareCalls second)).value
  reporter_eq : ∀ bindings, (table.run (declareCalls bindings)).value.reporter =
    Reporter.receive table.reporter (table.redeclarations bindings)
  code_eq : ∀ bindings, ∀ diagnostic ∈ table.redeclarations bindings,
    diagnostic.code = .moduleRedeclared ∧ ∃ name, diagnostic.message = takenMessage name
  perm : (table.redeclarations first).Perm (table.redeclarations second)
  sameOrder : ∀ name,
    (table.redeclarations first).filter (·.message = takenMessage name) =
      (table.redeclarations second).filter (·.message = takenMessage name)

/-- In any table, the order of different names does not matter. -/
theorem interchangeable_of_interleaved (reporter : ρ) (calls : List Call)
    (h : Interleaved first second) :
    ((new reporter).run calls).value.Interchangeable first second := by
  have htable := wellFormed_run reporter calls
  generalize ((new reporter).run calls).value = table at htable
  constructor
  case inserted => exact answersAlike_run htable h ScopeStack.after_insertCalls
  case declared => exact answersAlike_run htable h ScopeStack.after_declareCalls
  case reporter_eq =>
    intro bindings
    rw [table.value_run htable]
    rfl
  case code_eq => exact fun _ _ hd => ScopeStack.of_mem_due hd
  case perm => exact table.scopes.stack.perm_due h
  case sameOrder =>
    intro name
    rw [redeclarations, redeclarations, ScopeStack.filter_due, ScopeStack.filter_due,
      h name]

/-- An inner scope in which `A` hides the one outside. -/
def hiddenOutside : List Call :=
  [.insert ⟨"A", ⟨0, 1⟩⟩ ⟨0⟩, .push, .insert ⟨"A", ⟨2, 3⟩⟩ ⟨1⟩]

def mixedRow : List (Ident × ModuleId) :=
  [(⟨"A", ⟨4, 5⟩⟩, ⟨2⟩), (⟨"B", ⟨6, 7⟩⟩, ⟨3⟩), (⟨"A", ⟨8, 9⟩⟩, ⟨4⟩), (⟨"B", ⟨10, 11⟩⟩, ⟨5⟩)]

def sortedRow : List (Ident × ModuleId) :=
  [(⟨"B", ⟨6, 7⟩⟩, ⟨3⟩), (⟨"B", ⟨10, 11⟩⟩, ⟨5⟩), (⟨"A", ⟨4, 5⟩⟩, ⟨2⟩), (⟨"A", ⟨8, 9⟩⟩, ⟨4⟩)]

theorem interchangeable_mixedRow :
    Interleaved mixedRow sortedRow ∧
      ((new Diagnostics.empty).run hiddenOutside).value.Interchangeable mixedRow sortedRow := by
  have h : Interleaved mixedRow sortedRow := by decide
  exact ⟨h, interchangeable_of_interleaved Diagnostics.empty hiddenOutside h⟩

end ScopeTable

end OberonModules
