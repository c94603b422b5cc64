import OberonModules.Proofs.Calls
import OberonModules.Proofs.Earlier

/-!
# What a table reports

A session with a table that collects its diagnostics: calls, questions, and now and
then what has been collected is taken away. Each call reports what the stack of lists
calls for at that moment, and nothing else is ever reported. Nothing is lost by taking
diagnostics away, and the table does not notice it.
-/

namespace OberonModules

-- ---------------------------------------------------------------------------
-- The rule
-- ---------------------------------------------------------------------------

/-- What a call has to report when the scopes are these. To declare a name is a mistake only if the
innermost scope has it; the hint then leads to the latest declaration there. -/
def Call.reports (stack : ScopeStack) : Call → List Diagnostic
  | .declare name _ =>
    match stack.findLocal? name.name with
    | some previous => [.redeclared name.name name.span previous.span]
    | none => []
  | .resolve name =>
    match stack.lookup? name.name with
    | some _ => []
    | none => [.undeclared name.name name.span]
  | .report diagnostic => [diagnostic]
  | .reportError code message span => [.plain code message span]
  | .insert .. | .push | .pop => []

/-- What calls on a fresh table have to report, each at its moment. -/
def reported (calls : List Call) : List Diagnostic :=
  (withEarlier [] calls).flatMap fun (before, call) => call.reports (ScopeStack.empty.after before)

theorem reported_concat (calls : List Call) (call : Call) :
    reported (calls ++ [call]) = reported calls ++ call.reports (ScopeStack.empty.after calls) := by
  rw [reported, withEarlier_append, List.flatMap_append]
  simp [reported]

namespace Call

variable {ρ : Type} [Reporter ρ]

theorem reports_declare (scopes : Scopes) (name : Ident) (module : ModuleId) :
    reports scopes.stack (.declare name module) =
      (ScopeTable.redeclaration? scopes name).toList := by
  have hm := scopes.map_findLocal? name.name fun previous =>
    Diagnostic.redeclared name.name name.span previous.span
  change _ = ((scopes.findLocal? name.name).map fun previous =>
    Diagnostic.redeclared name.name name.span previous.binding.span).toList
  rw [hm, reports]
  cases scopes.stack.findLocal? name.name <;> rfl

theorem reports_resolve (scopes : Scopes) (name : Ident) :
    reports scopes.stack (.resolve name) = (ScopeTable.unresolved? scopes name).toList := by
  rw [reports, ← Scopes.binding_lookup?, ScopeTable.unresolved?]
  cases scopes.lookup? name.name <;> rfl

/-- A call changes the scopes, and its reporter receives what the rule says. -/
theorem value_perform (table : ScopeTable ρ) (call : Call) :
    (call.perform table).value =
      { table with scopes := call.onScopes table.scopes }.receive
        (call.reports table.scopes.stack) := by
  cases call with
  | declare name module =>
    rw [perform, Traced.value_map, ScopeTable.value_declare, reports_declare]
    rfl
  | resolve name =>
    rw [perform, Traced.value_map, ScopeTable.value_resolve, reports_resolve]
    rfl
  | pop => exact table.value_pop
  | _ => rfl

end Call

-- ---------------------------------------------------------------------------
-- Sessions
-- ---------------------------------------------------------------------------

inductive Question
  | lookup (name : String)
  | findLocal (name : String)
  | entry (handle : Handle)
  | entries
deriving DecidableEq

def Question.answer (scopes : Scopes) : Question → List Entry
  | .lookup name => (scopes.lookup? name).toList
  | .findLocal name => (scopes.findLocal? name).toList
  | .entry handle => (scopes.entry? handle).toList
  | .entries => scopes.entries

inductive Action
  | make (call : Call)
  | ask (question : Question)
  /-- Takes away what has been collected. -/
  | drain
deriving DecidableEq

/-- The table, what has been taken from its reporter so far, and the answers given so far. -/
structure Session where
  table : ScopeTable Diagnostics
  taken : List (List Diagnostic)
  answers : List (List Entry)

def Action.perform (session : Session) : Action → Traced Session
  | .make call => do
    let table ← call.perform session.table
    return { session with table }
  | .ask question =>
    return { session with
      answers := session.answers ++ [question.answer session.table.scopes] }
  | .drain => do
    let (found, table) := session.table.swapReporter .empty
    return { session with table, taken := session.taken ++ [found.toList] }

def Action.call? : Action → Option Call
  | .make call => some call
  | .ask _ | .drain => none

def Action.question? : Action → Option Question
  | .ask question => some question
  | .make _ | .drain => none

def callsOf (actions : List Action) : List Call :=
  actions.filterMap Action.call?

/-- The answers of a table that is given only the calls among these actions. -/
def answersOf (actions : List Action) : List (List Entry) :=
  (withEarlier [] actions).filterMap fun (before, action) =>
    action.question?.map fun question =>
      question.answer ((ScopeTable.new Diagnostics.empty).run (callsOf before)).value.scopes

theorem callsOf_concat (actions : List Action) (action : Action) :
    callsOf (actions ++ [action]) = callsOf actions ++ action.call?.toList := by
  rw [callsOf, List.filterMap_append]
  cases action <;> rfl

theorem answersOf_concat (actions : List Action) (action : Action) :
    answersOf (actions ++ [action]) = answersOf actions ++
      (action.question?.map fun question =>
        question.answer
          ((ScopeTable.new Diagnostics.empty).run (callsOf actions)).value.scopes).toList := by
  rw [answersOf, withEarlier_append, List.filterMap_append]
  cases action <;> rfl

namespace Session

def start : Session :=
  ⟨.new .empty, [], []⟩

def run (session : Session) (actions : List Action) : Traced Session :=
  Traced.fold Action.perform session actions

/-- What was taken and what is still collected make up what the calls report. The scopes, and every
answer on the way, are those of the calls alone. -/
structure Accounts (actions : List Action) (session : Session) : Prop where
  reports_eq : session.taken.flatten ++ session.table.reporter.toList = reported (callsOf actions)
  scopes_eq : session.table.scopes =
    ((ScopeTable.new Diagnostics.empty).run (callsOf actions)).value.scopes
  answers_eq : session.answers = answersOf actions

variable {session : Session} {actions : List Action}

theorem Accounts.make (h : session.Accounts actions) (call : Call) :
    ((Action.make call).perform session).value.Accounts (actions ++ [.make call]) := by
  have hvalue : ((Action.make call).perform session).value =
      { session with table := (call.perform session.table).value } := rfl
  have hstack : session.table.scopes.stack = ScopeStack.empty.after (callsOf actions) := by
    rw [h.scopes_eq, ScopeTable.stack_run]
  rw [hvalue]
  constructor
  · rw [callsOf_concat, Action.call?, Option.toList_some, reported_concat, ← h.reports_eq, ← hstack,
      List.append_assoc, Call.value_perform, ScopeTable.reporter_receive,
      Diagnostics.toList_receive]
  · rw [callsOf_concat, Action.call?, Option.toList_some, ScopeTable.scopes_run,
      Scopes.after_append, ← ScopeTable.scopes_run, ← h.scopes_eq, Call.scopes_perform]
    rfl
  · rw [answersOf_concat, ← h.answers_eq]
    exact (List.append_nil _).symm

theorem Accounts.ask (h : session.Accounts actions) (question : Question) :
    ((Action.ask question).perform session).value.Accounts (actions ++ [.ask question]) := by
  have hcalls : callsOf (actions ++ [.ask question]) = callsOf actions := by
    rw [callsOf_concat]
    exact List.append_nil _
  constructor
  · rw [hcalls]
    exact h.reports_eq
  · rw [hcalls]
    exact h.scopes_eq
  · rw [answersOf_concat, ← h.answers_eq, ← h.scopes_eq]
    rfl

theorem Accounts.drain (h : session.Accounts actions) :
    (Action.drain.perform session).value.Accounts (actions ++ [.drain]) := by
  have hcalls : callsOf (actions ++ [.drain]) = callsOf actions := by
    rw [callsOf_concat]
    exact List.append_nil _
  have htaken : (Action.drain.perform session).value.taken =
      session.taken ++ [session.table.reporter.toList] := rfl
  constructor
  · rw [hcalls, ← h.reports_eq, htaken, List.flatten_append, List.flatten_singleton]
    exact List.append_nil _
  · rw [hcalls]
    exact h.scopes_eq
  · rw [answersOf_concat, ← h.answers_eq]
    exact (List.append_nil _).symm

end Session

end OberonModules
