import OberonModules.Proofs.ReceivingOnly

/-!
# The log of a table

Whatever is done with a table, the log tells of it: each declaration with its depth,
each diagnostic, each scope that is entered or left. Reading the log alone one can
follow the scopes: a line that leaves a scope closes the latest one still open, and
counts what was declared in it.

A reporter may log lines of its own. They come right after the line that announces
the diagnostic, and are all that a reporter can change about the log.
-/

namespace OberonModules

-- ---------------------------------------------------------------------------
-- The lines of a call
-- ---------------------------------------------------------------------------

namespace LogEvent

/-- The diagnostic that a line announces. -/
def diagnostic? : LogEvent → Option Diagnostic
  | .reporting diagnostic => some diagnostic
  | .declared .. | .entered _ | .leaving .. | .analyzing _ | .renderFailed .. => none

theorem filterMap_reporting (diagnostics : List Diagnostic) :
    (diagnostics.map reporting).filterMap diagnostic? = diagnostics := by
  rw [List.filterMap_map]
  exact List.filterMap_some

def declaresAt (depth : Nat) : LogEvent → Bool
  | .declared _ _ here => here = depth
  | .reporting _ | .entered _ | .leaving .. | .analyzing _ | .renderFailed .. => false

@[simp] theorem declaresAt_declared (depth here : Nat) (name : String) (module : ModuleId) :
    (declared name module here).declaresAt depth = decide (here = depth) := rfl

@[simp] theorem declaresAt_entered (depth here : Nat) :
    (entered here).declaresAt depth = false := rfl

@[simp] theorem declaresAt_leaving (depth here entries : Nat) :
    (leaving here entries).declaresAt depth = false := rfl

/-- The line tells of a scope that is entered or left. -/
def isBound : LogEvent → Bool
  | .entered _ | .leaving .. => true
  | .declared .. | .reporting _ | .analyzing _ | .renderFailed .. => false

end LogEvent

namespace Call

/-- What a call logs about the scopes when they are these. The outermost scope is never left. -/
def moves (stack : ScopeStack) : Call → List LogEvent
  | .insert name module | .declare name module => [.declared name.name module stack.height]
  | .push => [.entered (stack.height + 1)]
  | .pop => if stack.below.isEmpty then [] else [.leaving stack.height stack.top.length]
  | .resolve _ | .report _ | .reportError .. => []

/-- What there is to report is announced first. -/
def lines (stack : ScopeStack) (call : Call) : List LogEvent :=
  (call.reports stack).map .reporting ++ call.moves stack

end Call

namespace Call

end Call

variable {ρ : Type}

namespace ScopeTable

theorem log_insert (table : ScopeTable ρ) (name : Ident) (module : ModuleId) :
    (table.insert name module).log = [.declared name.name module table.scopes.stack.height] := by
  simp [insert, table.scopes.depth_eq_height]

theorem log_push (table : ScopeTable ρ) :
    table.push.log = [.entered (table.scopes.stack.height + 1)] := by
  simp [push, Scopes.push, table.scopes.depth_eq_height]

theorem log_pop (table : ScopeTable ρ) (h : table.scopes.WellFormed) :
    table.pop.log = Call.moves table.scopes.stack .pop := by
  have hbelow : table.scopes.stack.below.isEmpty = table.scopes.isOutermost := by
    simp [Scopes.stack, Scopes.isOutermost]
  rw [pop, Call.moves, hbelow]
  split
  · rfl
  · simp [table.scopes.depth_eq_height, h.size_eq_top]

end ScopeTable

variable [Reporter ρ]

namespace Reporter

/-- These lines with what the reporter adds to them as it receives the diagnostics. -/
def remarked (reporter : ρ) : List LogEvent → List LogEvent
  | [] => []
  | line :: rest =>
    match line.diagnostic? with
    | none => line :: remarked reporter rest
    | some diagnostic =>
      let told := Reporter.report reporter diagnostic
      line :: told.log ++ remarked told.value rest

theorem remarked_append (reporter : ρ) (first second : List LogEvent) :
    remarked reporter (first ++ second) = remarked reporter first ++
      remarked (receive reporter (first.filterMap LogEvent.diagnostic?)) second := by
  induction first generalizing reporter with
  | nil => rfl
  | cons line first ih =>
    rw [List.cons_append, remarked, remarked]
    cases h : line.diagnostic? with
    | none => simp [ih, h]
    | some diagnostic => simp [ih, h, receive]

end Reporter

namespace ScopeTable

theorem log_report (table : ScopeTable ρ) (diagnostic : Diagnostic) :
    (table.report diagnostic).log = Reporter.remarked table.reporter [.reporting diagnostic] := by
  simp [report, Reporter.remarked, LogEvent.diagnostic?]

/-- A redeclaration is announced before the declaration it is about. -/
theorem log_declare (table : ScopeTable ρ) (name : Ident) (module : ModuleId) :
    (table.declare name module).log =
      Reporter.remarked table.reporter
          ((redeclaration? table.scopes name).toList.map .reporting) ++
        [.declared name.name module table.scopes.stack.height] := by
  rw [declare]
  cases redeclaration? table.scopes name with
  | none => simp [log_insert, Reporter.remarked]
  | some diagnostic => simp [log_report, log_insert]

theorem log_resolve (table : ScopeTable ρ) (name : Ident) :
    (table.resolve name).log =
      Reporter.remarked table.reporter
        ((unresolved? table.scopes name).toList.map .reporting) := by
  rw [resolve, unresolved?]
  cases table.scopes.lookup? name.name with
  | none => simp [log_report]
  | some entry => rfl

end ScopeTable

namespace Request

def call? : Request → Option Call
  | .make call => some call
  | .ask _ => none

def calls (requests : List Request) : List Call :=
  requests.filterMap call?

theorem stack_onScopes {scopes : Scopes} (h : scopes.WellFormed) (request : Request) :
    (request.onScopes scopes).stack = scopes.stack.after request.call?.toList := by
  cases request with
  | make call => exact Call.stack_onScopes h call
  | ask question => rfl

theorem wellFormed_onScopes {scopes : Scopes} (h : scopes.WellFormed) (request : Request) :
    (request.onScopes scopes).WellFormed := by
  cases request with
  | make call => exact Call.wellFormed_onScopes h call
  | ask question => exact h

end Request

namespace ScopeTable

end ScopeTable

-- ---------------------------------------------------------------------------
-- Scopes in a log
-- ---------------------------------------------------------------------------

/-- Every scope entered in these lines is left in them, and none else is. -/
inductive Closed : List LogEvent → Prop
  | nil : Closed []
  | line {lines : List LogEvent} {event : LogEvent} (h : Closed lines)
      (he : event.isBound = false) : Closed (lines ++ [event])
  | scope {lines inside : List LogEvent} {depth entries : Nat} (h : Closed lines)
      (hinside : Closed inside) :
      Closed (lines ++ (.entered depth :: inside ++ [.leaving depth entries]))

/-- The lines since a scope at this depth was entered. Scopes further in have been left again, and
what was declared in the scope is what it has. -/
structure Inside (depth entries : Nat) (lines : List LogEvent) : Prop where
  closed : Closed lines
  le_depth : ∀ line ∈ lines, ∀ here, line.declaresAt here = true → depth ≤ here
  count_eq : lines.countP (·.declaresAt depth) = entries

namespace Inside

variable {depth entries : Nat} {lines : List LogEvent}

theorem nil (depth : Nat) : Inside depth 0 [] :=
  ⟨.nil, by simp, rfl⟩

theorem line (h : Inside depth entries lines) {event : LogEvent} (he : event.isBound = false)
    (hd : ∀ here, event.declaresAt here = false) : Inside depth entries (lines ++ [event]) where
  closed := h.closed.line he
  le_depth := by
    intro line hm here hh
    rcases List.mem_append.mp hm with hm | hm
    · exact h.le_depth line hm here hh
    · rw [List.mem_singleton.mp hm, hd here] at hh
      cases hh
  count_eq := by simp [h.count_eq, hd]

theorem declared (h : Inside depth entries lines) (name : String) (module : ModuleId) :
    Inside depth (entries + 1) (lines ++ [.declared name module depth]) where
  closed := h.closed.line rfl
  le_depth := by
    intro line hm here hh
    rcases List.mem_append.mp hm with hm | hm
    · exact h.le_depth line hm here hh
    · rw [List.mem_singleton.mp hm] at hh
      exact Nat.le_of_eq (of_decide_eq_true hh)
  count_eq := by simp [h.count_eq]

/-- A scope further in that is left again has declared nothing at this depth. -/
theorem scope (h : Inside depth entries lines) {inner : List LogEvent} {more : Nat}
    (hinner : Inside (depth + 1) more inner) :
    Inside depth entries
      (lines ++ (.entered (depth + 1) :: inner ++ [.leaving (depth + 1) more])) where
  closed := h.closed.scope hinner.closed
  le_depth := by
    intro line hm here hh
    simp only [List.mem_append, List.mem_cons, List.not_mem_nil, or_false] at hm
    rcases hm with hm | (rfl | hm) | rfl
    · exact h.le_depth line hm here hh
    · cases hh
    · exact Nat.le_of_succ_le (hinner.le_depth line hm here hh)
    · cases hh
  count_eq := by
    have hnone : inner.countP (·.declaresAt depth) = 0 := by
      rw [List.countP_eq_zero]
      intro line hm hh
      exact absurd (hinner.le_depth line hm depth hh) (Nat.not_succ_le_self depth)
    simp [h.count_eq, hnone]

end Inside

/-- The lines lead to these lists: one list for each scope not left yet, with the declarations since
it was entered. -/
inductive TracedBy : ScopeStack → List LogEvent → Prop
  | outermost {top : List Binding} {lines : List LogEvent} (h : Inside 1 top.length lines) :
      TracedBy ⟨top, []⟩ lines
  | nested {outer : ScopeStack} {top : List Binding} {before inner : List LogEvent}
      (lower : TracedBy outer before) (h : Inside (outer.height + 1) top.length inner) :
      TracedBy ⟨top, outer.top :: outer.below⟩ (before ++ .entered (outer.height + 1) :: inner)

namespace TracedBy

variable {stack : ScopeStack} {lines : List LogEvent}

/-- Lines that keep to the innermost scope. -/
theorem append {more : List LogEvent} {top : List Binding} (h : TracedBy stack lines)
    (hmore : ∀ inner, Inside stack.height stack.top.length inner →
      Inside stack.height top.length (inner ++ more)) :
    TracedBy { stack with top } (lines ++ more) := by
  cases h with
  | outermost h => exact .outermost (hmore _ h)
  | nested lower h =>
    rw [List.append_assoc, List.cons_append]
    exact .nested lower (hmore _ h)

theorem moves (h : TracedBy stack lines) (call : Call) :
    TracedBy (call.onStack stack) (lines ++ call.moves stack) := by
  have hstays : TracedBy stack (lines ++ []) := by rwa [List.append_nil]
  cases call with
  | insert name module => exact h.append fun inner hi => hi.declared name.name module
  | declare name module => exact h.append fun inner hi => hi.declared name.name module
  | push => exact .nested h (.nil _)
  | pop =>
    cases h with
    | outermost h => exact hstays
    | @nested outer top before inner lower h =>
      have hleft := lower.append fun inside hi => hi.scope h
      rw [← List.append_assoc] at hleft
      exact hleft
  | _ => exact hstays

end TracedBy

end OberonModules
