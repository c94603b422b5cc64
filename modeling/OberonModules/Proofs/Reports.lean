import OberonModules.ScopeTable

/-!
# What operations report

A reporter is told of diagnostics one at a time. The value of every operation on a
table is given here in full: what it answers, what becomes of the scopes, and which
diagnostics the reporter receives. What is received never depends on the reporter.
-/

namespace OberonModules

variable {ρ : Type} [Reporter ρ]

/-- The reporter after these diagnostics, one after another. -/
def Reporter.receive (reporter : ρ) (diagnostics : List Diagnostic) : ρ :=
  diagnostics.foldl (fun reporter diagnostic => (Reporter.report reporter diagnostic).value)
    reporter

theorem Reporter.receive_concat (reporter : ρ) (diagnostics : List Diagnostic)
    (diagnostic : Diagnostic) :
    Reporter.receive reporter (diagnostics ++ [diagnostic]) =
      (Reporter.report (Reporter.receive reporter diagnostics) diagnostic).value :=
  List.foldl_append ..

@[simp] theorem Reporter.receive_receive (reporter : ρ) (first second : List Diagnostic) :
    Reporter.receive (Reporter.receive reporter first) second =
      Reporter.receive reporter (first ++ second) :=
  List.foldl_append.symm

/-- What every report preserves, receiving preserves. -/
theorem Reporter.receive_induction {P : ρ → Prop} {reporter : ρ} (h : P reporter)
    (step : ∀ reporter diagnostic, P reporter → P (Reporter.report reporter diagnostic).value)
    (diagnostics : List Diagnostic) : P (Reporter.receive reporter diagnostics) := by
  induction diagnostics generalizing reporter with
  | nil => exact h
  | cons diagnostic diagnostics ih => exact ih (step reporter diagnostic h)

@[simp] theorem Diagnostics.toList_receive (diagnostics : Diagnostics) (more : List Diagnostic) :
    (Reporter.receive diagnostics more).toList = diagnostics.toList ++ more := by
  induction more generalizing diagnostics with
  | nil => simp [Reporter.receive]
  | cons diagnostic more ih =>
    have h := ih (diagnostics.push diagnostic)
    rwa [toList_push, List.append_assoc, List.singleton_append] at h

namespace ScopeTable

def receive (table : ScopeTable ρ) (diagnostics : List Diagnostic) : ScopeTable ρ :=
  { table with reporter := Reporter.receive table.reporter diagnostics }

@[simp] theorem scopes_receive (table : ScopeTable ρ) (diagnostics : List Diagnostic) :
    (table.receive diagnostics).scopes = table.scopes := rfl

@[simp] theorem reporter_receive (table : ScopeTable ρ) (diagnostics : List Diagnostic) :
    (table.receive diagnostics).reporter = Reporter.receive table.reporter diagnostics := rfl

@[simp] theorem receive_receive (table : ScopeTable ρ) (first second : List Diagnostic) :
    (table.receive first).receive second = table.receive (first ++ second) := by
  simp [receive]

@[simp] theorem value_report (table : ScopeTable ρ) (diagnostic : Diagnostic) :
    (table.report diagnostic).value = table.receive [diagnostic] := rfl

/-- What there is to report about resolving a name: that no open scope has it. -/
def unresolved? (scopes : Scopes) (name : Ident) : Option Diagnostic :=
  if (scopes.lookup? name.name).isSome then none else some (.undeclared name.name name.span)

theorem value_resolve (table : ScopeTable ρ) (name : Ident) :
    (table.resolve name).value =
      ((table.scopes.lookup? name.name).map Entry.module,
        table.receive (unresolved? table.scopes name).toList) := by
  unfold resolve unresolved?
  cases table.scopes.lookup? name.name <;> rfl

theorem value_declare (table : ScopeTable ρ) (name : Ident) (module : ModuleId) :
    (table.declare name module).value =
      (table.scopes.nextHandle,
        { table with scopes := table.scopes.insert name module }.receive
          (redeclaration? table.scopes name).toList) := by
  unfold declare
  cases redeclaration? table.scopes name <;> rfl

end ScopeTable

end OberonModules
