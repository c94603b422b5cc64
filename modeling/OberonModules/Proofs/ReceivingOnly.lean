import OberonModules.Console
import OberonModules.Proofs.AnalysisRun
import OberonModules.Proofs.CollectedReports

/-!
# Reporters only receive

Nothing that a table or an analysis does depends on its reporter. What is answered,
declared and recorded is the same with every reporter, and every reporter receives
the same diagnostics in the same order: those that a collecting reporter has at the
end. Reporters that count what they receive thus count alike.

A rendering that breaks off takes its run down. Here such a run is followed to its
end all the same, and whatever the renderer of a console writes.
-/

namespace OberonModules

variable {ρ : Type} [Reporter ρ]

-- ---------------------------------------------------------------------------
-- Requests to a table
-- ---------------------------------------------------------------------------

/-- A call or a question. -/
inductive Request
  | make (call : Call)
  | ask (question : Question)
deriving DecidableEq

inductive Answer
  | handle (handle : Handle)
  | module (module : Option ModuleId)
  | entries (entries : List Entry)
  | done
deriving DecidableEq

namespace Request

def perform (table : ScopeTable ρ) : Request → Traced (Answer × ScopeTable ρ)
  | .make (.insert name module) => do
    let (handle, table) ← table.insert name module
    return (.handle handle, table)
  | .make (.declare name module) => do
    let (handle, table) ← table.declare name module
    return (.handle handle, table)
  | .make (.resolve name) => do
    let (module, table) ← table.resolve name
    return (.module module, table)
  | .make call => do
    let table ← call.perform table
    return (.done, table)
  | .ask question => return (.entries (question.answer table.scopes), table)

def answer (scopes : Scopes) : Request → Answer
  | .make (.insert ..) | .make (.declare ..) => .handle scopes.nextHandle
  | .make (.resolve name) => .module ((scopes.lookup? name.name).map Entry.module)
  | .make _ => .done
  | .ask question => .entries (question.answer scopes)

def onScopes (scopes : Scopes) : Request → Scopes
  | .make call => call.onScopes scopes
  | .ask _ => scopes

def reports (scopes : Scopes) : Request → List Diagnostic
  | .make call => call.reports scopes.stack
  | .ask _ => []

/-- Of the table, only the scopes decide what a request does. -/
theorem value_perform (table : ScopeTable ρ) (request : Request) :
    (request.perform table).value =
      (request.answer table.scopes,
        { table with scopes := request.onScopes table.scopes }.receive
          (request.reports table.scopes)) := by
  cases request with
  | ask question => rfl
  | make call =>
    have hcall := call.value_perform table
    cases call with
    | declare name module =>
      refine Prod.ext ?_ hcall
      simp [perform, answer]
    | resolve name =>
      refine Prod.ext ?_ hcall
      simp [perform, answer]
    | _ => exact Prod.ext rfl hcall

/-- The answers to requests, one after another. -/
def answers (scopes : Scopes) : List Request → List Answer
  | [] => []
  | request :: rest => request.answer scopes :: answers (request.onScopes scopes) rest

def reported (scopes : Scopes) : List Request → List Diagnostic
  | [] => []
  | request :: rest => request.reports scopes ++ reported (request.onScopes scopes) rest

end Request

namespace ScopeTable

/-- Performs requests one after another and gives the answers in order. -/
def respond (table : ScopeTable ρ) : List Request → Traced (List Answer × ScopeTable ρ)
  | [] => return ([], table)
  | request :: rest => do
    let (answer, table) ← request.perform table
    let (more, table) ← respond table rest
    return (answer :: more, table)

theorem value_respond (table : ScopeTable ρ) (requests : List Request) :
    (table.respond requests).value =
      (Request.answers table.scopes requests,
        { table with scopes := requests.foldl Request.onScopes table.scopes }.receive
          (Request.reported table.scopes requests)) := by
  induction requests generalizing table with
  | nil => rfl
  | cons request requests ih =>
    rw [respond, Traced.value_bind, Request.value_perform]
    simp only [Traced.value_bind, Traced.value_pure, ih, Request.answers, Request.reported,
      ← receive_receive]
    rfl

end ScopeTable

-- ---------------------------------------------------------------------------
-- Runs with other reporters
-- ---------------------------------------------------------------------------

/-- A run that began with this reporter, beside the same run with a reporter that collects. Of each
run, this is what it answered and the table that it left. -/
structure SameRun {α : Type} (reporter : ρ) (run : α × ScopeTable ρ)
    (collecting : α × ScopeTable Diagnostics) : Prop where
  answers_eq : run.1 = collecting.1
  scopes_eq : run.2.scopes = collecting.2.scopes
  reporter_eq : run.2.reporter = Reporter.receive reporter collecting.2.reporter.toList

def ImportAnalysis.outcome (analysis : ImportAnalysis ρ) : List ResolvedImport × ScopeTable ρ :=
  (analysis.imports, analysis.table)

/-- All that the choice of this reporter decides is what becomes of it. -/
structure OnlyReceives (reporter : ρ) : Prop where
  table : ∀ requests, SameRun reporter ((ScopeTable.new reporter).respond requests).value
    ((ScopeTable.new Diagnostics.empty).respond requests).value
  analysis : ∀ checks units, SameRun reporter (ImportAnalysis.ofUnits reporter checks units).outcome
    (ImportAnalysis.ofUnits Diagnostics.empty checks units).outcome

theorem ScopeTable.sameRun_respond (reporter : ρ) (requests : List Request) :
    SameRun reporter ((new reporter).respond requests).value
      ((new Diagnostics.empty).respond requests).value := by
  constructor
  · simp only [value_respond, new]
  · simp only [value_respond, new, scopes_receive]
  · simp [value_respond, new]

theorem ImportAnalysis.sameRun_ofUnits (reporter : ρ) (checks : Checks)
    (units : List CompilationUnit) :
    SameRun reporter (ofUnits reporter checks units).outcome
      (ofUnits Diagnostics.empty checks units).outcome := by
  constructor
  · simp only [outcome, imports_ofUnits]
  · simp only [outcome, scopes_ofUnits]
  · simp [outcome, reporter_ofUnits]

-- ---------------------------------------------------------------------------
-- Counts
-- ---------------------------------------------------------------------------

/-- One diagnostic counts once. -/
def Reporter.Tallies (ρ : Type) [Reporter ρ] : Prop :=
  ∀ (reporter : ρ) (diagnostic : Diagnostic),
    Reporter.count (Reporter.report reporter diagnostic).value = Reporter.count reporter + 1

theorem Diagnostics.tallies : Reporter.Tallies Diagnostics :=
  fun _ _ => Array.size_push ..

theorem Lent.tallies (h : Reporter.Tallies ρ) : Reporter.Tallies (Lent ρ) :=
  fun lent diagnostic => h lent.lender diagnostic

theorem Console.tallies {ω : Type} [Writer ω] {renderer : Renderer} :
    Reporter.Tallies (Console ω renderer) :=
  Console.count_report

theorem Reporter.Tallies.count_receive (h : Reporter.Tallies ρ) (reporter : ρ)
    (diagnostics : List Diagnostic) :
    Reporter.count (Reporter.receive reporter diagnostics) =
      Reporter.count reporter + diagnostics.length := by
  induction diagnostics generalizing reporter with
  | nil => rfl
  | cons diagnostic diagnostics ih =>
    rw [Reporter.receive, List.foldl_cons, ← Reporter.receive, ih, h, List.length_cons]
    omega

/-- In every run, the count of this reporter rises by the number of diagnostics that are collected
in the same run. -/
structure CountsAll (reporter : ρ) : Prop where
  table : ∀ requests,
    Reporter.count ((ScopeTable.new reporter).respond requests).value.2.reporter =
      Reporter.count reporter +
        ((ScopeTable.new Diagnostics.empty).respond requests).value.2.reporter.size
  analysis : ∀ checks units,
    Reporter.count (ImportAnalysis.ofUnits reporter checks units).table.reporter =
      Reporter.count reporter +
        (ImportAnalysis.ofUnits Diagnostics.empty checks units).table.reporter.size

theorem SameRun.count_eq {α : Type} {reporter : ρ} {run : α × ScopeTable ρ}
    {collecting : α × ScopeTable Diagnostics} (h : SameRun reporter run collecting)
    (ht : Reporter.Tallies ρ) :
    Reporter.count run.2.reporter = Reporter.count reporter + collecting.2.reporter.size := by
  rw [h.reporter_eq, ht.count_receive, Diagnostics.length_toList]

theorem countsAll_of_tallies (h : Reporter.Tallies ρ) (reporter : ρ) : CountsAll reporter where
  table requests := (ScopeTable.sameRun_respond reporter requests).count_eq h
  analysis checks units := (ImportAnalysis.sameRun_ofUnits reporter checks units).count_eq h

/-- A run is the same with every reporter, and collections, loans and consoles count the same
diagnostics, whatever becomes of the output. -/
theorem onlyReceives {ω : Type} [Writer ω] {renderer : Renderer} (reporter : ρ)
    (errors : Diagnostics) (console : Console ω renderer) :
    OnlyReceives reporter ∧ CountsAll errors ∧ CountsAll (Lent.mk errors) ∧ CountsAll console :=
  ⟨⟨ScopeTable.sameRun_respond reporter, ImportAnalysis.sameRun_ofUnits reporter⟩,
    countsAll_of_tallies Diagnostics.tallies errors,
    countsAll_of_tallies (Lent.tallies Diagnostics.tallies) (Lent.mk errors),
    countsAll_of_tallies Console.tallies console⟩

/-- Two names are inserted, one in a scope that is closed again, and then both are resolved. -/
def outlived : List Request :=
  [.make (.insert ⟨"Out", ⟨7, 10⟩⟩ ⟨0⟩), .make .push, .make (.declare ⟨"Files", ⟨27, 32⟩⟩ ⟨1⟩),
    .make .pop, .make (.resolve ⟨"Out", ⟨40, 43⟩⟩), .make (.resolve ⟨"Files", ⟨45, 50⟩⟩)]

/-- A console without room for any output, which has reported before. -/
def fullConsole : Console :=
  ⟨['x'], false, .empty (some 0), 1, 0⟩

theorem onlyReceives_outlived :
    (OnlyReceives fullConsole ∧ CountsAll Diagnostics.empty ∧
      CountsAll (Lent.mk Diagnostics.empty) ∧ CountsAll fullConsole) ∧
    ((ScopeTable.new Diagnostics.empty).respond outlived).value.2.reporter.toList =
      [.undeclared "Files" ⟨45, 50⟩] ∧
    Reporter.count ((ScopeTable.new fullConsole).respond outlived).value.2.reporter = 2 :=
  ⟨onlyReceives fullConsole .empty fullConsole, by rfl, by rfl⟩

end OberonModules
