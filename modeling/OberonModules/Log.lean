import OberonModules.CompilationUnit
import OberonModules.Diagnostic

/-!
# The log

Operations tell what they do as a list of events beside their value. `Traced` pairs
the two; doing one traced computation after another keeps the events in order.
-/

namespace OberonModules

inductive LogEvent
  | declared (name : String) (module : ModuleId) (depth : Nat)
  /-- A diagnostic is about to go to the reporter. -/
  | reporting (diagnostic : Diagnostic)
  | entered (depth : Nat)
  /-- The scope at this depth is about to be closed, with this many entries. -/
  | leaving (depth entries : Nat)
  | analyzing (name : String)
  | renderFailed (code : Diagnostic.Code) (reason : String)
deriving DecidableEq

namespace LogEvent

def level : LogEvent → String
  | .declared .. => "TRACE"
  | .reporting .. | .entered .. | .leaving .. | .analyzing .. => "DEBUG"
  | .renderFailed .. => "WARN"

def message : LogEvent → String
  | .declared name module depth =>
    "declared '" ++ name ++ "' as ModuleId(" ++ toString module.index ++ ") at depth " ++
      toString depth
  | .reporting diagnostic => "reporting " ++ diagnostic.summary
  | .entered depth => "entered scope at depth " ++ toString depth
  | .leaving depth entries =>
    "leaving scope at depth " ++ toString depth ++ " with " ++ toString entries ++ " entries"
  | .analyzing name => "analyzing module '" ++ name ++ "'"
  | .renderFailed code reason => "failed to render error " ++ code.label ++ ": " ++ reason

def line (event : LogEvent) : String :=
  event.level ++ " " ++ event.message

end LogEvent

/-- A value and the events on the way to it, in order. -/
structure Traced (α : Type) where
  value : α
  log : List LogEvent

namespace Traced

def emit (event : LogEvent) : Traced Unit :=
  ⟨(), [event]⟩

@[inline] protected def bind (first : Traced α) (next : α → Traced β) : Traced β :=
  match first with
  | ⟨value, log⟩ =>
    match next value with
    | ⟨result, more⟩ => ⟨result, log ++ more⟩

@[always_inline, inline]
instance : Monad Traced where
  pure value := ⟨value, []⟩
  bind := Traced.bind

/-- Goes through a list, one traced step for each item, after steps with these logs, the latest
first. -/
@[specialize] def foldAfter (logs : List (List LogEvent)) (step : σ → α → Traced σ) :
    σ → List α → Traced σ
  | state, [] => ⟨state, logs.reverse.flatten⟩
  | state, item :: rest =>
    match step state item with
    | ⟨next, log⟩ => foldAfter (log :: logs) step next rest

@[inline] def fold (step : σ → α → Traced σ) (state : σ) (items : List α) : Traced σ :=
  foldAfter [] step state items

@[simp] theorem value_emit (event : LogEvent) : (emit event).value = () := rfl

@[simp] theorem log_emit (event : LogEvent) : (emit event).log = [event] := rfl

@[simp] theorem value_pure (value : α) : (pure value : Traced α).value = value := rfl

@[simp] theorem log_pure (value : α) : (pure value : Traced α).log = [] := rfl

@[simp] theorem value_bind (first : Traced α) (next : α → Traced β) :
    (first >>= next).value = (next first.value).value := rfl

@[simp] theorem log_bind (first : Traced α) (next : α → Traced β) :
    (first >>= next).log = first.log ++ (next first.value).log := rfl

@[simp] theorem value_map (f : α → β) (first : Traced α) :
    (f <$> first).value = f first.value := rfl

theorem foldAfter_eq (logs : List (List LogEvent)) (step : σ → α → Traced σ) (state : σ)
    (items : List α) :
    foldAfter logs step state items =
      ⟨(fold step state items).value, logs.reverse.flatten ++ (fold step state items).log⟩ := by
  induction items generalizing state logs with
  | nil => simp [fold, foldAfter]
  | cons item items ih => simp only [fold, foldAfter, ih (_ :: _)]; simp

@[simp] theorem fold_nil (step : σ → α → Traced σ) (state : σ) :
    fold step state [] = pure state := rfl

theorem fold_cons (step : σ → α → Traced σ) (state : σ) (item : α) (items : List α) :
    fold step state (item :: items) = step state item >>= fun next => fold step next items := by
  change foldAfter [(step state item).log] step (step state item).value items = _
  rw [foldAfter_eq]
  simp only [List.reverse_singleton, List.flatten_singleton]
  rfl

theorem value_fold (step : σ → α → Traced σ) (state : σ) (items : List α) :
    (fold step state items).value =
      items.foldl (fun state item => (step state item).value) state := by
  induction items generalizing state with
  | nil => rfl
  | cons item items ih => simp [fold_cons, ih]

end Traced

end OberonModules
