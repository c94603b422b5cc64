import OberonModules.Proofs.Arena

/-!
# Nested scopes as a stack of lists

The plain picture of nested scopes: a stack that is never empty, of lists of
bindings, the latest binding of a list first. There is no arena, no link and no
handle in it. `Scopes.stack` reads this picture off the scopes; every change of the
scopes is the same change of the picture, and every question has the same answer.
-/

namespace OberonModules

structure Binding where
  name : String
  span : Span
  module : ModuleId
deriving DecidableEq

def Entry.binding (entry : Entry) : Binding :=
  ⟨entry.name, entry.span, entry.module⟩

structure ScopeStack where
  /-- The bindings of the innermost scope, latest first. -/
  top : List Binding
  /-- The scopes around it, from the inside out. -/
  below : List (List Binding)
deriving DecidableEq

namespace ScopeStack

def empty : ScopeStack :=
  ⟨[], []⟩

def insert (stack : ScopeStack) (name : Ident) (module : ModuleId) : ScopeStack :=
  { stack with top := ⟨name.name, name.span, module⟩ :: stack.top }

def push (stack : ScopeStack) : ScopeStack :=
  ⟨[], stack.top :: stack.below⟩

/-- The only list of a stack stays. -/
def pop (stack : ScopeStack) : ScopeStack :=
  match stack.below with
  | [] => stack
  | top :: below => ⟨top, below⟩

def height (stack : ScopeStack) : Nat :=
  stack.below.length + 1

def findLocal? (stack : ScopeStack) (name : String) : Option Binding :=
  stack.top.find? (·.name = name)

/-- The first match, list by list from the top. -/
def lookup? (stack : ScopeStack) (name : String) : Option Binding :=
  (stack.top :: stack.below).flatten.find? (·.name = name)

theorem findLocal?_insert (stack : ScopeStack) (name : Ident) (module : ModuleId) (query : String) :
    (stack.insert name module).findLocal? query =
      if name.name = query then some ⟨name.name, name.span, module⟩
      else stack.findLocal? query := by
  by_cases h : name.name = query <;> simp [findLocal?, insert, h]

end ScopeStack

namespace Scopes

variable {scopes : Scopes}

def bindingsOf (scopes : Scopes) (scope : Scope) : List Binding :=
  (scopes.entriesOf scope).map Entry.binding

/-- The stack that the scopes stand for. -/
def stack (scopes : Scopes) : ScopeStack :=
  ⟨scopes.bindingsOf scopes.current, scopes.outer.map scopes.bindingsOf⟩

-- ---------------------------------------------------------------------------
-- Changes
-- ---------------------------------------------------------------------------

theorem stack_empty : empty.stack = .empty := rfl

/-- Scopes among those open keep their bindings when only slots above them change. -/
theorem WellFormed.bindingsOf_congr {scopes' : Scopes} {tiles : List Scope} {stop : Nat}
    (h : scopes.WellFormed) (h' : scopes'.WellFormed) (ht : Tiled scopes.arena tiles stop)
    (ha : AgreeBelow stop scopes.arena scopes'.arena) :
    tiles.map scopes'.bindingsOf = tiles.map scopes.bindingsOf := by
  apply List.map_congr_left
  intro scope hm
  obtain ⟨stop', hle, ho⟩ := ht.owns hm
  rw [bindingsOf, bindingsOf, h.entriesOf_congr h' ho (ha.mono hle)]

theorem WellFormed.stack_insert (h : scopes.WellFormed) (name : Ident) (module : ModuleId) :
    (scopes.insert name module).stack = scopes.stack.insert name module := by
  have ha := (agreeBelow_push scopes.arena (scopes.newEntry name module)).mono
    h.owns_current.start_le
  have htop := congrArg (List.map Entry.binding) (h.entries_insert name module)
  have hbelow := h.bindingsOf_congr (h.insert name module) h.tiled_outer ha
  rw [List.map_cons] at htop
  simp only [stack, ScopeStack.insert, ScopeStack.mk.injEq]
  exact ⟨htop, hbelow⟩

theorem WellFormed.stack_push (h : scopes.WellFormed) :
    scopes.push.stack = scopes.stack.push := by
  have htop : scopes.push.entries = [] := by
    rw [← List.length_eq_zero_iff, ← h.push.size_eq]
    exact Nat.sub_self _
  have hbelow := h.bindingsOf_congr h.push h.tiled (fun _ _ => rfl)
  simp only [stack, ScopeStack.push, ScopeStack.mk.injEq]
  exact ⟨congrArg (List.map Entry.binding) htop, hbelow⟩

theorem WellFormed.stack_pop (h : scopes.WellFormed) : scopes.pop.stack = scopes.stack.pop := by
  cases ho : scopes.outer with
  | nil => rw [pop_of_outer_nil ho, ScopeStack.pop, stack, ho, List.map_nil]
  | cons parent rest =>
    have hpop := pop_of_outer_cons ho
    have ha : AgreeBelow scopes.current.start scopes.arena scopes.pop.arena := by
      rw [hpop]
      exact agreeBelow_shrink _ _
    have hbelow := h.bindingsOf_congr h.pop h.tiled_outer ha
    rw [ho, List.map_cons, List.map_cons, List.cons.injEq] at hbelow
    rw [ScopeStack.pop, stack, stack, ho, List.map_cons, ← hbelow.1, ← hbelow.2]
    simp only [hpop]

-- ---------------------------------------------------------------------------
-- Questions
-- ---------------------------------------------------------------------------

theorem binding_findIn? (scopes : Scopes) (scope : Scope) (name : String) :
    (scopes.findIn? scope name).map Entry.binding =
      (scopes.bindingsOf scope).find? (·.name = name) := by
  rw [findIn?_eq, bindingsOf, List.find?_map]
  rfl

theorem binding_findLocal? (scopes : Scopes) (name : String) :
    (scopes.findLocal? name).map Entry.binding = scopes.stack.findLocal? name :=
  binding_findIn? ..

theorem binding_findSome? (scopes : Scopes) (name : String) (row : List Scope) :
    (row.findSome? (scopes.findIn? · name)).map Entry.binding =
      (row.map scopes.bindingsOf).flatten.find? (·.name = name) := by
  induction row with
  | nil => rfl
  | cons scope rest ih =>
    rw [List.findSome?_cons, List.map_cons, List.flatten_cons, List.find?_append,
      ← binding_findIn?, ← ih]
    cases scopes.findIn? scope name <;> rfl

theorem binding_lookup? (scopes : Scopes) (name : String) :
    (scopes.lookup? name).map Entry.binding = scopes.stack.lookup? name :=
  binding_findSome? scopes name (scopes.current :: scopes.outer)

/-- What depends on bindings alone can be read off the stack. -/
theorem map_findLocal? {α : Type} (scopes : Scopes) (name : String) (f : Binding → α) :
    (scopes.findLocal? name).map (fun entry => f entry.binding) =
      (scopes.stack.findLocal? name).map f := by
  rw [← binding_findLocal?, Option.map_map]
  rfl

theorem map_lookup? {α : Type} (scopes : Scopes) (name : String) (f : Binding → α) :
    (scopes.lookup? name).map (fun entry => f entry.binding) =
      (scopes.stack.lookup? name).map f := by
  rw [← binding_lookup?, Option.map_map]
  rfl

theorem WellFormed.size_eq_top (h : scopes.WellFormed) :
    scopes.size = scopes.stack.top.length := by
  rw [h.size_eq]
  exact List.length_map _ |>.symm

theorem WellFormed.isEmpty_eq_top (h : scopes.WellFormed) :
    scopes.isEmpty = scopes.stack.top.isEmpty := by
  rw [Bool.eq_iff_iff, h.isEmpty_iff, h.size_eq_top, List.isEmpty_iff, List.length_eq_zero_iff]

theorem depth_eq_height (scopes : Scopes) : scopes.depth = scopes.stack.height := by
  rw [scopes.depth_eq, ScopeStack.height, stack, List.length_map]

theorem isOutermost_iff (scopes : Scopes) :
    scopes.isOutermost = true ↔ scopes.stack.height = 1 := by
  rw [isOutermost, List.isEmpty_iff, ← depth_eq_height, scopes.depth_eq]
  simp

end Scopes

end OberonModules
