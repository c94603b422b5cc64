import OberonModules.CompilationUnit

/-!
# Nested scopes

Names declared in nested scopes, each bound to a module. The entries of all open
scopes lie in one arena, an outer scope before an inner one; within a scope each
entry links to the one declared before it. Closing a scope cuts the arena back to
where the scope began, so slots are used again, and a handle carries the serial
number of its insertion beside its slot to tell the generations apart.

The outermost scope is never closed.
-/

namespace OberonModules

/-- Names an entry: its slot in the arena, and the number of its insertion. The number is a
64-bit word. -/
structure Handle where
  slot : Nat
  serial : UInt64
deriving DecidableEq

instance : Ord Handle :=
  ⟨fun a b => (compare a.slot b.slot).then (compare a.serial b.serial)⟩

structure Entry where
  handle : Handle
  name : String
  span : Span
  module : ModuleId
  /-- The entry declared before this one in the same scope. -/
  next : Option Handle
deriving DecidableEq

/-- One scope: its latest entry, and the slot where its part of the arena starts. -/
structure Scope where
  head : Option Handle
  start : Nat
deriving DecidableEq

/-- The entries met by following links from a cursor, at most `limit` of them. A link that
`find` does not know ends the walk. -/
@[specialize] def Entry.follow (find : Handle → Option Entry) : Nat → Option Handle → List Entry
  | 0, _ => []
  | _ + 1, none => []
  | limit + 1, some handle =>
    match find handle with
    | none => []
    | some entry => entry :: follow find limit entry.next

/-- The first entry of such a walk that is accepted; the walk goes no further. -/
@[specialize] def Entry.search (find : Handle → Option Entry) (accept : Entry → Bool) :
    Nat → Option Handle → Option Entry
  | 0, _ => none
  | _ + 1, none => none
  | limit + 1, some handle =>
    match find handle with
    | none => none
    | some entry => if accept entry then some entry else search find accept limit entry.next

theorem Entry.search_eq (find : Handle → Option Entry) (accept : Entry → Bool) (limit : Nat)
    (cursor : Option Handle) :
    search find accept limit cursor = (follow find limit cursor).find? accept := by
  fun_induction search find accept limit cursor with
  | case1 => simp [follow]
  | case2 => simp [follow]
  | case3 limit handle h => simp [follow, h]
  | case4 limit handle entry h ha => simp [follow, h, ha]
  | case5 limit handle entry h ha ih => simp [follow, h, ha, ih]

structure Scopes where
  arena : Array Entry
  current : Scope
  /-- The scopes around the current one, from the inside out. -/
  outer : List Scope
  depth : Nat
  depth_eq : depth = outer.length + 1
  /-- Number of insertions so far, also of entries that are gone. -/
  inserted : UInt64
deriving DecidableEq

namespace Scopes

def empty : Scopes :=
  ⟨#[], ⟨none, 0⟩, [], 1, rfl, 0⟩

def isOutermost (scopes : Scopes) : Bool :=
  scopes.outer.isEmpty

/-- Number of entries of the current scope. -/
def size (scopes : Scopes) : Nat :=
  scopes.arena.size - scopes.current.start

def isEmpty (scopes : Scopes) : Bool :=
  scopes.current.head.isNone

-- ---------------------------------------------------------------------------
-- Changes
-- ---------------------------------------------------------------------------

def nextHandle (scopes : Scopes) : Handle :=
  ⟨scopes.arena.size, scopes.inserted⟩

/-- Declares a name in the current scope. An earlier entry of the same name stays, hidden
behind the new one. -/
def insert (scopes : Scopes) (name : Ident) (module : ModuleId) : Scopes :=
  let handle := scopes.nextHandle
  { scopes with
    arena := scopes.arena.push ⟨handle, name.name, name.span, module, scopes.current.head⟩
    current := { scopes.current with head := some handle }
    inserted := scopes.inserted + 1 }

def push (scopes : Scopes) : Scopes :=
  { scopes with
    current := ⟨none, scopes.arena.size⟩
    outer := scopes.current :: scopes.outer
    depth := scopes.depth + 1
    depth_eq := by simp [scopes.depth_eq] }

/-- Closes the current scope and drops its entries. The outermost scope stays. -/
def pop (scopes : Scopes) : Scopes :=
  match h : scopes.outer with
  | [] => scopes
  | parent :: outer =>
    { scopes with
      arena := scopes.arena.shrink scopes.current.start
      current := parent
      outer
      depth := scopes.depth - 1
      depth_eq := by simp [scopes.depth_eq, h] }

-- ---------------------------------------------------------------------------
-- Questions
-- ---------------------------------------------------------------------------

/-- The entry in a handle's slot, whatever its serial number. -/
def atSlot? (scopes : Scopes) (handle : Handle) : Option Entry :=
  scopes.arena[handle.slot]?

/-- The entry of a handle. None if the scope in which it was declared is closed. -/
def entry? (scopes : Scopes) (handle : Handle) : Option Entry :=
  (scopes.atSlot? handle).filter (·.handle.serial = handle.serial)

/-- The entries of a scope, latest first. No chain of links is longer than the arena. -/
def entriesOf (scopes : Scopes) (scope : Scope) : List Entry :=
  Entry.follow scopes.atSlot? scopes.arena.size scope.head

def entries (scopes : Scopes) : List Entry :=
  scopes.entriesOf scopes.current

/-- The entry of a handle and those declared before it in its scope, latest first. Every step
checks the serial number. -/
def entriesFrom (scopes : Scopes) (handle : Handle) : List Entry :=
  Entry.follow scopes.entry? scopes.arena.size (some handle)

def findIn? (scopes : Scopes) (scope : Scope) (name : String) : Option Entry :=
  Entry.search scopes.atSlot? (·.name = name) scopes.arena.size scope.head

theorem findIn?_eq (scopes : Scopes) (scope : Scope) (name : String) :
    scopes.findIn? scope name = (scopes.entriesOf scope).find? (·.name = name) :=
  Entry.search_eq ..

def findLocal? (scopes : Scopes) (name : String) : Option Entry :=
  scopes.findIn? scopes.current name

/-- The latest entry of a name in the innermost scope that has one. -/
def lookup? (scopes : Scopes) (name : String) : Option Entry :=
  (scopes.current :: scopes.outer).findSome? (scopes.findIn? · name)

end Scopes

end OberonModules
