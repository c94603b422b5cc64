import OberonModules.Span

/-!
# Diagnostics

A diagnostic says what is wrong with a program and where: a code, a message, the
span it is about and at most one hint. `Diagnostics` collects them in the order
in which they were found.
-/

namespace OberonModules

inductive Diagnostic.Code
  | undeclaredModule
  | moduleRedeclared
  /-- A local name stands twice in one import list. -/
  | duplicateImport
  | selfImport
deriving DecidableEq

def Diagnostic.Code.label : Diagnostic.Code → String
  | .undeclaredModule => "E200"
  | .moduleRedeclared => "E201"
  | .duplicateImport => "E202"
  | .selfImport => "E203"

structure Diagnostic where
  code : Diagnostic.Code
  message : String
  span : Span
  hint : Option String
deriving DecidableEq

namespace Diagnostic

def plain (code : Code) (message : String) (span : Span) : Diagnostic :=
  ⟨code, message, span, none⟩

/-- Sets the hint; an earlier one is dropped. -/
def withHint (diagnostic : Diagnostic) (hint : String) : Diagnostic :=
  { diagnostic with hint := some hint }

def summary (diagnostic : Diagnostic) : String :=
  "[" ++ diagnostic.code.label ++ "] " ++ diagnostic.message

def undeclared (name : String) (span : Span) : Diagnostic :=
  plain .undeclaredModule ("undeclared module '" ++ name ++ "'") span

def redeclared (name : String) (span previous : Span) : Diagnostic :=
  (plain .moduleRedeclared ("module '" ++ name ++ "' is already declared") span).withHint
    ("previously declared at position " ++ toString previous.start)

/-- An import under the local name `name`, at `span`, which an earlier import has taken. -/
def importedTwice (name : String) (span first : Span) : Diagnostic :=
  (plain .duplicateImport ("'" ++ name ++ "' is imported more than once") span).withHint
    ("first imported at position " ++ toString first.start)

def importsItself (name : String) (span : Span) : Diagnostic :=
  (plain .selfImport ("module '" ++ name ++ "' imports itself") span).withHint
    "remove the module from its own import list"

end Diagnostic

structure Diagnostics where
  found : Array Diagnostic

namespace Diagnostics

def empty : Diagnostics := ⟨#[]⟩

def push (diagnostics : Diagnostics) (diagnostic : Diagnostic) : Diagnostics :=
  ⟨diagnostics.found.push diagnostic⟩

def toList (diagnostics : Diagnostics) : List Diagnostic :=
  diagnostics.found.toList

def size (diagnostics : Diagnostics) : Nat :=
  diagnostics.found.size

def isEmpty (diagnostics : Diagnostics) : Bool :=
  diagnostics.found.isEmpty

@[simp] theorem toList_empty : empty.toList = [] := rfl

@[simp] theorem toList_push (diagnostics : Diagnostics) (diagnostic : Diagnostic) :
    (diagnostics.push diagnostic).toList = diagnostics.toList ++ [diagnostic] := by
  simp [push, toList]

@[simp] theorem length_toList (diagnostics : Diagnostics) :
    diagnostics.toList.length = diagnostics.size := by
  simp [toList, size]

theorem isEmpty_iff (diagnostics : Diagnostics) :
    diagnostics.isEmpty = true ↔ diagnostics.toList = [] := by
  simp [isEmpty, toList]

end Diagnostics

end OberonModules
