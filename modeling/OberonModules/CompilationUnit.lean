import OberonModules.Span

/-!
# Compilation units

The module declarations of one unit of source, as a parser hands them over: of each
only its name and its import list. The unit owns the declarations, and others refer
to one by its `ModuleId`.
-/

namespace OberonModules

structure Ident where
  name : String
  span : Span
deriving DecidableEq

/-- One element of an import list: `Out`, or with an alias `F := Files`. -/
structure Import where
  aliasName : Option Ident
  module : Ident
  /-- The whole element. -/
  span : Span
deriving DecidableEq

namespace Import

def plain (module : Ident) : Import :=
  ⟨none, module, module.span⟩

def aliased (aliasName module : Ident) : Import :=
  ⟨some aliasName, module, aliasName.span.merge module.span⟩

/-- The name by which the importer knows the module. -/
def localName (element : Import) : Ident :=
  element.aliasName.getD element.module

@[simp] theorem localName_plain (module : Ident) : (plain module).localName = module := rfl

@[simp] theorem localName_aliased (aliasName module : Ident) :
    (aliased aliasName module).localName = aliasName := rfl

end Import

structure ModuleDecl where
  name : Ident
  imports : List Import
  span : Span
deriving DecidableEq

/-- Names a declaration by its position in its unit, from 0. The unit is not part of the name:
positions in different units may be equal. -/
structure ModuleId where
  index : Nat
deriving DecidableEq

instance : Ord ModuleId := ⟨fun a b => compare a.index b.index⟩

instance : LT ModuleId := ⟨fun a b => a.index < b.index⟩

instance (a b : ModuleId) : Decidable (a < b) := inferInstanceAs (Decidable (a.index < b.index))

structure CompilationUnit where
  modules : Array ModuleDecl
deriving Inhabited

namespace CompilationUnit

def empty : CompilationUnit := ⟨#[]⟩

def size (unit : CompilationUnit) : Nat :=
  unit.modules.size

def isEmpty (unit : CompilationUnit) : Bool :=
  unit.modules.isEmpty

def nextId (unit : CompilationUnit) : ModuleId :=
  ⟨unit.size⟩

def add (unit : CompilationUnit) (declaration : ModuleDecl) : CompilationUnit :=
  ⟨unit.modules.push declaration⟩

def ofList (declarations : List ModuleDecl) : CompilationUnit :=
  ⟨declarations.toArray⟩

def get? (unit : CompilationUnit) (id : ModuleId) : Option ModuleDecl :=
  unit.modules[id.index]?

def declarations (unit : CompilationUnit) : List (ModuleId × ModuleDecl) :=
  unit.modules.toList.mapIdx fun index declaration => (⟨index⟩, declaration)

theorem lt_size_of_get? {unit : CompilationUnit} {id : ModuleId} {declaration : ModuleDecl}
    (h : unit.get? id = some declaration) : id.index < unit.size :=
  (Array.getElem?_eq_some_iff.mp h).1

theorem mem_declarations_iff {unit : CompilationUnit} {id : ModuleId} {declaration : ModuleDecl} :
    (id, declaration) ∈ unit.declarations ↔ unit.get? id = some declaration := by
  simp only [declarations, get?, List.mem_mapIdx, Prod.mk.injEq]
  constructor
  · rintro ⟨i, hi, rfl, rfl⟩
    simp_all
  · intro h
    obtain ⟨hi, rfl⟩ := Array.getElem?_eq_some_iff.mp h
    exact ⟨id.index, by simpa using hi, by simp⟩

end CompilationUnit

end OberonModules
