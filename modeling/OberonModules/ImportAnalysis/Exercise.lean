import OberonModules.ImportAnalysis

/-!
# Exercising the analysis

Builds units from plain numbers, over a small alphabet of names, and checks of
every unit that is accepted that each import leads to an earlier module.
-/

namespace OberonModules.ImportAnalysis

/-- A module by numbers: its name, and of each import the alias, if any, and the module. -/
structure Sketch where
  letter : Nat
  imports : List (Option Nat × Nat)

namespace Sketch

def identOf (letter offset : Nat) : Ident :=
  ⟨"M" ++ toString (letter % 8), ⟨offset, offset + 2⟩⟩

def importOf (offset : Nat) : Option Nat × Nat → Import
  | (none, module) => .plain (identOf module offset)
  | (some letter, module) => .aliased (identOf letter offset) (identOf module offset)

def declaration (offset : Nat) (sketch : Sketch) : ModuleDecl :=
  ⟨identOf sketch.letter offset, sketch.imports.map (importOf offset), default⟩

def unit (sketches : List Sketch) : CompilationUnit :=
  .ofList (sketches.mapIdx declaration)

/-- Analyzes the unit, and tells whether every import of an accepted unit leads back to an
earlier module. -/
def check (sketches : List Sketch) : Traced Bool := do
  match ← (unit sketches).analyze with
  | .ok imports => return imports.all fun resolved => resolved.target < resolved.importer
  | .error _ => return true

end Sketch

end OberonModules.ImportAnalysis
