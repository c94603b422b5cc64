import OberonModules.Console.Sink
import OberonModules.Span

/-!
# Renderers

A renderer takes a report and the source it is about, and writes to any writer what a
reader is to see. How that looks is up to the renderer. It comes to one of three ends:
all is written, the writer has failed, or the renderer gives up and takes down the run
that called it.
-/

namespace OberonModules

/-- A report of an error, with all that a renderer is told of it. Offsets count bytes. -/
structure Report where
  code : String
  message : String
  /-- Where the report says the error is. -/
  offset : Nat
  /-- The stretch of the source that is to be marked. -/
  label : Span
  /-- What is to stand beside the mark. -/
  labelMessage : String
  help : Option String
  colored : Bool

inductive Ending
  | complete
  /-- The writer failed, for this reason. -/
  | refused (reason : String)
  /-- The run that asked for the rendering is lost. -/
  | interrupted
deriving DecidableEq

/-- An end that comes about only if no write has failed before. -/
def Ending.unlessRefused (ending : Ending) : Option String → Ending
  | none => ending
  | some reason => .refused reason

structure Renderer where
  /-- Writes the rendering of a report, given the text of the source. -/
  write : {ω : Type} → [Writer ω] → Report → List Char → ω → ω × Ending

end OberonModules
