import OberonModules.Diagnostic
import OberonModules.Location
import OberonModules.Text.Cell

/-!
# Excerpts

A diagnostic with the source line it is about, and carets under the characters of
its span:

    error[E200]: undeclared module 'Missing'
      --> main.mod:2:8
      |
    2 | IMPORT Missing;
      |        ^^^^^^^
      = hint: declare it first

Carets count characters, and stop where the line stops.
-/

namespace OberonModules

structure Excerpt where
  title : String
  file : String
  location : Location
  /-- Number of carets; the first stands under the located character. -/
  carets : Nat
  hint : Option String

namespace Excerpt

open Text (run spaces)

def unnamedFile : String := "<input>"

/-- Characters of a source that a span covers, its ends taken back to the end of the source.
If an end then cuts a character, the bytes of the span as it was given count instead. -/
def coveredLength (source : List Char) (span : Span) : Nat :=
  let stop := min span.stop (Text.byteLength source)
  match Text.slice? source (min span.start stop) stop with
  | some covered => covered.length
  | none => span.length

/-- Carets under a span that starts at a location: at least one, and no more than the line
has characters left. -/
def caretCount (source : List Char) (span : Span) (location : Location) : Nat :=
  max 1 (min (max 1 (coveredLength source span))
    (location.content.toList.length - (location.column - 1)))

def ofDiagnostic (diagnostic : Diagnostic) (source : List Char) (file : Option String) : Excerpt :=
  let location := Location.ofOffset source diagnostic.span.start
  { title := "error[" ++ diagnostic.code.label ++ "]: " ++ diagnostic.message
    file := file.getD unnamedFile
    location
    carets := caretCount source diagnostic.span location
    hint := diagnostic.hint }

def gutter (excerpt : Excerpt) : String :=
  spaces (toString excerpt.location.line).length

def rows (excerpt : Excerpt) : List String :=
  let place := toString excerpt.location.line ++ ":" ++ toString excerpt.location.column
  let carets := run excerpt.carets '^'
  [ excerpt.title,
    "  --> " ++ excerpt.file ++ ":" ++ place,
    excerpt.gutter ++ " |",
    toString excerpt.location.line ++ " | " ++ excerpt.location.content,
    excerpt.gutter ++ " | " ++ spaces (excerpt.location.column - 1) ++ carets ] ++
  (excerpt.hint.map fun hint => excerpt.gutter ++ " = hint: " ++ hint).toList

def maxIndent : Nat := 65535

/-- The rows as one text, each ended by LF. There is none if the carets would have to be
indented by more than `maxIndent`. -/
def render? (excerpt : Excerpt) : Option String :=
  if excerpt.location.column - 1 ≤ maxIndent then
    some (String.join (excerpt.rows.map (· ++ "\n")))
  else
    none

end Excerpt

def Diagnostic.excerpt? (diagnostic : Diagnostic) (source : List Char) (file : Option String) :
    Option String :=
  (Excerpt.ofDiagnostic diagnostic source file).render?

end OberonModules
