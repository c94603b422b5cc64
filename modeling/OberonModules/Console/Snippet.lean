import OberonModules.Console.Renderer
import OberonModules.Text.Cell
import OberonModules.Text.Line
import OberonModules.Text.Offset

/-!
# Snippets

The renderer that a console has if nothing else is said. It shows the part of the source
in a frame, with the message on an arrow that starts at the marked characters:

    [E200] Error: undeclared module 'Missing'
       ╭─[<unknown>:2:8]
       │
     2 │ IMPORT Missing;
       │        ───┬───
       │           ╰───── undeclared module 'Missing'
    ───╯

A mark that goes over several lines shows the first and the last of them, with a
bracket at the left. Lines, columns and marks count characters; the arrows follow
the columns that the characters take on the terminal.

The title comes first, alone. If an offset of the report is inside a character there is
no frame, and the rendering breaks off after the title.
-/

namespace OberonModules

-- ---------------------------------------------------------------------------
-- Paint
-- ---------------------------------------------------------------------------

inductive Ink
  | alert
  | frame
  | margin
  | unmarked
  | help
deriving DecidableEq

/-- The parameters of the escape sequence: red, three greys and a green. -/
def Ink.parameters : Ink → String
  | .alert => "31"
  | .frame => "38;5;246"
  | .margin => "38;5;240"
  | .unmarked => "38;5;249"
  | .help => "38;5;115"

/-- Text between an escape sequence that sets a colour and one that takes it back. Without colours
it is the text alone. -/
def Ink.paint (ink : Ink) (colored : Bool) (text : String) : String :=
  if colored then "\x1b[" ++ ink.parameters ++ "m" ++ text ++ "\x1b[0m" else text

-- ---------------------------------------------------------------------------
-- Snippets
-- ---------------------------------------------------------------------------

/-- The place of a report, one marked stretch of the source, and the lines at its ends. -/
structure Snippet where
  /-- Line and column of the place, from 0. -/
  line : Nat
  column : Nat
  /-- Number of characters before the mark. -/
  start : Nat
  /-- Number of characters before the end of the mark. -/
  stop : Nat
  first : Text.Line
  /-- The line of the last marked character; the first line for an empty mark. -/
  last : Text.Line
  /-- Number of characters of the first line of the source. -/
  opening : Nat
  message : String
  hint : Option String

namespace Snippet

open Text (run spaces)

/-- There is a snippet only if all offsets of the report are character boundaries. -/
def ofReport? (report : Report) (source : List Char) : Option Snippet := do
  let place := (← Text.cutAt? source report.offset).before.length
  let start := (← Text.cutAt? source report.label.start).before.length
  let stop := (← Text.cutAt? source report.label.stop).before.length
  let lines := Text.lines source
  let line := Text.lineAt lines place
  let first := Text.lineAt lines start
  return {
    line := line.index
    column := place - line.start
    start
    stop
    first
    last := if start < stop then Text.lineAt lines (stop - 1) else first
    opening := (lines.headD []).length
    message := report.labelMessage
    hint := report.help }

def marks (snippet : Snippet) (position : Nat) : Bool :=
  snippet.start ≤ position && position < snippet.stop

-- ---------------------------------------------------------------------------
-- Pieces of rows
-- ---------------------------------------------------------------------------

def numberWidth (snippet : Snippet) : Nat :=
  (toString (snippet.last.index + 1)).length

def numberedMargin (snippet : Snippet) (colored : Bool) (line : Text.Line) : String :=
  let number := toString (line.index + 1)
  let padded := spaces (snippet.numberWidth - number.length) ++ number
  " " ++ Ink.frame.paint colored (padded ++ " │") ++ " "

def margin (snippet : Snippet) (colored : Bool) (bar : String) : String :=
  " " ++ Ink.margin.paint colored (spaces (snippet.numberWidth + 1) ++ bar) ++ " "

/-- A line as it is printed. The marked characters are plain and each other one is painted,
also each space of a tab. -/
def printed (snippet : Snippet) (colored : Bool) (line : Text.Line) : String :=
  String.join <| (Text.cells line.chars).mapIdx fun column cell =>
    if snippet.marks (line.start + column) then
      String.ofList cell.shown
    else
      String.join (cell.shown.map fun c => Ink.unmarked.paint colored c.toString)

/-- The top of the frame up to the place. -/
def corner (snippet : Snippet) (colored : Bool) : String :=
  let frame := Ink.frame.paint colored
  spaces (snippet.numberWidth + 2) ++ frame "╭" ++ frame "─" ++ frame "[" ++ "<unknown>:"

def place (snippet : Snippet) : String :=
  toString (snippet.line + 1) ++ ":" ++ toString (snippet.column + 1)

def bottom (snippet : Snippet) (colored : Bool) : List String :=
  [Ink.frame.paint colored (run (snippet.numberWidth + 2) '─' ++ "╯")]

-- ---------------------------------------------------------------------------
-- A mark within one line
-- ---------------------------------------------------------------------------

/-- The middle of the mark, where the arrow starts, as a column of its line. -/
def middle (snippet : Snippet) : Nat :=
  (snippet.start + snippet.stop) / 2 - snippet.first.start

/-- Columns of the two rows below the line: the arrow ends two after the mark. -/
def arrowLength (snippet : Snippet) : Nat :=
  snippet.stop - snippet.first.start + 2

/-- The row that underlines the mark, by the widths of its columns. -/
def underline (snippet : Snippet) (widths : List Nat) : String :=
  let middle := snippet.middle
  String.join <| widths.mapIdx fun column width =>
    if width = 0 then
      ""
    else if column = middle then
      if snippet.start = snippet.stop then
        "│" ++ spaces (width - 1)
      else
        "┬" ++ run (width - 1) '─'
    else if snippet.marks (snippet.first.start + column) then
      run width '─'
    else
      spaces width

/-- The row with the arrow to the message, by the widths of its columns. -/
def arrow (snippet : Snippet) (widths : List Nat) : String :=
  let middle := snippet.middle
  String.join <| widths.mapIdx fun column width =>
    if width = 0 then
      ""
    else if column < middle then
      spaces width
    else if column = middle then
      "╰" ++ run (width - 1) '─'
    else
      run width '─'

def oneLineRows (snippet : Snippet) (colored : Bool) : List String :=
  let line := snippet.first
  let widths := Text.columnWidths line.chars snippet.arrowLength
  let bar := snippet.margin colored "│"
  [ snippet.numberedMargin colored line ++ snippet.printed colored line,
    bar ++ snippet.underline widths,
    bar ++ snippet.arrow widths ++ " " ++ snippet.message ]

-- ---------------------------------------------------------------------------
-- A mark over several lines
-- ---------------------------------------------------------------------------

/-- How far the arrow goes: two columns past the last line, terminator and all. -/
def bracketLength (snippet : Snippet) : Nat :=
  (Text.columnWidths snippet.last.chars (snippet.last.chars.length + 2)).foldl (· + ·) 0

def manyLineRows (snippet : Snippet) (colored : Bool) : List String :=
  let first := snippet.first
  let last := snippet.last
  let bar := snippet.margin colored "│"
  let between := if first.index + 1 < last.index then [snippet.margin colored "┆" ++ "┆   "] else []
  [snippet.numberedMargin colored first ++ "╭─▶ " ++ snippet.printed colored first] ++
  between ++
  [ snippet.numberedMargin colored last ++ "├─▶ " ++ snippet.printed colored last,
    bar ++ "│   " ++ spaces snippet.bracketLength,
    bar ++ "╰───" ++ run snippet.bracketLength '─' ++ " " ++ snippet.message ]

-- ---------------------------------------------------------------------------
-- The whole frame
-- ---------------------------------------------------------------------------

def isOneLine (snippet : Snippet) : Bool :=
  snippet.first.index = snippet.last.index

/-- What stands before a hint. Beside a bracket that starts with the second line of the
source, the bracket goes on. -/
def hintIndent (snippet : Snippet) : String :=
  if snippet.isOneLine then ""
  else if snippet.start = snippet.opening then "│   "
  else spaces 4

def hintRows (snippet : Snippet) (colored : Bool) : List String :=
  match snippet.hint with
  | none => []
  | some hint =>
    let indent := snippet.margin colored "│" ++ snippet.hintIndent
    [indent, indent ++ Ink.help.paint colored "Help" ++ ": " ++ hint]

/-- The rows below the one with the place. -/
def rowsBelow (snippet : Snippet) (colored : Bool) : List String :=
  [spaces (snippet.numberWidth + 2) ++ Ink.frame.paint colored "│"] ++
  (if snippet.isOneLine then snippet.oneLineRows colored else snippet.manyLineRows colored) ++
  snippet.hintRows colored ++
  snippet.bottom colored

def rows (snippet : Snippet) (colored : Bool) : List String :=
  (snippet.corner colored ++ snippet.place ++ Ink.frame.paint colored "]") ::
    snippet.rowsBelow colored

end Snippet

-- ---------------------------------------------------------------------------
-- The renderer
-- ---------------------------------------------------------------------------

namespace Renderer

def title (report : Report) : String :=
  Ink.alert.paint report.colored ("[" ++ report.code ++ "] Error:") ++ " " ++ report.message

/-- The title, and the snippet if the source has any text; and the end that the rendering comes to
if all of that can be written. -/
def framedRows (report : Report) (source : List Char) : List String × Ending :=
  if source.isEmpty then
    ([title report], .complete)
  else
    match Snippet.ofReport? report source with
    | some snippet => (title report :: snippet.rows report.colored, .complete)
    | none => ([title report], .interrupted)

/-- Each row with its LF, in UTF-8. -/
def pieces (rows : List String) : List ByteArray :=
  rows.map fun row => (row ++ "\n").toUTF8

/-- Writes row after row. -/
def framed : Renderer where
  write report source writer :=
    let (rows, ending) := framedRows report source
    let (writer, refusal) := Writer.writeAll writer (pieces rows)
    (writer, ending.unlessRefused refusal)

end Renderer

end OberonModules
