/-!
# Lines of a text

A line is the characters up to and including its terminator. `lines` cuts a text
into them, and `lineAt` finds the line of a character by its number. The pair CR LF
ends one line, not two.
-/

namespace OberonModules.Text

/-- The characters that end a line: LF, VT, FF, CR, NEL and the line and paragraph separators. -/
def endsLine (c : Char) : Bool :=
  c = '\n' || c = '\x0b' || c = '\x0c' || c = '\r' || c = '\u0085' || c = '\u2028' || c = '\u2029'

/-- The lines of a text, after the lines `done` and the part `line` of the next one, both of
them the nearest first. -/
def linesAfter (done : List (List Char)) (line : List Char) : List Char → List (List Char)
  | [] => (if line.isEmpty then done else line.reverse :: done).reverse
  | '\r' :: '\n' :: rest => linesAfter (('\n' :: '\r' :: line).reverse :: done) [] rest
  | c :: rest =>
    if endsLine c then
      linesAfter ((c :: line).reverse :: done) [] rest
    else
      linesAfter done (c :: line) rest

/-- Every line with its terminator. What follows the last terminator is a line only if it
is not empty, so an empty text has no line and no line is empty. -/
def lines (text : List Char) : List (List Char) :=
  linesAfter [] [] text

structure Line where
  index : Nat
  /-- Number of characters before it. -/
  start : Nat
  chars : List Char
deriving DecidableEq

/-- The line of a character by its number, among lines of which the first has the number `index`
and starts after `start` characters. -/
def lineFrom (index start : Nat) : List (List Char) → Nat → Line
  | [], _ => ⟨index, start, []⟩
  | [chars], _ => ⟨index, start, chars⟩
  | chars :: next :: more, position =>
    if position < start + chars.length then
      ⟨index, start, chars⟩
    else
      lineFrom (index + 1) (start + chars.length) (next :: more) position

/-- The line of a character by its number. The last line also holds the end of the text, and
whatever would lie beyond it. -/
def lineAt (lines : List (List Char)) (position : Nat) : Line :=
  lineFrom 0 0 lines position

theorem flatten_linesAfter (done : List (List Char)) (line text : List Char) :
    (linesAfter done line text).flatten = done.reverse.flatten ++ line.reverse ++ text := by
  fun_induction linesAfter done line text with
  | case1 done line =>
    cases line with
    | nil => simp
    | cons c line => simp
  | case2 done line rest ih => rw [ih]; simp
  | case3 done line c rest _ hc ih => rw [ih]; simp
  | case4 done line c rest _ hc ih => rw [ih]; simp

theorem flatten_lines (text : List Char) : (lines text).flatten = text := by
  simp [lines, flatten_linesAfter]

end OberonModules.Text
