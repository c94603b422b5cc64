import OberonModules.Text.Offset

/-!
# Locations

Where a byte offset falls in a source text, for a reader: the line and the column,
both from 1, and the text of the line. Only LF ends a line here, and a column
counts characters.
-/

namespace OberonModules

structure Location where
  line : Nat
  column : Nat
  /-- The line without its LF. A CR before the LF stays. -/
  content : String
deriving DecidableEq

namespace Location

/-- The location of an offset. An offset inside a character counts as the start of that
character, and one past the end as the end. -/
def ofOffset (source : List Char) (offset : Nat) : Location :=
  let cut := Text.cutFloor source offset
  let head := (cut.before.takeWhile (· ≠ '\n')).reverse
  { line := cut.before.count '\n' + 1
    column := head.length + 1
    content := String.ofList (head ++ cut.after.takeWhile (· ≠ '\n')) }

theorem column_pos (source : List Char) (offset : Nat) : 0 < (ofOffset source offset).column := by
  simp [ofOffset]

end Location

end OberonModules
