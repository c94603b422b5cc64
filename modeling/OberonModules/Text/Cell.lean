/-!
# Cells of a printed line

On a terminal a line is a row of cells, one for each character. A tab fills up to
the next multiple of four, counted in characters; any other white space is one
space; every other character stands for itself and may take no column or two.
-/

namespace OberonModules.Text

-- ---------------------------------------------------------------------------
-- Runs of one character
-- ---------------------------------------------------------------------------

def run (count : Nat) (c : Char) : String :=
  String.ofList (List.replicate count c)

def spaces (count : Nat) : String :=
  run count ' '

@[simp] theorem length_run (count : Nat) (c : Char) : (run count c).length = count := by
  simp [run]

@[simp] theorem toList_run (count : Nat) (c : Char) :
    (run count c).toList = List.replicate count c := by
  simp [run]

-- ---------------------------------------------------------------------------
-- White space
-- ---------------------------------------------------------------------------

/-- The White_Space property of Unicode, as inclusive ranges of code points in ascending order. It
has the line and paragraph separators and the spaces of typography, but none of the information
separators U+001C to U+001F. -/
def blankRanges : List (Nat × Nat) :=
  [(0x0009, 0x000D), (0x0020, 0x0020), (0x0085, 0x0085), (0x00A0, 0x00A0),
   (0x1680, 0x1680), (0x2000, 0x200A), (0x2028, 0x2029), (0x202F, 0x202F),
   (0x205F, 0x205F), (0x3000, 0x3000)]

def inRanges (ranges : List (Nat × Nat)) (c : Char) : Bool :=
  ranges.any fun (low, high) => low ≤ c.toNat && c.toNat ≤ high

def isBlank (c : Char) : Bool :=
  inRanges blankRanges c

/-- A text without the white space at its end. -/
def trimEnd (text : List Char) : List Char :=
  (text.reverse.dropWhile isBlank).reverse

-- ---------------------------------------------------------------------------
-- Wide characters
-- ---------------------------------------------------------------------------

/-- The characters whose East Asian Width is Wide or Fullwidth, in Unicode 15.1: kana of every
block, CJK ideographs, Hangul syllables, fullwidth forms and emoji. Wide combining marks are left
out, since a mark takes no column of its own, and so is the ideographic space, which is white
space. -/
def wideRanges : List (Nat × Nat) :=
  [(0x1100, 0x115F), (0x231A, 0x231B), (0x2329, 0x232A), (0x23E9, 0x23EC), (0x23F0, 0x23F0),
   (0x23F3, 0x23F3), (0x25FD, 0x25FE), (0x2614, 0x2615), (0x2648, 0x2653), (0x267F, 0x267F),
   (0x2693, 0x2693), (0x26A1, 0x26A1), (0x26AA, 0x26AB), (0x26BD, 0x26BE), (0x26C4, 0x26C5),
   (0x26CE, 0x26CE), (0x26D4, 0x26D4), (0x26EA, 0x26EA), (0x26F2, 0x26F3), (0x26F5, 0x26F5),
   (0x26FA, 0x26FA), (0x26FD, 0x26FD), (0x2705, 0x2705), (0x270A, 0x270B), (0x2728, 0x2728),
   (0x274C, 0x274C), (0x274E, 0x274E), (0x2753, 0x2755), (0x2757, 0x2757), (0x2795, 0x2797),
   (0x27B0, 0x27B0), (0x27BF, 0x27BF), (0x2B1B, 0x2B1C), (0x2B50, 0x2B50), (0x2B55, 0x2B55),
   (0x2E80, 0x2E99), (0x2E9B, 0x2EF3), (0x2F00, 0x2FD5), (0x2FF0, 0x2FFF), (0x3001, 0x3029),
   (0x3030, 0x303E), (0x3041, 0x3096), (0x309B, 0x30FF), (0x3105, 0x312F), (0x3131, 0x318E),
   (0x3190, 0x31E3), (0x31EF, 0x321E), (0x3220, 0x3247), (0x3250, 0x4DBF), (0x4E00, 0xA48C),
   (0xA490, 0xA4C6), (0xA960, 0xA97C), (0xAC00, 0xD7A3), (0xF900, 0xFAFF), (0xFE10, 0xFE19),
   (0xFE30, 0xFE52), (0xFE54, 0xFE66), (0xFE68, 0xFE6B), (0xFF01, 0xFF60), (0xFFE0, 0xFFE6),
   (0x16FE0, 0x16FE3), (0x16FF0, 0x16FF1), (0x17000, 0x187F7), (0x18800, 0x18CD5),
   (0x18D00, 0x18D08), (0x1AFF0, 0x1AFF3), (0x1AFF5, 0x1AFFB), (0x1AFFD, 0x1AFFE),
   (0x1B000, 0x1B122), (0x1B132, 0x1B132), (0x1B150, 0x1B152), (0x1B155, 0x1B155),
   (0x1B164, 0x1B167), (0x1B170, 0x1B2FB), (0x1F004, 0x1F004), (0x1F0CF, 0x1F0CF),
   (0x1F18E, 0x1F18E), (0x1F191, 0x1F19A), (0x1F200, 0x1F202), (0x1F210, 0x1F23B),
   (0x1F240, 0x1F248), (0x1F250, 0x1F251), (0x1F260, 0x1F265), (0x1F300, 0x1F320),
   (0x1F32D, 0x1F335), (0x1F337, 0x1F37C), (0x1F37E, 0x1F393), (0x1F3A0, 0x1F3CA),
   (0x1F3CF, 0x1F3D3), (0x1F3E0, 0x1F3F0), (0x1F3F4, 0x1F3F4), (0x1F3F8, 0x1F43E),
   (0x1F440, 0x1F440), (0x1F442, 0x1F4FC), (0x1F4FF, 0x1F53D), (0x1F54B, 0x1F54E),
   (0x1F550, 0x1F567), (0x1F57A, 0x1F57A), (0x1F595, 0x1F596), (0x1F5A4, 0x1F5A4),
   (0x1F5FB, 0x1F64F), (0x1F680, 0x1F6C5), (0x1F6CC, 0x1F6CC), (0x1F6D0, 0x1F6D2),
   (0x1F6D5, 0x1F6D7), (0x1F6DC, 0x1F6DF), (0x1F6EB, 0x1F6EC), (0x1F6F4, 0x1F6FC),
   (0x1F7E0, 0x1F7EB), (0x1F7F0, 0x1F7F0), (0x1F90C, 0x1F93A), (0x1F93C, 0x1F945),
   (0x1F947, 0x1F9FF), (0x1FA70, 0x1FA7C), (0x1FA80, 0x1FA88), (0x1FA90, 0x1FABD),
   (0x1FABF, 0x1FAC5), (0x1FACE, 0x1FADB), (0x1FAE0, 0x1FAE8), (0x1FAF0, 0x1FAF8),
   (0x20000, 0x2FFFD), (0x30000, 0x3FFFD)]

def isWide (c : Char) : Bool :=
  inRanges wideRanges c

-- ---------------------------------------------------------------------------
-- Cells
-- ---------------------------------------------------------------------------

/-- Characters that take no column: combining marks, also those of CJK text, the zero width
space and joiners, and the byte order mark. -/
def zeroWidthRanges : List (Nat × Nat) :=
  [(0x0300, 0x036F), (0x200B, 0x200D), (0x302A, 0x302F), (0x3099, 0x309A), (0xFEFF, 0xFEFF)]

def columns (c : Char) : Nat :=
  if inRanges zeroWidthRanges c then 0
  else if isWide c then 2
  else 1

def tabStop : Nat := 4

structure Cell where
  shown : List Char
  width : Nat

/-- The cell of a character that stands at a given column, counted in characters. -/
def Cell.ofChar (column : Nat) (c : Char) : Cell :=
  if c = '\t' then
    let gap := tabStop - column % tabStop
    ⟨List.replicate gap ' ', gap⟩
  else if isBlank c then
    ⟨[' '], 1⟩
  else
    ⟨[c], columns c⟩

/-- The cells of a line, from its first character on, without white space at its end. -/
def cells (line : List Char) : List Cell :=
  (trimEnd line).mapIdx Cell.ofChar

/-- The widths of the first `count` columns of a line. A column past the last cell has width 1. -/
def columnWidths (line : List Char) (count : Nat) : List Nat :=
  ((cells line).map Cell.width ++ List.replicate count 1).take count

end OberonModules.Text
