import ClawHarder.Spec.OcEdit

/-!
# The frontmatter of a text

From `parse.ts`: what `parseMd` reads as the frontmatter. The preamble and the blocks, which it has
from `markdown-it`, are left out, and so is the warning for a fence that is not closed.
-/

namespace ClawHarder.OcPaths

abbrev apostrophe : ℕ := 0x27

def fence : Units := utf16 "---"

/-- A line without the `\r` before its newline. -/
def dropReturn (line : Units) : Units :=
  if line.getLast? = some carriageReturn then line.dropLast else line

/-- Every line but the last has a newline behind it. -/
def dropReturns : List Units → List Units
  | [] => []
  | [line] => [line]
  | line :: next :: lines => dropReturn line :: dropReturns (next :: lines)

/-- `raw.split(/\r?\n/)` -/
def splitLines (raw : Units) : List Units := dropReturns (raw.splitOn lineFeed)

/-- `[a-zA-Z_]` -/
def isKeyStart (c : ℕ) : Bool :=
  (0x41 ≤ c && c ≤ 0x5A) || (0x61 ≤ c && c ≤ 0x7A) || c = underscore

/-- `[a-zA-Z0-9_-]` -/
def isKeyChar (c : ℕ) : Bool := isKeyStart c || isDigit c || c = hyphen

/-- `/^([a-zA-Z_][a-zA-Z0-9_-]*)\s*:\s*(.*)$/`: the two groups. The white space before the value is
matched as a whole, since `.` matches nothing that what is behind it could not have. -/
def entryMatch (line : Units) : Option (Units × Units) :=
  match (line.dropWhile isKeyChar).dropWhile isSpace with
  | [] => none
  | c :: rest =>
    let key := line.takeWhile isKeyChar
    let value := rest.dropWhile isSpace
    if c = colon ∧ key.head?.any isKeyStart ∧ !value.any isTerminator then some (key, value) else none

/-- A text between two quotes or two apostrophes. -/
def isQuoted (value : Units) : Bool :=
  decide (2 ≤ value.length) && decide (value.head? = value.getLast?) &&
    (value.head? = some quote || value.head? = some apostrophe)

def unquote (value : Units) : Units := if isQuoted value then value.tail.dropLast else value

/-- The entry of a line with its number. -/
def readEntry (line : Units × ℕ) : Option FrontmatterEntry :=
  (entryMatch line.1).map fun m => { key := m.1, value := unquote (trim m.2), line := line.2 }

/-- The entries and `endLine`. -/
def detectFrontmatter : List Units → Option (List FrontmatterEntry × ℕ)
  | [] => none
  | first :: lines =>
    if first ≠ fence then none
    else
      (lines.findIdx? (· = fence)).map fun i => (((lines.take i).zipIdx 2).filterMap readEntry, i + 1)

/-- `ast.frontmatter` of what `parseMd` returns -/
def parseFrontmatter (raw : Units) : List FrontmatterEntry :=
  let withoutBom := if startsWith raw [0xFEFF] then raw.drop 1 else raw
  ((detectFrontmatter (splitLines withoutBom)).map Prod.fst).getD []

end ClawHarder.OcPaths
