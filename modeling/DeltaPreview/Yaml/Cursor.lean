import DeltaPreview.Text.Line
import DeltaPreview.Yaml.Node

/-!
# Positions in a YAML text

A cursor is the text that is left, with the line and the column where it begins.  Indentation is
what structures blocks, so every step keeps track of the column.  Readers that meet something that
is not well formed have no result.
-/

namespace DeltaPreview.Yaml

/-- A position in a text, and the nodes that have been given a name so far. -/
structure Cursor where
  line : Nat
  column : Nat
  rest : List Char
  anchors : List (List Char × Node)

/-- Reads something from a cursor, or finds that it is malformed. -/
abbrev Reader := StateT Cursor Option

/-- A line end. -/
def isBreak (c : Char) : Bool := c == '\n' || c == '\u2028' || c == '\u2029'

/-- A space, a tab or a line end. -/
def isGap (c : Char) : Bool := c == ' ' || c == '\t' || isBreak c

/-- A character that a text may contain. -/
def isPrintable (c : Char) : Bool :=
  let n := c.toNat
  n == 0x9 || n == 0xA || n == 0xD || (0x20 ≤ n && n ≤ 0x7E) || n == 0x85 ||
    (0xA0 ≤ n && n ≤ 0xD7FF) || (0xE000 ≤ n && n ≤ 0xFFFD) || 0x10000 ≤ n

/-- A text whose lines end in line feeds, those that end in a next-line character as well. -/
def withLineFeeds (s : List Char) : List Char :=
  (normalizeLines s).map fun c => if c == '\x85' then '\n' else c

namespace Cursor

/-- The cursor at the beginning of a text; a byte order mark there is no part of it. -/
def ofChars (s : List Char) : Cursor :=
  let text := withLineFeeds s
  ⟨0, 0, if text.head? = some '\ufeff' then text.drop 1 else text, []⟩

/-- The cursor after some characters. -/
def advance (c : Cursor) : Nat → Cursor
  | 0 => c
  | n + 1 =>
    match c.rest with
    | [] => c
    | d :: rest =>
      advance (if isBreak d then ⟨c.line + 1, 0, rest, c.anchors⟩
        else ⟨c.line, c.column + 1, rest, c.anchors⟩) n

/-- Skips spaces, line ends and comments. -/
def skipFrom (line column : Nat) (anchors : List (List Char × Node)) (inComment : Bool) :
    List Char → Cursor
  | [] => ⟨line, column, [], anchors⟩
  | d :: rest =>
    if isBreak d then skipFrom (line + 1) 0 anchors false rest
    else if inComment || d == ' ' then skipFrom line (column + 1) anchors inComment rest
    else if d == '#' then skipFrom line (column + 1) anchors true rest
    else ⟨line, column, d :: rest, anchors⟩

/-- The cursor at the next token. -/
def skip (c : Cursor) : Cursor := skipFrom c.line c.column c.anchors false c.rest

/-- The character at a distance. -/
def peek (c : Cursor) (n : Nat) : Option Char := c.rest[n]?

/-- Whether a gap or the end of the text is at a distance. -/
def gapAt (c : Cursor) (n : Nat) : Bool := (c.peek n).all isGap

/-- Whether an indicator stands alone at the cursor. -/
def indicates (c : Cursor) (mark : Char) : Bool := c.peek 0 == some mark && c.gapAt 1

/-- Whether one of some characters is at the cursor. -/
def isAt (c : Cursor) (marks : List Char) : Bool := (c.peek 0).any marks.contains

/-- Whether a marker between documents begins a line at the cursor. -/
def isMarker (c : Cursor) (mark : String) : Bool :=
  c.column == 0 && mark.toList.isPrefixOf c.rest && c.gapAt 3

/-- Whether a document ends at the cursor. -/
def atDocumentEnd (c : Cursor) : Bool :=
  c.rest.isEmpty || c.isMarker "---" || c.isMarker "..."

end Cursor

/-- The character at the cursor. -/
def peek : Reader (Option Char) := return (← get).peek 0

/-- Moves on by some characters. -/
def forward (n : Nat) : Reader Unit := modify (·.advance n)

/-- Takes the characters of a class that come next. -/
def takeWhile (p : Char → Bool) : Reader (List Char) := do
  let taken := (← get).rest.takeWhile p
  forward taken.length
  return taken

/-- The next token's place, and whether it is the first of its line after the cursor. -/
def nextToken : Reader (Cursor × Bool) := do
  let c ← get
  let next := c.skip
  return (next, c.line != next.line || c.column == 0)

end DeltaPreview.Yaml
