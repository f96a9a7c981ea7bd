import DeltaPreview.Yaml.Cursor
import DeltaPreview.Yaml.Scalar

/-!
# Scalars of YAML

Plain and quoted scalars may run over several lines, which are folded: a single line end becomes a
space, and an empty line a line end.  Block scalars keep their lines, or fold them too.
-/

namespace DeltaPreview.Yaml

/-- What becomes of the line ends of a folded gap: a single line feed is a space. -/
def foldBreaks : List Char → List Char
  | '\n' :: [] => [' ']
  | '\n' :: breaks => breaks
  | breaks => breaks

/-- A character that begins no plain scalar. -/
def isIndicator (c : Char) : Bool := "-?:,[]\x7b\x7d#&*!|>'\"%@`".toList.contains c

/-- A bracket or a comma of a flow collection. -/
def isFlowMark (c : Char) : Bool := ",[]\x7b\x7d".toList.contains c

/-- Whether a plain scalar begins at a cursor. -/
def Cursor.beginsPlain (c : Cursor) (inFlow : Bool) : Bool :=
  match c.peek 0 with
  | none => false
  | some d =>
    !(isGap d || isIndicator d) ||
      (!c.gapAt 1 && (d == '-' || (!inFlow && (d == '?' || d == ':'))))

/-- The length of the part of a plain scalar that has no gap. -/
def plainLength (inFlow : Bool) : List Char → Nat
  | [] => 0
  | c :: rest =>
    let ends := isGap c || (inFlow && (isFlowMark c || c == '?')) ||
      (c == ':' && (rest.head?.all isGap || (inFlow && rest.head?.any isFlowMark)))
    if ends then 0 else plainLength inFlow rest + 1

/-- The rest of a plain scalar whose first part is read; lines of it are indented by `indent` at
least.  `fuel` bounds the number of parts. -/
def plainRest (inFlow : Bool) (indent : Nat) : Nat → List Char → Reader (List Char)
  | 0, text => return text
  | fuel + 1, text => do
    let before ← get
    let spaces ← takeWhile (· == ' ')
    let gap ← takeWhile fun c => c == ' ' || isBreak c
    let c ← get
    let onNewLine := c.line != before.line
    let length := plainLength inFlow c.rest
    let continues := length != 0 && c.peek 0 != some '#' && !(spaces.isEmpty && gap.isEmpty) &&
      (!onNewLine || (!c.atDocumentEnd && (inFlow || indent ≤ c.column)))
    if continues then
      forward length
      plainRest inFlow indent fuel
        (text ++ (if onNewLine then foldBreaks (gap.filter isBreak) else spaces) ++
          c.rest.take length)
    else
      set before
      return text

/-- A plain scalar. -/
def plain (inFlow : Bool) (indent : Nat) : Reader (List Char) := do
  let c ← get
  let length := plainLength inFlow c.rest
  if length = 0 then failure
  forward length
  plainRest inFlow indent c.rest.length (c.rest.take length)

/-- The gap inside a quoted scalar: spaces stay, line ends are folded. -/
def quotedGap : Reader (List Char) := do
  let before ← get
  let gap ← takeWhile isGap
  let after ← get
  if after.line = before.line then return gap
  else if after.isMarker "---" || after.isMarker "..." then failure
  else return foldBreaks (gap.filter isBreak)

/-- A scalar in single quotes, after the opening one.  `fuel` bounds the number of its parts. -/
def singleQuoted : Nat → List Char → Reader (List Char)
  | 0, _ => failure
  | fuel + 1, text => do
    let c ← get
    match c.rest with
    | '\'' :: '\'' :: _ => forward 2; singleQuoted fuel (text ++ ['\''])
    | '\'' :: _ => forward 1; return text
    | d :: _ =>
      if isGap d then
        let gap ← quotedGap
        singleQuoted fuel (text ++ gap)
      else
        let part ← takeWhile fun c => !isGap c && c != '\''
        singleQuoted fuel (text ++ part)
    | [] => failure

/-- The characters that a backslash and a character stand for. -/
def escapes : List (Char × Char) :=
  [('0', '\x00'), ('a', '\x07'), ('b', '\x08'), ('t', '\t'), ('\t', '\t'), ('n', '\n'),
    ('v', '\x0b'), ('f', '\x0c'), ('r', '\r'), ('e', '\x1b'), (' ', ' '), ('"', '"'),
    ('\\', '\\'), ('/', '/'), ('N', '\x85'), ('_', '\xa0'), ('L', '\u2028'), ('P', '\u2029')]

/-- The lengths of the numeric escapes. -/
def numericEscapes : List (Char × Nat) := [('x', 2), ('u', 4), ('U', 8)]

/-- An escape, after its backslash. -/
def escape : Reader (List Char) := do
  match ← peek with
  | none => failure
  | some d =>
    match escapes.lookup d, numericEscapes.lookup d with
    | some e, _ => forward 1; return [e]
    | none, some width =>
      forward 1
      let digits := (← get).rest.take width
      let number := numberOf 16 digits
      if digits.length = width ∧ digits.all isHexDigit ∧ number.isValidChar then
        forward width
        return [Char.ofNat number]
      else failure
    | none, none =>
      if isBreak d then
        let gap ← takeWhile isGap
        let after ← get
        if after.isMarker "---" || after.isMarker "..." then failure
        else return (gap.filter isBreak).drop 1
      else failure

/-- A scalar in double quotes, after the opening one.  `fuel` bounds the number of its parts. -/
def doubleQuoted : Nat → List Char → Reader (List Char)
  | 0, _ => failure
  | fuel + 1, text => do
    match ← peek with
    | some '"' => forward 1; return text
    | some '\\' => do
      forward 1
      let e ← escape
      doubleQuoted fuel (text ++ e)
    | some d =>
      if isGap d then
        let gap ← quotedGap
        doubleQuoted fuel (text ++ gap)
      else
        let part ← takeWhile fun c => !isGap c && c != '"' && c != '\\'
        doubleQuoted fuel (text ++ part)
    | none => failure

/-- What becomes of the line ends at the end of a block scalar. -/
inductive Chomping where
  | clip
  | strip
  | keep
  deriving DecidableEq

/-- The header of a block scalar after its first character: chomping and an explicit indentation. -/
def blockHeader : Reader (Chomping × Option Nat) := do
  let marks ← takeWhile fun c => c == '+' || c == '-' || c.isDigit
  let chomping (c : Char) : Option Chomping :=
    if c == '+' then some .keep else if c == '-' then some .strip else none
  let digit (c : Char) : Option Nat :=
    if c.isDigit && c != '0' then some (c.toNat - '0'.toNat) else none
  let header ← match marks with
    | [] => pure (.clip, none)
    | [a] => match chomping a, digit a with
      | some k, _ => pure (k, none)
      | none, some n => pure (.clip, some n)
      | none, none => failure
    | [a, b] => match chomping a, digit b, digit a, chomping b with
      | some k, some n, _, _ => pure (k, some n)
      | _, _, some n, some k => pure (k, some n)
      | _, _, _, _ => failure
    | _ => failure
  let spaces ← takeWhile (· == ' ')
  if (← peek) = some '#' ∧ spaces ≠ [] then
    let _ ← takeWhile (!isBreak ·)
  match ← peek with
  | none => return header
  | some d => if isBreak d then forward 1; return header else failure

/-- A line of a text with its line end, which the last line may lack. -/
structure Line where
  body : List Char
  ending : List Char

/-- The lines of a text. -/
def linesOf : List Char → List Line
  | [] => []
  | c :: rest =>
    if isBreak c then ⟨[], [c]⟩ :: linesOf rest
    else match linesOf rest with
      | [] => [⟨[c], []⟩]
      | line :: lines => ⟨c :: line.body, line.ending⟩ :: lines

/-- The number of spaces that begin a line. -/
def Line.indent (l : Line) : Nat := (l.body.takeWhile (· == ' ')).length

/-- Whether a line has nothing but spaces. -/
def Line.isBlank (l : Line) : Bool := l.body.all (· == ' ')

/-- Whether a line of a block scalar has no text: nothing but its indentation. -/
def Line.isEmpty (width : Nat) (l : Line) : Bool := l.isBlank && l.body.length ≤ width

/-- The indentation of a block scalar that does not name it: that of the first line with text, or of
a longer line before it. -/
def blockWidth (least : Nat) (lines : List Line) : Nat :=
  let blank := lines.takeWhile Line.isBlank
  let first := (lines.drop blank.length).head?.elim 0 Line.indent
  blank.foldl (fun n l => max n l.body.length) (max least first)

/-- A line of text of a block scalar, and the ends of the empty lines after it. -/
structure Paragraph where
  text : List Char
  ending : List Char
  breaks : List Char

/-- The lines of text of a block scalar with the ends of the empty lines before and after. -/
def paragraphs (width : Nat) : List Line → List Char × List Paragraph
  | [] => ([], [])
  | l :: rest =>
    let (breaks, later) := paragraphs width rest
    if l.isEmpty width then (l.ending ++ breaks, later)
    else ([], ⟨l.body.drop width, l.ending, breaks⟩ :: later)

/-- Whether a line of text is not indented further. -/
def Paragraph.isFlush (p : Paragraph) : Bool := p.text.head?.any fun c => c != ' ' && c != '\t'

/-- The text of a block scalar.  In a folded one, the end of a line between two flush lines is a
space, or nothing if empty lines follow. -/
def joinParagraphs (folded : Bool) (chomping : Chomping) : List Paragraph → List Char
  | [] => []
  | [p] => p.text ++ match chomping with
    | .strip => []
    | .clip => p.ending
    | .keep => p.ending ++ p.breaks
  | p :: next :: rest =>
    let joint :=
      if folded && p.ending == ['\n'] && p.isFlush && next.isFlush then
        if p.breaks.isEmpty then [' '] else []
      else p.ending
    p.text ++ joint ++ p.breaks ++ joinParagraphs folded chomping (next :: rest)

/-- A block scalar whose lines are indented by `least` at least, after its first character. -/
def blockScalar (folded : Bool) (least : Nat) : Reader (List Char) := do
  let (chomping, explicit) ← blockHeader
  let lines := linesOf (← get).rest
  let least := max least 1
  let width := match explicit with
    | some n => least + n - 1
    | none => blockWidth least lines
  let body := lines.takeWhile fun l => l.isEmpty width || width ≤ l.indent
  forward (body.foldl (fun n l => n + l.body.length + l.ending.length) 0)
  let (breaks, found) := paragraphs width body
  return if found.isEmpty then if chomping = .keep then breaks else []
    else breaks ++ joinParagraphs folded chomping found

end DeltaPreview.Yaml
