import DeltaPreview.Text.Basic

/-!
# What can be wrong with a JSON text

Most faults stand at a position of the text; a number literal with too many digits, a literal that
is no JSON value, and nesting that is too deep are reported without one.
-/

namespace DeltaPreview.Json

/-- A fault that has a position. -/
inductive Cause where
  | expectedValue
  | expectedName
  | expectedColon
  | expectedComma
  | unterminatedString
  | controlCharacter
  | invalidEscape
  | invalidUnicodeEscape
  | extraData
  | byteOrderMark
  deriving DecidableEq, Repr

/-- The two kinds of values that nest. -/
inductive Bracket where
  | array
  | object
  deriving DecidableEq, Repr

/-- What stops the reading of a text.  While reading, the place of a fault is the text that is left
there; it is reported as a `Position`. -/
inductive Fault (Place : Type) where
  | at (cause : Cause) (place : Place)
  /-- A literal such as `NaN`. -/
  | notJson (literal : String)
  /-- An integer literal of this many digits. -/
  | tooManyDigits (count : Nat)
  | tooDeep (bracket : Bracket)
  deriving DecidableEq, Repr

/-- A place in a text: line and column from 1, offset from 0. -/
structure Position where
  line : Nat
  column : Nat
  offset : Nat
  deriving DecidableEq, Repr

/-- The place after the first `offset` code points of a text. -/
def Position.after (text : Text) (offset : Nat) : Position :=
  let before := text.take offset
  let isNewline : CodePoint → Bool := (· = .char '\n')
  ⟨before.countP isNewline + 1, (before.reverse.takeWhile (!isNewline ·)).length + 1, offset⟩

/-- The most digits that an integer literal may have. -/
def maxDigits : Nat := 4300

namespace Cause

def message : Cause → String
  | expectedValue => "Expecting value"
  | expectedName => "Expecting property name enclosed in double quotes"
  | expectedColon => "Expecting ':' delimiter"
  | expectedComma => "Expecting ',' delimiter"
  | unterminatedString => "Unterminated string starting at"
  | controlCharacter => "Invalid control character at"
  | invalidEscape => "Invalid \\escape"
  | invalidUnicodeEscape => "Invalid \\uXXXX escape"
  | extraData => "Extra data"
  | byteOrderMark => "Unexpected UTF-8 BOM (decode using utf-8-sig)"

end Cause

namespace Fault

/-- The fault with its position in the text that was read. -/
def locate (text : Text) : Fault Text → Fault Position
  | .at cause rest => .at cause (Position.after text (text.length - rest.length))
  | notJson literal => notJson literal
  | tooManyDigits count => tooManyDigits count
  | tooDeep bracket => tooDeep bracket

/-- What is reported of a fault. -/
def message : Fault Position → String
  | .at cause p =>
    cause.message ++ ": line " ++ toString p.line ++ " column " ++ toString p.column ++
      " (char " ++ toString p.offset ++ ")"
  | notJson literal => literal ++ " is not valid JSON"
  | tooManyDigits count =>
    "Exceeds the limit (" ++ toString maxDigits ++
      " digits) for integer string conversion: value has " ++ toString count ++
      " digits; use sys.set_int_max_str_digits() to increase the limit"
  | tooDeep .array =>
    "maximum recursion depth exceeded while decoding a JSON array from a unicode string"
  | tooDeep .object =>
    "maximum recursion depth exceeded while decoding a JSON object from a unicode string"

end Fault

end DeltaPreview.Json
