import DeltaPreview.Json.Basic
import DeltaPreview.Double.Print

/-!
# Printing JSON

The pretty form puts every element and member on a line of its own, two spaces deeper than the
bracket around it.  Strings escape the quote, the backslash and control characters, and keep all
other code points.  Infinite doubles are written as words that no reader of JSON accepts.
-/

namespace DeltaPreview.Json

/-- The control characters that have an escape of one letter. -/
def shortEscapes : List (Char × Char) :=
  [('"', '"'), ('\\', '\\'), ('\n', 'n'), ('\r', 'r'), ('\t', 't'), ('\x08', 'b'), ('\x0c', 'f')]

/-- A code point inside a string literal. -/
def escape (g : CodePoint) : Text :=
  match g with
  | .surrogate _ => [g]
  | .char c =>
    match shortEscapes.lookup c with
    | some e => [.char '\\', .char e]
    | none =>
      if c.toNat < 0x20 then
        Text.ofString "\\u00" ++ (if c.toNat < 0x10 then [.char '0'] else []) ++
          Text.ofChars (Nat.toDigits 16 c.toNat)
      else [g]

/-- A string literal. -/
def quote (s : Text) : Text := .char '"' :: (s.flatMap escape ++ [.char '"'])

/-- A double as a number literal. -/
def floatText (x : Double) : List Char :=
  if x = .nan then "NaN".toList
  else if x = Double.infinity false then "Infinity".toList
  else if x = Double.infinity true then "-Infinity".toList
  else x.text

/-- An integer as a number literal. -/
def intText (n : Int) : List Char :=
  (if n < 0 then ['-'] else []) ++ Nat.toDigits 10 n.natAbs

/-- A line end and the indentation of the next line. -/
def newline (indent : Nat) : Text := .char '\n' :: List.replicate (2 * indent) (.char ' ')

mutual

/-- A value whose last line is indented `indent` steps. -/
def prettyAt (indent : Nat) : Json → Text
  | null => Text.ofString "null"
  | bool true => Text.ofString "true"
  | bool false => Text.ofString "false"
  | int n => Text.ofChars (intText n)
  | float x => Text.ofChars (floatText x)
  | string s => quote s
  | array [] => Text.ofString "[]"
  | array (v :: vs) =>
    .char '[' :: (newline (indent + 1) ++ prettyAt (indent + 1) v ++ prettyItems (indent + 1) vs ++
      newline indent ++ [.char ']'])
  | object [] => Text.ofString "\x7b\x7d"
  | object ((k, v) :: ms) =>
    .char '\x7b' :: (newline (indent + 1) ++ quote k ++ Text.ofString ": " ++
      prettyAt (indent + 1) v ++ prettyMembers (indent + 1) ms ++ newline indent ++ [.char '\x7d'])

/-- The elements after the first, each after a comma on a new line. -/
def prettyItems (indent : Nat) : List Json → Text
  | [] => []
  | v :: vs => .char ',' :: (newline indent ++ prettyAt indent v ++ prettyItems indent vs)

/-- The members after the first, each after a comma on a new line. -/
def prettyMembers (indent : Nat) : List (Text × Json) → Text
  | [] => []
  | (k, v) :: ms =>
    .char ',' :: (newline indent ++ quote k ++ Text.ofString ": " ++ prettyAt indent v ++
      prettyMembers indent ms)

end

/-- The pretty form of a value. -/
def pretty (v : Json) : Text := prettyAt 0 v

end DeltaPreview.Json
