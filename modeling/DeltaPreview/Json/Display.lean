import DeltaPreview.Json.Printer
import DeltaPreview.Text.Printable

/-!
# Values shown as text

The text that stands for an embedded value which is not itself a text: `None`, `True` and `False`,
numbers, and lists and mappings whose texts are quoted.  A quoted text uses single quotes unless it
contains them and no double quotes, and escapes what is not printable.
-/

namespace DeltaPreview.Json

/-- A number in lower-case hexadecimal digits, at least `width` of them. -/
def hexText (width n : Nat) : List Char :=
  let digits := Nat.toDigits 16 n
  List.replicate (width - digits.length) '0' ++ digits

/-- The letters that stand for a few control characters. -/
def displayEscapes : List (Char × Char) := [('\t', 't'), ('\n', 'n'), ('\r', 'r')]

/-- A code point inside quotes. -/
def displayEscape (quote : Char) (g : CodePoint) : Text :=
  let plain : Option Text :=
    match g with
    | .surrogate _ => none
    | .char c =>
      if c = quote ∨ c = '\\' then some [.char '\\', g]
      else (displayEscapes.lookup c).map fun e => [.char '\\', .char e]
  match plain with
  | some t => t
  | none =>
    if g.isPrintable then [g]
    else if g.value < 0x100 then Text.ofChars ('\\' :: 'x' :: hexText 2 g.value)
    else if g.value < 0x10000 then Text.ofChars ('\\' :: 'u' :: hexText 4 g.value)
    else Text.ofChars ('\\' :: 'U' :: hexText 8 g.value)

/-- A text in quotes. -/
def displayQuoted (s : Text) : Text :=
  let quote := if s.contains (.char '\'') && !s.contains (.char '"') then '"' else '\''
  .char quote :: (s.flatMap (displayEscape quote) ++ [.char quote])

mutual

/-- A value inside another one. -/
def displayNested : Json → Text
  | null => Text.ofString "None"
  | bool true => Text.ofString "True"
  | bool false => Text.ofString "False"
  | int n => Text.ofChars (intText n)
  | float x => Text.ofChars x.text
  | string s => displayQuoted s
  | array vs => .char '[' :: (displayItems vs ++ [.char ']'])
  | object ms => .char '\x7b' :: (displayMembers ms ++ [.char '\x7d'])

/-- Values with commas between them. -/
def displayItems : List Json → Text
  | [] => []
  | [v] => displayNested v
  | v :: vs => displayNested v ++ Text.ofString ", " ++ displayItems vs

/-- Members with commas between them. -/
def displayMembers : List (Text × Json) → Text
  | [] => []
  | [(k, v)] => displayQuoted k ++ Text.ofString ": " ++ displayNested v
  | (k, v) :: ms =>
    displayQuoted k ++ Text.ofString ": " ++ displayNested v ++ Text.ofString ", " ++
      displayMembers ms

end

/-- The text shown for a value; a text stands for itself. -/
def display : Json → Text
  | string s => s
  | v => displayNested v

end DeltaPreview.Json
