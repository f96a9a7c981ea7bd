import DeltaPreview.Markup.Html.Names
import DeltaPreview.Markup.Xml.Event

/-!
# References in HTML

An ampersand begins a reference if the longest known name, or a number, follows it; otherwise it
stands for itself.  A few numbers name other characters than their own.
-/

namespace DeltaPreview.Html

/-- The longest named character that begins a text, and the text after it. -/
def named? (s : List Char) : Option (NamedChar × Bool × List Char) :=
  let candidates := namedChars.filterMap fun n =>
    match Xml.after? n.name s with
    | none => none
    | some (';' :: rest) => some (n, true, rest)
    | some rest => if n.needsSemicolon then none else some (n, false, rest)
  candidates.foldl (fun best c =>
    match best with
    | none => some c
    | some b => if c.2.2.length < b.2.2.length then some c else some b) none

/-- The characters that the numbers from 128 to 159 name. -/
def renumbered : List Nat := [
  0x20AC, 0x81, 0x201A, 0x192, 0x201E, 0x2026, 0x2020, 0x2021, 0x2C6, 0x2030, 0x160, 0x2039, 0x152,
  0x8D, 0x17D, 0x8F, 0x90, 0x2018, 0x2019, 0x201C, 0x201D, 0x2022, 0x2013, 0x2014, 0x2DC, 0x2122,
  0x161, 0x203A, 0x153, 0x9D, 0x17E, 0x178]

/-- The character that a number names. -/
def numbered (n : Nat) : Char :=
  if n = 0 ∨ 0x10FFFF < n ∨ (0xD800 ≤ n ∧ n < 0xE000) then '\ufffd'
  else if 0x80 ≤ n then Char.ofNat (renumbered.getD (n - 0x80) n)
  else Char.ofNat n

/-- A digit of a base. -/
def isDigitOf (base : Nat) (c : Char) : Bool := (Xml.digit? base c).isSome

/-- A numeric reference in a base, given the text at its digits. -/
def number? (base : Nat) (s : List Char) : Option (List Char × List Char) :=
  (Xml.number? base (s.takeWhile (isDigitOf base))).map fun n =>
    match s.dropWhile (isDigitOf base) with
    | ';' :: rest => ([numbered n], rest)
    | rest => ([numbered n], rest)

/-- A reference, given the text after its ampersand.  In an attribute value a name without its
semicolon is no reference if the text goes on with a letter, a digit or an equals sign. -/
def reference? (inValue : Bool) (s : List Char) : Option (List Char × List Char) :=
  match s with
  | '#' :: 'x' :: rest => number? 16 rest
  | '#' :: 'X' :: rest => number? 16 rest
  | '#' :: rest => number? 10 rest
  | _ =>
    match named? s with
    | none => none
    | some (n, complete, rest) =>
      if inValue && !complete && rest.head?.any (fun c => c.isAlphanum || c == '=') then none
      else some (n.chars, rest)

/-- A text with its references resolved; `skip` characters at its beginning belong to a reference
that is resolved already. -/
def resolve (inValue : Bool) (skip : Nat) : List Char → List Char
  | [] => []
  | c :: rest =>
    match skip with
    | skip + 1 => resolve inValue skip rest
    | 0 =>
      if c = '&' then
        match reference? inValue rest with
        | some (cs, after) => cs ++ resolve inValue (rest.length - after.length) rest
        | none => c :: resolve inValue 0 rest
      else c :: resolve inValue 0 rest

end DeltaPreview.Html
