import DeltaPreview.Json.Display
import DeltaPreview.Text.Compatible

/-!
# Paths

A path is a number of names, below the root or below the working directory.  Slashes in a row, a
slash at the end and the name `.` mean nothing; the name `..` is kept, because what it leads to
depends on the files.

The system knows names as bytes.  Characters stand for their encoding in UTF-8, and a byte that is
no text reaches a path as a surrogate that stands alone, from `U+DC80` to `U+DCFF`.  No other
surrogate stands for anything.
-/

namespace DeltaPreview.File

/-- A path: the slashes of its root, and its names. -/
structure Path where
  root : Text
  names : List Text
  deriving DecidableEq, Repr

namespace Path

/-- What separates names. -/
def slash : CodePoint := .char '/'

/-- What separates the suffix of a name from its stem. -/
def point : CodePoint := .char '.'

/-- The slashes of the root of a path: exactly two count as two, any other number as one. -/
def rootOf (t : Text) : Text :=
  match (t.takeWhile (· == slash)).length with
  | 0 => []
  | 2 => [slash, slash]
  | _ => [slash]

/-- The path that a text spells. -/
def ofText (t : Text) : Path :=
  ⟨rootOf t, (t.splitOn slash).filter fun name => name != [] && name != [point]⟩

/-- The spelling of a path; the one without names is a point. -/
def text (p : Path) : Text :=
  if p.root.isEmpty && p.names.isEmpty then [point]
  else p.root ++ List.intercalate [slash] p.names

/-- The length of a name without its suffix: the part from the last point on, if something stands
before and after it. -/
def stemLength (name : Text) : Nat :=
  let tail := name.reverse.takeWhile (· != point)
  let before := name.length - tail.length - 1
  if tail.length < name.length ∧ 0 < before ∧ 0 < tail.length then before else name.length

/-- A name whose suffix is replaced. -/
def replaceSuffix (suffix : Text) (name : Text) : Text := name.take (stemLength name) ++ suffix

/-- The path whose last name has another suffix, if it has a name. -/
def withSuffix? (p : Path) (suffix : Text) : Option Path :=
  match p.names.getLast? with
  | some last => some ⟨p.root, p.names.dropLast ++ [replaceSuffix suffix last]⟩
  | none => none

end Path

/-! ### Bytes -/

/-- A name as the system knows it. -/
abbrev Name := List UInt8

/-- Whether a surrogate stands for a byte. -/
def isEscape (i : Fin 2048) : Bool := 0x480 ≤ i.val && i.val < 0x500

/-- The bytes that a code point stands for. -/
def codePointBytes : CodePoint → List UInt8
  | .char c => String.utf8EncodeChar c
  | .surrogate i => if isEscape i then [UInt8.ofNat (i.val - 0x400)] else []

/-- The bytes that a text stands for; surrogates that stand for none are left out. -/
def textBytes (t : Text) : List UInt8 := t.flatMap codePointBytes

/-- The first surrogate that stands for no byte, with the surrogates that follow it, and how much
stands before it. -/
def firstUnencodable : Text → Option (Nat × List (Fin 2048))
  | [] => none
  | .char _ :: rest => (firstUnencodable rest).map fun (n, run) => (n + 1, run)
  | .surrogate i :: rest =>
    if isEscape i then (firstUnencodable rest).map fun (n, run) => (n + 1, run)
    else some (0, i :: Text.leadingSurrogates rest)

end DeltaPreview.File
