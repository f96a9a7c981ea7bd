import DeltaPreview.Delta.Document

/-!
# Attributes of an operation

The attribute bag of an operation, read into typed fields.  Unknown keys are ignored, and a value of
the wrong kind counts as absent.  Only a font size too large for a double cannot be read.
-/

namespace DeltaPreview

/-- The levels of headings. -/
inductive HeadingLevel where
  | one
  | two
  | three
  deriving DecidableEq, Repr

/-- The kinds of lists. -/
inductive ListKind where
  | bullet
  | ordered
  deriving DecidableEq, Repr

/-- The alignments of a block. -/
inductive Alignment where
  | left
  | center
  | right
  | justify
  deriving DecidableEq, Repr

namespace HeadingLevel

def number : HeadingLevel → Nat
  | one => 1
  | two => 2
  | three => 3

/-- The level of a number. -/
def ofInt? : Int → Option HeadingLevel
  | 1 => some one
  | 2 => some two
  | 3 => some three
  | _ => none

end HeadingLevel

namespace ListKind

def name : ListKind → String
  | bullet => "bullet"
  | ordered => "ordered"

/-- The kind of a name. -/
def ofText? (t : Text) : Option ListKind :=
  if t = Text.ofString "bullet" then some bullet
  else if t = Text.ofString "ordered" then some ordered
  else none

end ListKind

namespace Alignment

def name : Alignment → String
  | left => "left"
  | center => "center"
  | right => "right"
  | justify => "justify"

/-- The alignment of a name. -/
def ofText? (t : Text) : Option Alignment :=
  [left, center, right, justify].find? fun a => t = Text.ofString a.name

end Alignment

/-- The attributes that bear on the display of an operation. -/
structure Attributes where
  bold : Bool
  italic : Bool
  underline : Bool
  strike : Bool
  code : Bool
  link : Option Text
  formula : Bool
  header : Option HeadingLevel
  blockquote : Bool
  codeBlock : Bool
  listKind : Option ListKind
  align : Option Alignment
  size : Option Double
  deriving DecidableEq, Repr

namespace Attributes

/-- No attributes. -/
def plain : Attributes :=
  ⟨false, false, false, false, false, none, false, none, false, false, none, none, none⟩

/-- The value of a key, or of its other spelling when the key is missing. -/
def member (names : List String) (bag : List (Text × Json)) : Json :=
  (names.findSome? fun name => Json.lookup (Text.ofString name) bag).getD .null

/-- A link is a text that is not empty. -/
def readLink : Json → Option Text
  | .string (g :: t) => some (g :: t)
  | _ => none

/-- A heading level is the number 1, 2 or 3. -/
def readHeader : Json → Option HeadingLevel
  | .int n => HeadingLevel.ofInt? n
  | .float x => x.toInt?.bind HeadingLevel.ofInt?
  | _ => none

def readListKind : Json → Option ListKind
  | .string t => ListKind.ofText? t
  | _ => none

/-- Anything that is set but names no alignment aligns to the left. -/
def readAlign (v : Json) : Option Alignment :=
  if v.truthy then
    match v with
    | .string t => some ((Alignment.ofText? t).getD .left)
    | _ => some .left
  else none

/-- A font size is a positive number. -/
def readSize : Json → Except Misfit (Option Double)
  | .int n =>
    if 0 < n then
      match Double.ofInt? n with
      | some x => .ok (some x)
      | none => .error .fontSize
    else .ok none
  | .float x => .ok (if x.isPositive then some x else none)
  | _ => .ok none

/-- Reads an attribute bag; what is no object has no attributes. -/
def ofJson : Json → Except Misfit Attributes
  | .object bag => do
    let size ← readSize (member ["size"] bag)
    return {
      bold := (member ["bold"] bag).truthy
      italic := (member ["italic"] bag).truthy
      underline := (member ["underline"] bag).truthy
      strike := (member ["strike"] bag).truthy
      code := (member ["code"] bag).truthy
      link := readLink (member ["link"] bag)
      formula := (member ["formula"] bag).truthy
      header := readHeader (member ["header"] bag)
      blockquote := (member ["blockquote"] bag).truthy
      codeBlock := (member ["code-block", "code_block"] bag).truthy
      listKind := readListKind (member ["list", "list_kind"] bag)
      align := readAlign (member ["align"] bag)
      size }
  | _ => .ok plain

end Attributes

end DeltaPreview
