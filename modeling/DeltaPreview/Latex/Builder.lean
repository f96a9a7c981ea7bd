/-!
# The parts of a formula

Leaves are what a formula is made of.  A parser that finds them does not decide what the rows,
fractions, roots, accents, scripts and tables around them become: a `Builder` says how each of these
is put together from its own parts.  The elements of a layout are one thing that can be built.
-/

namespace DeltaPreview.Latex

/-- The alphabets of letters. -/
inductive Variant where
  | bold
  | normal
  | italic
  | script
  | doubleStruck
  | fraktur
  | sansSerif
  | monospace
  | boldItalic
  deriving DecidableEq, Repr

def Variant.name : Variant → String
  | bold => "bold"
  | normal => "normal"
  | italic => "italic"
  | script => "script"
  | doubleStruck => "double-struck"
  | fraktur => "fraktur"
  | sansSerif => "sans-serif"
  | monospace => "monospace"
  | boldItalic => "bold-italic"

/-- The kinds of leaves. -/
inductive LeafKind where
  | identifier
  | number
  | operator
  | text
  deriving DecidableEq, Repr

/-- What else is known of an operator. -/
inductive LeafRole where
  | plain
  /-- A delimiter that grows with what it encloses. -/
  | fence
  /-- A large operator. -/
  | large
  /-- An operator that never grows. -/
  | fixed
  deriving DecidableEq, Repr

/-- A leaf of a formula. -/
structure Leaf where
  kind : LeafKind
  text : List Char
  role : LeafRole
  variant : Option Variant
  deriving DecidableEq, Repr

/-- An operator without attributes. -/
def Leaf.operator (text : List Char) (role : LeafRole) : Leaf := ⟨.operator, text, role, none⟩

/-- The leaf in another alphabet. -/
def Leaf.withVariant (v : Variant) (l : Leaf) : Leaf := { l with variant := some v }

/-- The scripts of a base. -/
structure Scripts (α : Type) where
  lower : Option (List α)
  upper : Option (List α)
  deriving Repr

/-- No scripts. -/
def Scripts.none {α : Type} : Scripts α := ⟨.none, .none⟩

/-- How the parts of a formula are put together.  An argument is a sequence of parts. -/
class Builder (α : Type) where
  leaf (l : Leaf) : α
  space (width : String) : α
  newline : α
  row (parts : List α) : α
  /-- A fraction, with a line or without one. -/
  fraction (line : Bool) (numerator denominator : List α) : α
  /-- A root; without an index, or with an empty one, a square root. -/
  radical (index : Option (List α)) (base : List α) : α
  accent (base : List α) (mark : Char) : α
  /-- A base with its scripts; without any it stays a sequence. -/
  attach (base : List α) (scripts : Scripts α) : List α
  /-- A sequence between delimiters; an invisible one takes no place. -/
  fenced (left : List Char) (content : List α) (right : List Char) : α
  table (leftAligned : Bool) (rows : List (List (List α))) : α
  /-- The parts with all their leaves in another alphabet. -/
  withVariants (v : Variant) (parts : List α) : List α

end DeltaPreview.Latex
