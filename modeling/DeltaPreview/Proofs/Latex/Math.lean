import DeltaPreview.Latex.Parser

/-!
# Formulas

The structure of a formula, before it is decided how it is laid out: leaves, spaces, rows,
fractions, roots, accents, scripts and tables.  Building it from the tokens (`parse`) keeps all that
the parser has found and nothing else, so what holds of the parser can be said of structures.
-/

namespace DeltaPreview.Latex

/-- A formula. -/
inductive Math where
  | leaf (leaf : Leaf)
  | space (width : String)
  | newline
  | row (children : List Math)
  /-- A fraction, with a line or without one. -/
  | fraction (line : Bool) (numerator denominator : Math)
  | sqrt (children : List Math)
  | root (base index : Math)
  | accent (base : Math) (mark : Leaf)
  | sub (base sub : Math)
  | sup (base sup : Math)
  | subsup (base sub sup : Math)
  /-- A table of rows of cells. -/
  | table (leftAligned : Bool) (rows : List (List (List Math)))
  deriving Repr, BEq

namespace Math

/-- A sequence of formulas as one: itself if it is a single one, a row otherwise. -/
def single : List Math → Math
  | [m] => m
  | ms => row ms

/-- The delimiter on one side of a row; an invisible one takes no place. -/
def fence : List Char → List Math
  | [] => []
  | text => [leaf (.operator text .fence)]

/-- A row between delimiters. -/
def fenced (left : List Char) (content : List Math) (right : List Char) : Math :=
  row (fence left ++ content ++ fence right)

/-- A root; without an index, or with an empty one, a square root. -/
def radical (index : Option (List Math)) (base : List Math) : Math :=
  match index with
  | some (i :: is) => root (single base) (single (i :: is))
  | _ => sqrt base

end Math

/-- A base with its scripts; without any it stays a sequence. -/
def Scripts.attach (base : List Math) : Scripts Math → List Math
  | ⟨some lower, some upper⟩ => [.subsup (.single base) (.single lower) (.single upper)]
  | ⟨some lower, .none⟩ => [.sub (.single base) (.single lower)]
  | ⟨.none, some upper⟩ => [.sup (.single base) (.single upper)]
  | ⟨.none, .none⟩ => base

namespace Math

mutual

/-- The formula with all its leaves in another alphabet. -/
def withVariant (v : Variant) : Math → Math
  | leaf l => leaf (l.withVariant v)
  | space width => space width
  | newline => newline
  | row children => row (withVariants v children)
  | fraction line numerator denominator =>
    fraction line (withVariant v numerator) (withVariant v denominator)
  | sqrt children => sqrt (withVariants v children)
  | root base index => root (withVariant v base) (withVariant v index)
  | accent base mark => accent (withVariant v base) (mark.withVariant v)
  | sub base lower => sub (withVariant v base) (withVariant v lower)
  | sup base upper => sup (withVariant v base) (withVariant v upper)
  | subsup base lower upper =>
    subsup (withVariant v base) (withVariant v lower) (withVariant v upper)
  | table leftAligned rows => table leftAligned (withVariantRows v rows)

/-- The formulas of a sequence with all their leaves in another alphabet. -/
def withVariants (v : Variant) : List Math → List Math
  | [] => []
  | m :: ms => withVariant v m :: withVariants v ms

/-- The cells of a table row with all their leaves in another alphabet. -/
def withVariantCells (v : Variant) : List (List Math) → List (List Math)
  | [] => []
  | cell :: cells => withVariants v cell :: withVariantCells v cells

/-- The rows of a table with all their leaves in another alphabet. -/
def withVariantRows (v : Variant) : List (List (List Math)) → List (List (List Math))
  | [] => []
  | cells :: rows => withVariantCells v cells :: withVariantRows v rows

end

end Math

/-- The structure of a formula is built part by part. -/
instance : Builder Math where
  leaf := .leaf
  space := .space
  newline := .newline
  row := .row
  fraction line numerator denominator := .fraction line (.single numerator) (.single denominator)
  radical := Math.radical
  accent base mark := .accent (.single base) (.operator [mark] .fixed)
  attach base scripts := scripts.attach base
  fenced := Math.fenced
  table := .table
  withVariants := Math.withVariants

/-- The formula of an environment with the given rows. -/
def Environment.formula (e : Environment) (rows : List (List (List Math))) : Math :=
  let table := Math.table e.leftAligned (dropEmptyRow rows)
  if e.left.isEmpty && e.right.isEmpty then table else Math.fenced e.left [table] e.right

section Building

variable (ms : List Math)

@[simp] theorem build_leaf (l : Leaf) : (Builder.leaf l : Math) = .leaf l := rfl

@[simp] theorem build_space (width : String) : (Builder.space width : Math) = .space width := rfl

@[simp] theorem build_newline : (Builder.newline : Math) = .newline := rfl

@[simp] theorem build_row : Builder.row ms = Math.row ms := rfl

@[simp] theorem build_fraction (line : Bool) (ns : List Math) :
    Builder.fraction line ms ns = Math.fraction line (.single ms) (.single ns) := rfl

@[simp] theorem build_radical (index : Option (List Math)) :
    Builder.radical index ms = Math.radical index ms := rfl

@[simp] theorem build_accent (mark : Char) :
    Builder.accent ms mark = Math.accent (.single ms) (.operator [mark] .fixed) := rfl

@[simp] theorem build_attach (scripts : Scripts Math) :
    Builder.attach ms scripts = scripts.attach ms := rfl

@[simp] theorem build_fenced (left right : List Char) :
    Builder.fenced left ms right = Math.fenced left ms right := rfl

@[simp] theorem build_table (leftAligned : Bool) (rows : List (List (List Math))) :
    Builder.table leftAligned rows = Math.table leftAligned rows := rfl

@[simp] theorem build_withVariants (v : Variant) :
    Builder.withVariants v ms = Math.withVariants v ms := rfl

@[simp] theorem Environment.build_eq_formula (e : Environment) (rows : List (List (List Math))) :
    e.build rows = e.formula rows := rfl

end Building

/-- The formulas of a token list. -/
def parse (ts : List Token) : Except Fault (List Math) := parseAs Math ts

end DeltaPreview.Latex
