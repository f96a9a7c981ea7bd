import DeltaPreview.Latex.Typeset

/-!
# Expressions and their spelling

An expression is built from symbols by rows, fractions, roots, accents, scripts, delimiters and
matrices.  It has a spelling, with every argument and every script in braces and one space between
tokens, and a tree of presentation markup for each layout.  Both follow the structure of the
expression; neither knows of the parser.

What an expression can hold is fixed by its type: names come with their entry in a table, a root has
an index that is not empty or none, scripts stand on an element without scripts, and a row of a
matrix has at least one cell.
-/

namespace DeltaPreview.Latex

/-! ### Expressions -/

namespace Expression

/-- The signs that stand for operators, and how they are set. -/
def signs : List (Char × Char) := [
  ('+', '+'), ('-', '−'), ('*', '∗'), ('=', '='), ('<', '<'), ('>', '>'), ('(', '('), (')', ')'),
  (',', ',')]

/-- An unsigned decimal number; the digits after the point may be missing together with it. -/
structure Decimal where
  whole : List Char
  fraction : List Char
  whole_ne_nil : whole ≠ []
  isDigit : ∀ c ∈ whole ++ fraction, c.isDigit = true

/-- The digits and the point. -/
def Decimal.digits (d : Decimal) : List Char :=
  match d.fraction with
  | [] => d.whole
  | c :: cs => d.whole ++ '.' :: c :: cs

/-- A symbol: a single token of an expression. -/
inductive Symbol where
  | letter (c : Char) (hletter : c.isAlpha = true)
  | number (value : Decimal)
  | sign (c shown : Char) (hsign : (c, shown) ∈ signs)
  | greek (name : String) (c : Char) (hname : (name, c) ∈ greekLetters)
  | operator (name : String) (c : Char) (hname : (name, c) ∈ operators)
  | function (name : String) (hname : name ∈ functions)
  | large (name : String) (c : Char) (hname : (name, c) ∈ largeOperators)

/-- A delimiter: its token, and how it is set. -/
structure Delimiter where
  token : Token
  text : List Char
  known : token.delimiter? = some text

/-- An environment that makes a matrix.  Arrays are others: a column specification follows them. -/
structure MatrixKind where
  name : String
  style : Environment
  known : (name, style) ∈ environments
  name_ne : name ≠ "array"

mutual

/-- An element: what scripts can stand on. -/
inductive Element where
  | symbol (s : Symbol)
  | group (content : List Item)
  | fraction (name : String) (hname : name ∈ fractions) (numerator denominator : List Item)
  | binomial (upper lower : List Item)
  | squareRoot (base : List Item)
  /-- A root with an index, which has a first item. -/
  | root (first : Item) (index : List Item) (base : List Item)
  | accent (name : String) (mark : Char) (hname : (name, mark) ∈ accents) (base : List Item)
  | delimited (left : Delimiter) (content : List Item) (right : Delimiter)
  | matrix (kind : MatrixKind) (rows : List Row)

/-- An element with its scripts, in the order in which they are spelled. -/
inductive Item where
  | bare (base : Element)
  | sub (base : Element) (lower : List Item)
  | sup (base : Element) (upper : List Item)
  | subSup (base : Element) (lower upper : List Item)
  | supSub (base : Element) (upper lower : List Item)

/-- A row of a matrix: its first cell and the others. -/
inductive Row where
  | row (first : List Item) (others : List (List Item))

end

end Expression

/-- An expression: elements with their scripts, one after the other. -/
abbrev Expression := List Expression.Item

namespace Expression

/-! ### Spelling -/

/-- The token of a symbol. -/
def Symbol.token : Symbol → Token
  | letter c _ => .glyph (.char c)
  | number value => .number value.digits
  | sign c _ _ => .glyph (.char c)
  | greek name _ _ => .word name
  | operator name _ _ => .word name
  | function name _ => .word name
  | large name _ _ => .word name

/-- Tokens in braces. -/
def braced (ts : List Token) : List Token := .openBrace :: (ts ++ [.closeBrace])

mutual

/-- The tokens of an element. -/
def Element.tokens : Element → List Token
  | .symbol s => [s.token]
  | .group content => braced (tokens content)
  | .fraction name _ numerator denominator =>
    .word name :: (braced (tokens numerator) ++ braced (tokens denominator))
  | .binomial upper lower => .word "binom" :: (braced (tokens upper) ++ braced (tokens lower))
  | .squareRoot base => .word "sqrt" :: braced (tokens base)
  | .root first index base =>
    .word "sqrt" :: .openBracket :: (first.tokens ++ tokens index ++
      .closeBracket :: braced (tokens base))
  | .accent name _ _ base => .word name :: braced (tokens base)
  | .delimited left content right =>
    .word "left" :: left.token :: (tokens content ++ [.word "right", right.token])
  | .matrix kind rows => .beginning kind.name :: (rowTokens rows ++ [.ending kind.name])

/-- The tokens of an element with its scripts. -/
def Item.tokens : Item → List Token
  | .bare base => base.tokens
  | .sub base lower => base.tokens ++ .subscript :: braced (tokens lower)
  | .sup base upper => base.tokens ++ .superscript :: braced (tokens upper)
  | .subSup base lower upper =>
    base.tokens ++ .subscript :: (braced (tokens lower) ++ .superscript :: braced (tokens upper))
  | .supSub base upper lower =>
    base.tokens ++ .superscript :: (braced (tokens upper) ++ .subscript :: braced (tokens lower))

/-- The tokens of a row of a matrix. -/
def Row.tokens : Row → List Token
  | .row first others => tokens first ++ cellTokens others

/-- The tokens of the cells that follow the first one, with separators before them. -/
def cellTokens : List (List Item) → List Token
  | [] => []
  | cell :: cells => .separator :: (tokens cell ++ cellTokens cells)

/-- The tokens of the rows of a matrix, with row ends between them. -/
def rowTokens : List Row → List Token
  | [] => []
  | [r] => r.tokens
  | r :: next :: rows => r.tokens ++ .newRow :: rowTokens (next :: rows)

/-- The tokens of an expression. -/
def tokens : List Item → List Token
  | [] => []
  | i :: is => i.tokens ++ tokens is

end

/-- Tokens as they are spelled, with one space between them. -/
def spaced (ts : List Token) : Text := List.intercalate [.char ' '] (ts.map Token.spelled)

/-- The spelling of an expression. -/
def spelling (f : Expression) : Text := spaced (tokens f)

/-! ### Trees -/

/-- The element of a symbol. -/
def Symbol.tree : Symbol → Markup
  | letter c _ => .plain "mi" [] [.text [c]]
  | number value => .plain "mn" [] [.text value.digits]
  | sign _ shown _ => .plain "mo" [] [.text [shown]]
  | greek _ c _ => .plain "mi" [] [.text [c]]
  | operator _ c _ => .plain "mo" [] [.text [c]]
  | function name _ => .plain "mi" [] [.text name.toList]
  | large _ c _ => .plain "mo" [("largeop", "true".toList)] [.text [c]]

/-- The elements of what stands in one place: itself if it is a single one, a row otherwise. -/
def slot : List Markup → Markup
  | [node] => node
  | nodes => .plain "mrow" [] nodes

/-- The element of a delimiter; an invisible one has none. -/
def fences : List Char → List Markup
  | [] => []
  | text => [.plain "mo" [("fence", "true".toList), ("stretchy", "true".toList)] [.text text]]

/-- A table with the delimiters of its environment. -/
def enclosed (style : Environment) (table : Markup) : Markup :=
  if style.left = [] ∧ style.right = [] then table
  else .plain "mrow" [] (fences style.left ++ [table] ++ fences style.right)

/-- Whether the scripts on an element are limits: those on a limit operator or a limit function are,
in display layout. -/
def Element.takesLimits : Layout → Element → Bool
  | .display, .symbol (.function name _) => limitFunctions.contains name
  | .display, .symbol (.large _ c _) => limitOperators.contains c
  | _, _ => false

/-- The element of a base with scripts: with limits or beside the base. -/
def scripted (limits : Bool) (asLimits beside : String) (children : List Markup) : Markup :=
  .plain (if limits then asLimits else beside) [] children

mutual

/-- The tree of an element. -/
def Element.tree (layout : Layout) : Element → Markup
  | .symbol s => s.tree
  | .group content => .plain "mrow" [] (trees layout content)
  | .fraction _ _ numerator denominator =>
    .plain "mfrac" [] [slot (trees layout numerator), slot (trees layout denominator)]
  | .binomial upper lower =>
    .plain "mrow" [] (fences ['('] ++ [.plain "mfrac" [("linethickness", "0".toList)]
      [slot (trees layout upper), slot (trees layout lower)]] ++ fences [')'])
  | .squareRoot base => .plain "msqrt" [] (trees layout base)
  | .root first index base =>
    .plain "mroot" [] [slot (trees layout base), slot (first.tree layout :: trees layout index)]
  | .accent _ mark _ base =>
    .plain "mover" [("accent", "true".toList)]
      [slot (trees layout base), .plain "mo" [("stretchy", "false".toList)] [.text [mark]]]
  | .delimited left content right =>
    .plain "mrow" [] (fences left.text ++ trees layout content ++ fences right.text)
  | .matrix kind rows =>
    enclosed kind.style (.plain "mtable"
      (if kind.style.leftAligned then [("columnalign", "left".toList)] else [])
      (rowTrees layout rows))

/-- The tree of an element with its scripts. -/
def Item.tree (layout : Layout) : Item → Markup
  | .bare base => base.tree layout
  | .sub base lower =>
    scripted (base.takesLimits layout) "munder" "msub"
      [base.tree layout, slot (trees layout lower)]
  | .sup base upper =>
    scripted (base.takesLimits layout) "mover" "msup"
      [base.tree layout, slot (trees layout upper)]
  | .subSup base lower upper | .supSub base upper lower =>
    scripted (base.takesLimits layout) "munderover" "msubsup"
      [base.tree layout, slot (trees layout lower), slot (trees layout upper)]

/-- The tree of a row of a matrix. -/
def Row.tree (layout : Layout) : Row → Markup
  | .row first others =>
    .plain "mtr" [] (.plain "mtd" [] (trees layout first) :: cellTrees layout others)

/-- The trees of the cells of a row. -/
def cellTrees (layout : Layout) : List (List Item) → List Markup
  | [] => []
  | cell :: cells => .plain "mtd" [] (trees layout cell) :: cellTrees layout cells

/-- The trees of the rows of a matrix.  What follows the last row end, if it is a single empty cell,
is no row. -/
def rowTrees (layout : Layout) : List Row → List Markup
  | [] => []
  | [.row [] []] => []
  | r :: rows => r.tree layout :: rowTrees layout rows

/-- The trees of an expression. -/
def trees (layout : Layout) : List Item → List Markup
  | [] => []
  | i :: is => i.tree layout :: trees layout is

end

/-- The markup of an expression: its trees as one row, and its spelling as an annotation. -/
def page (layout : Layout) (f : Expression) : Markup :=
  let (kind, display) := match layout with
    | .inline => ("math math-inline", "inline")
    | .display => ("math math-display", "block")
  .plain "span" [("class", kind.toList)] [
    .plain "math" [("display", display.toList)] [
      .plain "semantics" [] [
        .plain "mrow" [] (trees layout f),
        .plain "annotation" [("encoding", "application/x-tex".toList)] [.text f.spelling.chars]]]]

end Expression

end DeltaPreview.Latex
