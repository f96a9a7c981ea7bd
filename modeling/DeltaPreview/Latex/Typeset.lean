import DeltaPreview.Formula.Typesetter
import DeltaPreview.Latex.Parser
import DeltaPreview.Markup.Xml.Printer

/-!
# Setting formulas

A formula becomes a tree of presentation markup, element by element while it is parsed.  In display
layout the scripts of a large operator or a limit function stand below and above it.
-/

namespace DeltaPreview

namespace Latex

/-- The name of the element of a leaf. -/
def LeafKind.tagName : LeafKind → String
  | identifier => "mi"
  | number => "mn"
  | operator => "mo"
  | text => "mtext"

/-- The attributes that a role gives a leaf. -/
def LeafRole.attributes : LeafRole → List (String × List Char)
  | plain => []
  | fence => [("fence", "true".toList), ("stretchy", "true".toList)]
  | large => [("largeop", "true".toList)]
  | fixed => [("stretchy", "false".toList)]

/-- The attribute of an alphabet. -/
def Variant.attributes : Option Variant → List (String × List Char)
  | none => []
  | some v => [("mathvariant", v.name.toList)]

/-- The element of a leaf.  It holds a text even if that is empty. -/
def Leaf.markup (l : Leaf) : Markup :=
  .plain l.kind.tagName (l.role.attributes ++ Variant.attributes l.variant) [.text l.text]

/-! ### Elements that are built already -/

end Latex

namespace Markup

/-- Whether an element is an operator or a function that takes limits. -/
def takesLimits : Markup → Bool
  | element tag [text t] =>
    (tag.name == "mo" && Latex.limitOperators.any fun c => t == [c]) ||
      (tag.name == "mi" && Latex.limitFunctions.any fun name => t == name.toList)
  | _ => false

/-- Whether an element is a leaf of a formula. -/
def isLeaf (tag : Tag) : Bool := ["mi", "mn", "mo", "mtext"].contains tag.name

/-- A tag in which an attribute has a value; a new attribute comes last. -/
def setAttribute (tag : Tag) (name : String) (value : List Char) : Tag :=
  { tag with
    attributes :=
      if tag.attributes.any (·.name == name) then
        tag.attributes.map fun a => if a.name == name then .plain name value else a
      else tag.attributes ++ [.plain name value] }

mutual

/-- A tree in which all leaves are in an alphabet, whatever they were in before. -/
def withVariant (v : Latex.Variant) : Markup → Markup
  | element tag children =>
    if isLeaf tag then element (setAttribute tag "mathvariant" v.name.toList) children
    else element tag (allWithVariant v children)
  | node => node

/-- The same for a sequence of nodes. -/
def allWithVariant (v : Latex.Variant) : List Markup → List Markup
  | [] => []
  | m :: ms => withVariant v m :: allWithVariant v ms

end

/-- A sequence of elements as one: itself if it is a single one, a row otherwise. -/
def single : List Markup → Markup
  | [m] => m
  | ms => plain "mrow" [] ms

end Markup

namespace Latex

/-! ### Building elements -/

/-- Whether scripts of a base are set as limits. -/
def setsLimits (layout : Layout) (base : List Markup) : Bool :=
  match layout, base with
  | .display, [m] => m.takesLimits
  | _, _ => false

/-- The elements of a base with its scripts, which stand beside it or are its limits. -/
def attachIn (layout : Layout) (base : List Markup) : Scripts Markup → List Markup
  | ⟨some lower, some upper⟩ =>
    [.plain (if setsLimits layout base then "munderover" else "msubsup") []
      [.single base, .single lower, .single upper]]
  | ⟨some lower, .none⟩ =>
    [.plain (if setsLimits layout base then "munder" else "msub") [] [.single base, .single lower]]
  | ⟨.none, some upper⟩ =>
    [.plain (if setsLimits layout base then "mover" else "msup") [] [.single base, .single upper]]
  | ⟨.none, .none⟩ => base

/-- The element of a fraction. -/
def fractionElement (line : Bool) (numerator denominator : List Markup) : Markup :=
  .plain "mfrac" (if line then [] else [("linethickness", "0".toList)])
    [.single numerator, .single denominator]

/-- The element of a base under an accent. -/
def accentElement (base : List Markup) (mark : Char) : Markup :=
  .plain "mover" [("accent", "true".toList)] [.single base, (Leaf.operator [mark] .fixed).markup]

/-- The delimiter on one side of a row. -/
def fenceElement : List Char → List Markup
  | [] => []
  | text => [(Leaf.operator text .fence).markup]

/-- The element of a row between delimiters. -/
def fencedElement (left : List Char) (content : List Markup) (right : List Char) : Markup :=
  .plain "mrow" [] (fenceElement left ++ content ++ fenceElement right)

/-- The element of a root. -/
def radicalElement (index : Option (List Markup)) (base : List Markup) : Markup :=
  match index with
  | some (i :: is) => .plain "mroot" [] [.single base, .single (i :: is)]
  | _ => .plain "msqrt" [] base

/-- The element of a table. -/
def tableElement (leftAligned : Bool) (rows : List (List (List Markup))) : Markup :=
  .plain "mtable" (if leftAligned then [("columnalign", "left".toList)] else [])
    (rows.map fun cells => .plain "mtr" [] (cells.map (.plain "mtd" [])))

/-- The elements of a formula in a layout. -/
def Element (_ : Layout) : Type := Markup

/-- Elements of a layout as nodes. -/
def Element.nodes {layout : Layout} (elements : List (Element layout)) : List Markup := elements

/-- Elements are built one out of the others.  Two decisions look at elements that are built already:
whether a base takes limits, and where the leaves are that another alphabet is meant for. -/
instance (layout : Layout) : Builder (Element layout) where
  leaf := Leaf.markup
  space width := Markup.plain "mspace" [("width", width.toList)] []
  newline := Markup.plain "mspace" [("linebreak", "newline".toList)] []
  row := Markup.plain "mrow" []
  fraction := fractionElement
  radical := radicalElement
  accent := accentElement
  attach := attachIn layout
  fenced := fencedElement
  table := tableElement
  withVariants := Markup.allWithVariant

/-- The whole tree of a formula: the elements of its body, and its source as an annotation. -/
def wrap (layout : Layout) (body : List Markup) (source : List Char) : Markup :=
  let (kind, display) := match layout with
    | .inline => ("math math-inline", "inline")
    | .display => ("math math-display", "block")
  .plain "span" [("class", kind.toList)] [
    .plain "math" [("display", display.toList)] [
      .plain "semantics" [] [
        .plain "mrow" [] body,
        .plain "annotation" [("encoding", "application/x-tex".toList)] [.text source]]]]

/-- The tree of a formula source, which is trimmed first. -/
def tree (layout : Layout) (source : Text) : Except Fault Markup :=
  match parseAs (Element layout) (tokenize source.trim) with
  | .error fault => .error fault
  | .ok body =>
    match source.trim.toMarkup with
    | .error refusal => .error (.refused refusal)
    | .ok annotation => .ok (wrap layout (Element.nodes body) annotation)

/-- The markup of a formula source. -/
def typeset (source : Text) (layout : Layout) : Except Fault Text :=
  (tree layout source).map fun m => Text.ofChars (Xml.write m)

/-- The name of the kind of a fault. -/
def Fault.kind : Fault → String
  | .malformed _ => "FormulaSyntaxError"
  | .refused .incompatible => "ValueError"
  | .refused (.surrogates ..) => "UnicodeEncodeError"

/-- The typesetter for this notation. -/
def typesetter : Typesetter := fun source layout =>
  (typeset source layout).mapError fun fault => ⟨fault.kind, fault.message⟩

end Latex

end DeltaPreview
