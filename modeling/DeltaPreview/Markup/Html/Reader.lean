import DeltaPreview.Markup.Html.Closing
import DeltaPreview.Markup.Html.Token
import DeltaPreview.Text.Blank

/-!
# Reading HTML

The tokens of HTML nest into a document although tags may be missing.  Around all content there is
an `html` element, and in it a head or a body; where their tags are missing they are implied, and
where they come again they are ignored.
-/

namespace DeltaPreview.Html

/-- An open element, and the siblings before it. -/
structure Opened where
  tag : Tag
  before : List Markup

/-- A document while it is read. -/
structure Nest where
  /-- The open elements, the innermost first. -/
  opened : List Opened
  /-- The nodes so far in the innermost open element. -/
  siblings : List Markup
  /-- Whether a head or a body has begun. -/
  headSeen : Bool
  bodySeen : Bool
  /-- The number of ignored start tags whose end tags have not come yet. -/
  ignored : Nat

/-- The elements around the content of a document. -/
def outerNames : List String := ["html", "head", "body"]

/-- The elements that imply a head where nothing is open but the document. -/
def headNames : List String := ["script", "style", "meta", "link", "title", "base"]

/-- The elements of a document that shows others in frames.  They imply no body. -/
def frameNames : List String := ["noframes", "frame", "frameset"]

/-- The attributes of a tag; of several with the same name the first counts. -/
def attributesOf (found : List (List Char × Option (List Char))) : List Attribute :=
  found.foldl (fun kept (name, v) =>
    let name := String.ofList name
    if kept.any (·.name == name) then kept else kept ++ [⟨name, v, false⟩]) []

namespace Nest

/-- Nothing is read. -/
def empty : Nest := ⟨[], [], false, false, 0⟩

/-- The name of the innermost open element. -/
def innermost? (n : Nest) : Option String := n.opened.head?.map fun o => o.tag.name

/-- Whether an element of a name is open. -/
def isOpen (name : String) (n : Nest) : Bool := n.opened.any fun o => o.tag.name == name

/-- Adds a node to the innermost open element. -/
def add (node : Markup) (n : Nest) : Nest := { n with siblings := Markup.push n.siblings node }

/-- Opens an element. -/
def push (tag : Tag) (n : Nest) : Nest :=
  { opened := ⟨tag, n.siblings⟩ :: n.opened
    siblings := []
    headSeen := n.headSeen || tag.name == "head" || tag.name == "body"
    bodySeen := n.bodySeen || tag.name == "body"
    ignored := n.ignored }

/-- Closes the innermost open element. -/
def pop (n : Nest) : Nest :=
  match n.opened with
  | [] => n
  | o :: opened =>
    { n with opened := opened, siblings := o.before ++ [.element o.tag n.siblings] }

theorem pop_opened_length (n : Nest) : n.pop.opened.length = n.opened.length - 1 := by
  unfold pop
  split <;> simp_all

/-- Closes the innermost open elements as long as a start tag ends them. -/
def closeFor (new : String) (n : Nest) : Nest :=
  match _h : n.opened with
  | [] => n
  | o :: _ => if closes new o.tag.name then closeFor new n.pop else n
termination_by n.opened.length
decreasing_by rw [pop_opened_length]; simp_all

/-- How many open elements an end tag closes: those up to the innermost one of its name, or none if
there is no such element or one of higher rank is inside it. -/
def closedCount (name : String) : List Opened → Nat
  | [] => 0
  | o :: opened =>
    if o.tag.name = name then 1
    else if rank name < rank o.tag.name then 0
    else match closedCount name opened with
      | 0 => 0
      | count + 1 => count + 2

/-- Closes some of the innermost open elements. -/
def popMany : Nat → Nest → Nest
  | 0, n => n
  | count + 1, n => popMany count n.pop

/-- Opens the outer elements that a start tag implies. -/
def imply (name : String) (n : Nest) : Nest :=
  if name = "html" then n
  else
    let n := if n.opened.isEmpty then n.push (.plain "html" []) else n
    if name = "head" ∨ name = "body" then n
    else if n.opened.length ≤ 1 ∧ headNames.contains name then
      if n.headSeen then n else n.push (.plain "head" [])
    else if frameNames.contains name || n.bodySeen || n.isOpen "head" then n
    else n.push (.plain "body" [])

/-- Whether a start tag is ignored because its element has its place already. -/
def ignores (name : String) (n : Nest) : Bool :=
  (name == "html" && !n.opened.isEmpty) || (name == "head" && n.opened.length != 1) ||
    (name == "body" && n.isOpen "body")

/-- Reads a start tag.  One that is cut off only implies other tags, and a slash at the end of an
ignored one closes the element around it. -/
def start (name : String) (attributes : List Attribute) (ending : TagEnd) (n : Nest) : Nest :=
  let n := (n.closeFor name).imply name
  if ending = .missing then n
  else if n.ignores name then
    let n := { n with ignored := n.ignored + 1 }
    if ending = .slash then n.pop else n
  else
    let tag : Tag := ⟨name, false, [], attributes⟩
    if ending = .slash || isVoid tag then (n.push tag).pop else n.push tag

/-- Reads an end tag. -/
def stop (name : String) (n : Nest) : Nest :=
  if 0 < n.ignored ∧ outerNames.contains name then
    { n with ignored := n.ignored - 1 }
  else popMany (closedCount name n.opened) n

/-- Reads a text.  Outside a head and a body, only its leading blanks stay there. -/
def text (t : List Char) (n : Nest) : Nest :=
  if n.innermost?.all fun name => name == "html" || name == "head" then
    let n := if n.opened.isEmpty then n else n.add (.text (t.takeWhile isSpace))
    match t.dropWhile isSpace with
    | [] => n
    | rest => ((n.closeFor "p").imply "p").add (.text rest)
  else n.add (.text t)

/-- Reads a token. -/
def step (n : Nest) : Token → Nest
  | .text t => n.text t
  | .comment t => n.add (.comment t)
  | .start name found ending => n.start (String.ofList name) (attributesOf found) ending
  | .stop name => n.stop (String.ofList name)

/-- The nodes of the document when all is read. -/
def nodes (n : Nest) : List Markup := (popMany n.opened.length n).siblings

end Nest

/-- The nodes of the document that a text holds. -/
def document (s : List Char) : List Markup := ((tokens s).foldl Nest.step Nest.empty).nodes

/-- The children of an element of a name. -/
def childrenOf? (name : String) : Markup → Option (List Markup)
  | .element tag children => if tag.name = name then some children else none
  | _ => none

/-- The contents of the bodies of a document, if it has an element at all. -/
def bodies? (nodes : List Markup) : Option (List (List Markup)) :=
  (nodes.findSome? (childrenOf? "html")).map fun children =>
    children.filterMap (childrenOf? "body")

/-- Whether a text begins as a whole document. -/
def isDocument (s : List Char) : Bool :=
  let s := s.dropWhile fun c => (CodePoint.char c).isBlank
  ["<html", "<!doctype"].any fun word => (Xml.after? word.toList (lower s)).isSome

/-- A text as a document. -/
def asDocument (s : List Char) : List Char :=
  if isDocument s then s else "<html><body>".toList ++ s ++ "</body></html>".toList

/-- Nodes without a leading blank text. -/
def dropLeadingBlank : List Markup → List Markup
  | .text t :: nodes => if (Text.ofChars t).allBlank then nodes else .text t :: nodes
  | nodes => nodes

/-- Why a text is no fragment of HTML. -/
inductive FragmentFault where
  /-- There is no element in it. -/
  | noDocument
  /-- It is a whole document that does not have one body, but another number of them. -/
  | bodies (count : Nat)
  deriving DecidableEq, Repr

/-- The nodes of an HTML fragment: the content of the body of its document. -/
def fragment (s : List Char) : Except FragmentFault (List Markup) :=
  match bodies? (document (normalizeLines (asDocument s))) with
  | none => .error .noDocument
  | some [content] => .ok (dropLeadingBlank content)
  | some found => .error (.bodies found.length)

end DeltaPreview.Html
