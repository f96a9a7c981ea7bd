/-!
# Markup trees

Elements with attributes and children, text, comments and processing instructions.  A tree that is
built piece by piece keeps neighbouring texts together: `push` extends the last text instead of
adding another one, and adds no empty text.
-/

namespace DeltaPreview

/-- An attribute of an element.  HTML knows attributes without a value. -/
structure Attribute where
  name : String
  value : Option (List Char)
  /-- Whether the name belongs to a declared namespace. -/
  namespaced : Bool
  deriving DecidableEq, Repr

/-- What stands in a start tag. -/
structure Tag where
  name : String
  /-- Whether the name belongs to a declared namespace. -/
  namespaced : Bool
  /-- The namespaces that the tag declares: prefix and name. -/
  declarations : List (List Char × List Char)
  attributes : List Attribute
  deriving DecidableEq, Repr

/-- A node of a markup tree. -/
inductive Markup where
  | text (content : List Char)
  | element (tag : Tag) (children : List Markup)
  | comment (content : List Char)
  | instruction (target content : List Char)
  deriving Repr, BEq

/-- An attribute without a namespace. -/
def Attribute.plain (name : String) (value : List Char) : Attribute := ⟨name, some value, false⟩

/-- A tag without namespaces. -/
def Tag.plain (name : String) (attributes : List (String × List Char)) : Tag :=
  ⟨name, false, [], attributes.map fun (n, v) => .plain n v⟩

namespace Markup

/-- An element without namespaces. -/
def plain (name : String) (attributes : List (String × List Char)) (children : List Markup) :
    Markup :=
  element (Tag.plain name attributes) children

/-- Adds a text after some siblings. -/
def pushText (siblings : List Markup) (t : List Char) : List Markup :=
  if t.isEmpty then siblings
  else match siblings.getLast? with
    | some (text last) => siblings.dropLast ++ [text (last ++ t)]
    | _ => siblings ++ [text t]

/-- Adds a node after some siblings; a text joins the text before it. -/
def push (siblings : List Markup) : Markup → List Markup
  | text t => pushText siblings t
  | node => siblings ++ [node]

/-- Adds nodes after some siblings. -/
def pushAll (siblings nodes : List Markup) : List Markup := nodes.foldl push siblings

/-- Whether a node is a text. -/
def isText : Markup → Bool
  | text _ => true
  | _ => false

end Markup

end DeltaPreview
