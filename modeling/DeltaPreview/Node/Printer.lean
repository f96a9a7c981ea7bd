import DeltaPreview.Node.Basic

/-!
# Render nodes as JSON

A node is an object whose member `type` names its kind.  All members are written, also those that
have their usual value.  Nodes that are aligned within each other too often cannot be written.
-/

namespace DeltaPreview

/-- The names of marks. -/
def Mark.listToJson (marks : List Mark) : Json := .array (marks.map fun m => Json.ofString m.name)

namespace Inline

def toJson : Inline → Json
  | text t marks link => Json.ofMembers [("type", Json.ofString "text"), ("text", .string t),
      ("marks", Mark.listToJson marks), ("link", Json.ofOption .string link)]
  | markup t marks => Json.ofMembers [("type", Json.ofString "markup"), ("markup", .string t),
      ("marks", Mark.listToJson marks)]
  | lineBreak => Json.ofMembers [("type", Json.ofString "line_break")]

/-- The runs of a block. -/
def listToJson (children : List Inline) : Json := .array (children.map toJson)

/-- The items of a list. -/
def itemsToJson (items : List (List Inline)) : Json :=
  .array (items.map fun children => Json.ofMembers [("children", listToJson children)])

end Inline

namespace Node

/-- How many nodes may be aligned within each other where nodes are written or read.  It is the depth to
which a serializer follows objects that hold others of their kind. -/
def maxAligned : Nat := 254

/-- Why nodes cannot be written. -/
inductive Unwritable where
  /-- More of them are aligned within each other than can be written. -/
  | tooDeep
  deriving DecidableEq, Repr

/-- What is reported of nodes that cannot be written. -/
def Unwritable.message : Unwritable → String
  | tooDeep => "Circular reference detected (depth exceeded)"

/-- The object of a kind with some parts. -/
def ofParts (kind : String) (parts : List (String × Json)) : Json :=
  Json.ofMembers (("type", Json.ofString kind) :: parts)

/-- A node as an object, if no more than `levels` nodes are aligned within each other. -/
def toJson (levels : Nat) : Node → Except Unwritable Json
  | paragraph children => .ok (ofParts "paragraph" [("children", Inline.listToJson children)])
  | heading level children => .ok (ofParts "heading" [("level", .int level.number),
      ("children", Inline.listToJson children)])
  | blockquote children => .ok (ofParts "blockquote" [("children", Inline.listToJson children)])
  | codeBlock children => .ok (ofParts "code_block" [("children", Inline.listToJson children)])
  | list kind items => .ok (ofParts "list" [("kind", Json.ofString kind.name),
      ("items", Inline.itemsToJson items)])
  | image src => .ok (ofParts "image" [("src", .string src)])
  | formula markup size marks => .ok (ofParts "formula" [("markup", .string markup),
      ("size", Json.ofOption .float size), ("marks", Mark.listToJson marks)])
  | align alignment child =>
    match levels with
    | 0 => .error .tooDeep
    | levels + 1 => (toJson levels child).map fun child =>
        ofParts "align" [("alignment", Json.ofString alignment.name), ("child", child)]
  | empty message hint => .ok (ofParts "empty" [("message", .string message), ("hint", .string hint)])
termination_by structural node => node

/-- A sequence of nodes. -/
def listToJson (nodes : List Node) : Except Unwritable Json :=
  (nodes.mapM (toJson maxAligned)).map .array

/-- A sequence of nodes as an object of its own, the form in which it is stored. -/
def treeToJson (nodes : List Node) : Except Unwritable Json :=
  (listToJson nodes).map fun nodes => Json.ofMembers [("nodes", nodes)]

end Node

end DeltaPreview
