import DeltaPreview.Node.Printer

/-!
# Reading render nodes

The member `type` decides what a node is.  Missing lists are empty and missing texts take their
usual value; unknown members are ignored.  Nodes that are aligned within each other too often cannot be
read.
-/

namespace DeltaPreview

namespace Node.Reader

/-- What a part of a node must be. -/
abbrev Part (α : Type) := Json → Option α

/-- A list of parts. -/
def listOf {α : Type} (part : Part α) : Part (List α)
  | .array vs => vs.mapM part
  | _ => none

/-- A part, or null. -/
def nullable {α : Type} (part : Part α) : Part (Option α)
  | .null => some none
  | v => (part v).map some

/-- A member that must be given. -/
def required {α : Type} (name : String) (part : Part α) (members : List (Text × Json)) : Option α :=
  (Json.lookup (Text.ofString name) members).bind part

/-- A member that may be missing. -/
def optional {α : Type} (name : String) (usual : α) (part : Part α)
    (members : List (Text × Json)) : Option α :=
  match Json.lookup (Text.ofString name) members with
  | none => some usual
  | some v => part v

def mark : Part Mark
  | .string t => Mark.ofText? t
  | _ => none

def listKind : Part ListKind
  | .string t => ListKind.ofText? t
  | _ => none

def alignment : Part Alignment
  | .string t => Alignment.ofText? t
  | _ => none

def level : Part HeadingLevel
  | .int n => HeadingLevel.ofInt? n
  | .float x => x.toInt?.bind HeadingLevel.ofInt?
  | .bool true => some .one
  | _ => none

/-- The name of a kind and the members it comes with. -/
def tagged : Part (Text × List (Text × Json))
  | .object members =>
    match Json.lookup (Text.ofString "type") members with
    | some (.string kind) => some (kind, members)
    | _ => none
  | _ => none

/-- A run. -/
def inline : Part Inline := fun v => do
  let (kind, members) ← tagged v
  if kind = Text.ofString "text" then
    let t ← required "text" Lenient.text? members
    let marks ← optional "marks" [] (listOf mark) members
    let link ← optional "link" none (nullable Lenient.text?) members
    return .text t marks link
  else if kind = Text.ofString "markup" then
    let t ← required "markup" Lenient.text? members
    let marks ← optional "marks" [] (listOf mark) members
    return .markup t marks
  else if kind = Text.ofString "line_break" then return .lineBreak
  else none

/-- The runs of a block. -/
def children (members : List (Text × Json)) : Option (List Inline) :=
  optional "children" [] (listOf inline) members

/-- An item of a list. -/
def item : Part (List Inline)
  | .object members => children members
  | _ => none

/-- A node of a kind that holds no other node. -/
def leaf (kind : Text) (members : List (Text × Json)) : Option Node :=
  if kind = Text.ofString "paragraph" then .paragraph <$> children members
  else if kind = Text.ofString "heading" then
    .heading <$> required "level" level members <*> children members
  else if kind = Text.ofString "blockquote" then .blockquote <$> children members
  else if kind = Text.ofString "code_block" then .codeBlock <$> children members
  else if kind = Text.ofString "list" then
    .list <$> required "kind" listKind members <*> optional "items" [] (listOf item) members
  else if kind = Text.ofString "image" then .image <$> required "src" Lenient.text? members
  else if kind = Text.ofString "formula" then
    .formula <$> required "markup" Lenient.text? members
      <*> optional "size" none (nullable Lenient.double?) members
      <*> optional "marks" [] (listOf mark) members
  else if kind = Text.ofString "empty" then
    .empty <$> optional "message" Node.defaultMessage Lenient.text? members
      <*> optional "hint" Node.defaultHint Lenient.text? members
  else none

end Node.Reader

namespace Node

open Reader

mutual

/-- Reads a node, if no more than `levels` nodes are aligned within each other. -/
def ofJson? (levels : Nat) : Json → Option Node
  | .object members =>
    match tagged (.object members) with
    | some (kind, _) =>
      if kind = Text.ofString "align" then
        match levels with
        | 0 => none
        | levels + 1 => .align <$> required "alignment" alignment members <*> childOf? levels members
      else leaf kind members
    | none => none
  | _ => none

/-- The node inside an aligned one: the first member named `child`. -/
def childOf? (levels : Nat) : List (Text × Json) → Option Node
  | [] => none
  | (name, v) :: rest =>
    if name = Text.ofString "child" then ofJson? levels v else childOf? levels rest

end

/-- Reads a sequence of nodes. -/
def listOfJson : Json → Except Misfit (List Node)
  | .array vs =>
    match vs.mapM (ofJson? maxAligned) with
    | some nodes => .ok nodes
    | none => .error .node
  | _ => .error .node

/-- Reads a stored sequence of nodes; if the object does not name any, there are none. -/
def treeOfJson : Json → Except Misfit (List Node)
  | .object members =>
    match Json.lookup (Text.ofString "nodes") members with
    | none => .ok []
    | some nodes => listOfJson nodes
  | _ => .error .node

end Node

end DeltaPreview
