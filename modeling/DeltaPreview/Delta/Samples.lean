import DeltaPreview.Json.Basic

/-!
# Sample documents

The documents that the viewer offers to start from.
-/

namespace DeltaPreview.Sample

/-- An object with the given members. -/
private def object (members : List (String × Json)) : Json :=
  .object (members.map fun (name, v) => (Text.ofString name, v))

/-- A text insertion with attributes. -/
private def insert (text : String) (attributes : List (String × Json)) : Json :=
  object (("insert", .string (Text.ofString text)) ::
    (if attributes.isEmpty then [] else [("attributes", object attributes)]))

private def document (ops : List Json) : Json := object [("ops", .array ops)]

private def string (s : String) : Json := .string (Text.ofString s)

def simple : Json := document [
  insert "Hello " [],
  insert "World" [("bold", .bool true)],
  insert "!\n" []]

def complex : Json := document [
  insert "Quill Rich Text Editor\n" [("header", .int 1)],
  insert "\nThis is a " [],
  insert "bold" [("bold", .bool true)],
  insert " and " [],
  insert "italic" [("italic", .bool true)],
  insert " text example.\n\nFeatures:\n" [],
  insert "Rich text formatting" [("list", string "bullet")],
  insert "\n" [],
  insert "Lists and headers" [("list", string "bullet")],
  insert "\n" [],
  insert "Links and images" [("list", string "bullet")],
  insert "\n\nVisit " [],
  insert "Quill.js" [("link", string "https://quilljs.com")],
  insert " for more information.\n" []]

def withImage : Json := document [
  insert "Document with Image\n" [("header", .int 2)],
  insert "\nHere is an embedded image:\n" [],
  object [("insert", object [("image", string "https://via.placeholder.com/300x200")])],
  insert "\nImage caption goes here.\n" []]

/-- The samples by name. -/
def all : List (String × Json) :=
  [("simple", simple), ("complex", complex), ("withImage", withImage)]

/-- The sample of a name. -/
def find? (name : Text) : Option Json :=
  (all.find? fun s => Text.ofString s.1 = name).map Prod.snd

end DeltaPreview.Sample
