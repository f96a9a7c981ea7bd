import DeltaPreview.Yaml.Reader

/-!
# Values of YAML documents

Sequences are arrays and mappings objects.  The keys of a mapping are scalars; one that is no text
is shown as a text.  Entries under the merge key are mappings whose entries count as if they stood
before all others.
-/

namespace DeltaPreview.Yaml

/-- The members of the mapping that is merged into another. -/
def membersOf : Json → Except Fault (List (Text × Json))
  | .object members => return members
  | _ => throw .malformed

/-- The members that a value under the merge key stands for: of several mappings, an earlier one
goes before a later one. -/
def mergedMembers : Json → Except Fault (List (Text × Json))
  | .object members => return members
  | .array items => return (← items.mapM membersOf).reverse.flatten
  | _ => throw .malformed

/-- Adds members to an object. -/
def insertAll (members more : List (Text × Json)) : List (Text × Json) :=
  more.foldl (fun ms m => Json.insert m.1 m.2 ms) members

/-- Whether a node is the merge key. -/
def Node.isMerge : Node → Bool
  | .scalar .implicit text => text == mergeWord.toList
  | _ => false

/-- The text of a key. -/
def Node.key : Node → Except Fault Text
  | .scalar .implicit ['='] => return Text.ofString "="
  | .scalar kind text => return (← scalarValue kind text).display
  | _ => throw .malformed

mutual

/-- The value of a node. -/
def Node.value : Node → Except Fault Json
  | .scalar kind text => scalarValue kind text
  | .sequence items => return .array (← values items)
  | .mapping entries => do
    let (merged, own) ← members entries
    return .object (insertAll (insertAll [] merged) own)

/-- The values of several nodes. -/
def values : List Node → Except Fault (List Json)
  | [] => return []
  | node :: rest => return (← node.value) :: (← values rest)

/-- The members that entries merge and those that they have themselves. -/
def members : List (Node × Node) → Except Fault (List (Text × Json) × List (Text × Json))
  | [] => return ([], [])
  | (key, node) :: rest => do
    if key.isMerge then
      let merged ← mergedMembers (← node.value)
      let (more, own) ← members rest
      return (merged ++ more, own)
    else
      let name ← key.key
      let value ← node.value
      let (merged, own) ← members rest
      return (merged, (name, value) :: own)

end

/-- The value of the document that a text holds. -/
def read (s : List Char) : Except Fault Json :=
  match Node.read? s with
  | some node => node.value
  | none => throw .malformed

end DeltaPreview.Yaml
