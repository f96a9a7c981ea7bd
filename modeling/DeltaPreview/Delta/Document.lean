import DeltaPreview.Lenient
import DeltaPreview.Misfit

/-!
# Delta documents

A document is a sequence of operations.  An operation inserts a text or an embedded object,
deletes, or retains; only insertions are displayed.  Operations and documents may carry further
members, which are kept as they are; only names in which a surrogate stands alone are refused.
-/

namespace DeltaPreview

/-- The number of a deletion or retention. -/
inductive Quantity where
  | int (n : Int)
  | float (x : Double)
  deriving DecidableEq, Repr

/-- What an operation inserts. -/
inductive Insert where
  | text (t : Text)
  | embed (members : List (Text × Json))
  deriving Repr

/-- One operation of a document. -/
structure Operation where
  insert : Option Insert
  delete : Option Quantity
  retain : Option Quantity
  /-- The attribute bag, of whatever shape it was given. -/
  attributes : Option Json
  /-- Members of other names. -/
  extra : List (Text × Json)
  deriving Repr

/-- A document. -/
structure Document where
  ops : List Operation
  extra : List (Text × Json)
  deriving Repr

namespace Quantity

def toJson : Quantity → Json
  | int n => .int n
  | float x => .float x

/-- The quantity that a scalar stands for; an integer if it can be one. -/
def ofJson? : Json → Option Quantity
  | .int n => some (int n)
  | .float x => some (float x)
  | v => (Lenient.int? v).map int <|> (Lenient.double? v).map float

end Quantity

namespace Insert

def toJson : Insert → Json
  | text t => .string t
  | embed members => .object members

def ofJson? : Json → Option Insert
  | .string t => some (text t)
  | .object members => some (embed members)
  | _ => none

end Insert

/-- A member that may be missing or null. -/
def optionalMember {α : Type} (name : String) (ofJson? : Json → Option α)
    (members : List (Text × Json)) : Except Misfit (Option α) :=
  match Json.lookup (Text.ofString name) members with
  | none => .ok none
  | some .null => .ok none
  | some v => match ofJson? v with
    | some a => .ok (some a)
    | none => .error .operation

/-- The members whose names are not among the given ones. -/
def otherMembers (names : List String) (members : List (Text × Json)) : List (Text × Json) :=
  members.filter fun m => !(names.map Text.ofString).contains m.1

/-- The members of other names, which are kept.  A name in which a surrogate stands alone cannot be
kept. -/
def keptMembers (names : List String) (members : List (Text × Json)) :
    Except Misfit (List (Text × Json)) :=
  if (otherMembers names members).all fun m => m.1.isPaired then .ok (otherMembers names members)
  else .error .operation

namespace Operation

/-- The names of the members that have a meaning. -/
def memberNames : List String := ["insert", "delete", "retain", "attributes"]

/-- Reads an operation. -/
def ofJson : Json → Except Misfit Operation
  | .object members => do
    let insert ← optionalMember "insert" Insert.ofJson? members
    let delete ← optionalMember "delete" Quantity.ofJson? members
    let retain ← optionalMember "retain" Quantity.ofJson? members
    let extra ← keptMembers memberNames members
    return ⟨insert, delete, retain, Json.lookup (Text.ofString "attributes") members, extra⟩
  | _ => .error .operation

/-- A member that is given. -/
private def given (name : String) (v : Option Json) : List (Text × Json) :=
  (v.map fun v => (Text.ofString name, v)).toList

/-- The members that are given. -/
def toJson (op : Operation) : Json :=
  .object (given "insert" (op.insert.map Insert.toJson) ++
    given "delete" (op.delete.map Quantity.toJson) ++
    given "retain" (op.retain.map Quantity.toJson) ++
    given "attributes" op.attributes ++ op.extra)

end Operation

namespace Document

/-- Reads the operations of a document and keeps its other members. -/
def ofOps (ops : List Json) (members : List (Text × Json)) : Except Misfit Document := do
  let ops ← ops.mapM Operation.ofJson
  let extra ← keptMembers ["ops"] members
  return ⟨ops, extra⟩

end Document

end DeltaPreview
