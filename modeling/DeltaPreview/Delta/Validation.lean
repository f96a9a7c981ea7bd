import DeltaPreview.Delta.Document
import DeltaPreview.Json.Reader
import DeltaPreview.Json.Printer

/-!
# Validating document texts

A text is a document if it is JSON, an object with an array of operations, and every operation is
well formed.  The first fault found is the one reported: an empty text, a fault of the JSON, a
missing array, or the first operation that is not well formed.
-/

namespace DeltaPreview

/-- What is wrong with an operation. -/
inductive OperationFault where
  | notObject
  | noAction
  | deleteNotNumber
  | retainNotNumber
  | insertNotContent
  deriving DecidableEq, Repr

/-- Why a text is no document. -/
inductive InvalidDocument where
  | empty
  | malformed (fault : Json.Fault Json.Position)
  | missingOps
  | operation (index : Nat) (fault : OperationFault)
  deriving DecidableEq, Repr

namespace OperationFault

/-- What is reported of the operation at an index. -/
def reason (index : Nat) : OperationFault → String
  | notObject => "operation at index " ++ toString index ++ " is not an object"
  | noAction =>
    "operation at index " ++ toString index ++
      " must have \"insert\", \"delete\", or \"retain\" property"
  | deleteNotNumber => "\"delete\" at index " ++ toString index ++ " must be a number"
  | retainNotNumber => "\"retain\" at index " ++ toString index ++ " must be a number"
  | insertNotContent => "\"insert\" at index " ++ toString index ++ " must be a string or object"

end OperationFault

namespace InvalidDocument

def message : InvalidDocument → String
  | empty => "JSON input is empty"
  | malformed fault => "Invalid JSON: " ++ fault.message
  | missingOps =>
    "Invalid Delta: missing \"ops\" array. " ++
      "Delta must have an \"ops\" property containing an array of operations."
  | operation index fault => "Invalid Delta: " ++ fault.reason index

end InvalidDocument

/-- A number, not counting truth values. -/
def Json.isNumber : Json → Bool
  | .int _ => true
  | .float _ => true
  | _ => false

/-- A text or an object. -/
def Json.isContent : Json → Bool
  | .string _ => true
  | .object _ => true
  | _ => false

/-- The first fault of an operation. -/
def OperationFault.find? (op : Json) : Option OperationFault :=
  match op with
  | .object _ =>
    match op.get? "insert", op.get? "delete", op.get? "retain" with
    | none, none, none => some .noAction
    | insert, delete, retain =>
      if !delete.all Json.isNumber then some .deleteNotNumber
      else if !retain.all Json.isNumber then some .retainNotNumber
      else if !insert.all Json.isContent then some .insertNotContent
      else none
  | _ => some .notObject

/-- The first operation with a fault, counted from `index`. -/
def firstFault? (index : Nat) : List Json → Option (Nat × OperationFault)
  | [] => none
  | op :: ops =>
    match OperationFault.find? op with
    | some fault => some (index, fault)
    | none => firstFault? (index + 1) ops

/-- The operations and the members of the object that a text holds, if it is a document. -/
def Document.check (text : Text) :
    Except InvalidDocument (List Json × List (Text × Json)) :=
  if text.allBlank then .error .empty
  else match Json.read text with
    | .error fault => .error (.malformed fault)
    | .ok v =>
      match v, v.get? "ops" with
      | .object members, some (.array ops) =>
        match firstFault? 0 ops with
        | some (index, fault) => .error (.operation index fault)
        | none => .ok (ops, members)
      | _, _ => .error .missingOps

/-- Checks a text and reads the document that it holds.  Reading a checked document could only fail
if it did not fit the types of operations. -/
def Document.validate (text : Text) : Except Misfit (Except InvalidDocument Document) :=
  match Document.check text with
  | .error invalid => .ok (.error invalid)
  | .ok (ops, members) => (Document.ofOps ops members).map .ok

/-- The pretty form of a JSON text; a text that cannot be read comes back unchanged. -/
def formatJson (text : Text) : Text :=
  match Json.read text with
  | .error _ => text
  | .ok v => v.pretty

end DeltaPreview
