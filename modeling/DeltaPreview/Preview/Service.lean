import DeltaPreview.Delta.Samples
import DeltaPreview.Node.Printer
import DeltaPreview.Preview.Outcome

/-!
# The preview service

The requests that a viewer makes, and the JSON answers to them.  Requests that cannot be answered
have a status and a message.
-/

namespace DeltaPreview.Service

/-- A request. -/
inductive Request where
  | root
  | samples
  | sample (name : Text)
  | validate (text : Text)
  | format (text : Text)
  | render (text : Text)
  deriving DecidableEq, Repr

/-- Why a request has no answer. -/
inductive Failure where
  | emptyText
  | unknownSample (name : Text)
  | failed (failure : RenderFailure)
  /-- The answer cannot be written. -/
  | unwritable (reason : Node.Unwritable)
  deriving DecidableEq, Repr

namespace Failure

/-- The status of a failure; that of a failed preview is the one of an internal error. -/
def status : Failure → Nat
  | emptyText => 400
  | unknownSample _ => 404
  | failed _ => 500
  | unwritable _ => 500

def message : Failure → Text
  | emptyText => Text.ofString "Text cannot be empty."
  | unknownSample name =>
    Text.ofString "Unknown sample '" ++ name ++ Text.ofString "'."
  | failed _ => Text.ofString "Internal Server Error"
  | unwritable _ => Text.ofString "Internal Server Error"

end Failure

/-- A summary as JSON. -/
def summaryToJson (s : Summary) : Json :=
  Json.ofMembers [("op_count", .int s.opCount), ("has_content", .bool s.hasContent)]

/-- The members of an outcome, apart from its messages. -/
def outcomeMembers (o : Outcome) : Except Node.Unwritable (List (String × Json)) := do
  let nodes ← Node.listToJson o.nodes
  return [("is_valid", .bool o.isValid),
    ("error", Json.ofOption (fun e => Json.ofString e.message) o.error),
    ("nodes", nodes), ("html", .string (Text.ofChars o.html)),
    ("summary", summaryToJson o.summary)]

/-- A text as an answer. -/
def textAnswer (t : Text) : Json := Json.ofMembers [("text", .string t)]

/-- The number of operations and the fault that validation finds. -/
def validation (text : Text) : Except Failure Json := do
  let outcome ← (Document.validate text).mapError (.failed ∘ .misfit)
  return match outcome with
    | .ok doc => Json.ofMembers [("is_valid", .bool true), ("error", .null),
        ("op_count", .int doc.ops.length)]
    | .error e => Json.ofMembers [("is_valid", .bool false), ("error", Json.ofString e.message),
        ("op_count", .int 0)]

/-- The answer to a request. -/
def answer (settings : Settings) : Request → Except Failure Json
  | .root => .ok (Json.ofMembers [("message", Json.ofString "Delta Viewer API is running.")])
  | .samples => .ok (.array (Sample.all.map fun s => Json.ofString s.1))
  | .sample name =>
    match Sample.find? name with
    | some doc => .ok (textAnswer doc.pretty)
    | none => .error (.unknownSample name)
  | .validate text => validation text
  | .format text =>
    if text.allBlank then .error .emptyText else .ok (textAnswer (formatJson text))
  | .render text => do
    let o ← (Outcome.ofText settings settings.renderer text).mapError .failed
    let members ← (outcomeMembers o).mapError .unwritable
    return Json.ofMembers (members ++ [("log", Json.ofString o.logText)])

end DeltaPreview.Service
