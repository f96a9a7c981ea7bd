import DeltaPreview.Delta.Document

/-!
# Summary of a document

The status line of the viewer: whether there is a document, and how many operations it has.
-/

namespace DeltaPreview

/-- The number of operations, and whether there is a document at all. -/
structure Summary where
  opCount : Nat
  hasContent : Bool
  deriving DecidableEq, Repr

namespace Summary

/-- The summary when there is no document. -/
def noDocument : Summary := ⟨0, false⟩

def ofDocument (doc : Document) : Summary := ⟨doc.ops.length, true⟩

/-- The summary of a value that may be a document; null is none. -/
def ofJson : Json → Summary
  | .null => noDocument
  | v => match v.get? "ops" with
    | some (.array ops) => ⟨ops.length, true⟩
    | _ => ⟨0, true⟩

def statusText (s : Summary) : String :=
  if s.hasContent then "✓ Delta rendered" else "No Delta content"

def countText (s : Summary) : String := toString s.opCount ++ " operations"

end Summary

end DeltaPreview
