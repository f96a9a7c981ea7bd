import DeltaPreview.Node.Basic

/-!
# The open run

While a document is compiled from left to right, neighbouring insertions gather in a run: list
items of one kind, or the content of a plain paragraph.  Flushing a run gives its finished node.
-/

namespace DeltaPreview

/-- The run that is open between two operations. -/
inductive Run where
  | idle
  | list (kind : ListKind) (items : List (List Inline))
  | paragraph (children : List Inline)
  deriving DecidableEq, Repr

namespace Run

/-- The finished node of a run, if the run holds anything. -/
def flush : Run → List Node
  | idle => []
  | list _ [] => []
  | list kind items => [.list kind items]
  | paragraph [] => []
  | paragraph children => [.paragraph children]

/-- The content of an open paragraph. -/
def openChildren : Run → List Inline
  | paragraph children => children
  | _ => []

/-- The items of an open list of a kind. -/
def openItems? (kind : ListKind) : Run → Option (List (List Inline))
  | list k items => if k = kind then some items else none
  | _ => none

/-- Whether the run is a list. -/
def isList : Run → Bool
  | list .. => true
  | _ => false

end Run

end DeltaPreview
