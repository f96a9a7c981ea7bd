/-!
# Values that do not fit

Structured values are built from JSON.  What cannot be built is refused for one of these reasons.
-/

namespace DeltaPreview

/-- Why a JSON value does not fit the structure that it should describe. -/
inductive Misfit where
  /-- An operation that is no object, a part of one of the wrong kind, or a name that cannot be kept. -/
  | operation
  /-- A font size too large for a double. -/
  | fontSize
  /-- A render node of unknown type, or with a missing or mistyped part. -/
  | node
  /-- Settings with a mistyped part. -/
  | settings
  deriving DecidableEq, Repr

end DeltaPreview
