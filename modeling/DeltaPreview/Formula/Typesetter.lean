import DeltaPreview.Text.Basic

/-!
# Typesetters

A typesetter turns the source of a formula into markup, or fails with a message.
-/

namespace DeltaPreview

/-- Why a typesetter failed: a name for the kind of failure and what is reported of it. -/
structure TypesetFailure where
  kind : String
  message : Text
  deriving DecidableEq, Repr

/-- What is shown of a failure: its message, or its kind when the message is empty. -/
def TypesetFailure.detail (f : TypesetFailure) : Text :=
  if f.message.isEmpty then Text.ofString f.kind else f.message

/-- How a formula is set: in the line, or on lines of its own. -/
inductive Layout where
  | inline
  | display
  deriving DecidableEq, Repr

/-- A typesetter maps the trimmed source of a formula to markup. -/
abbrev Typesetter := Text → Layout → Except TypesetFailure Text

end DeltaPreview
