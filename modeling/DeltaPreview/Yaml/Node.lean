import DeltaPreview.Json.Display
import DeltaPreview.Json.Error

/-!
# YAML nodes

A document is a tree of scalars, sequences and mappings.  A scalar keeps its text and how that text
is to be understood, which decides later whether it has a value.
-/

namespace DeltaPreview.Yaml

/-- How the text of a scalar is to be understood. -/
inductive Kind where
  /-- By its spelling: a scalar without quotes. -/
  | implicit
  | text
  | integer
  | double
  | truth
  | null
  deriving DecidableEq, Repr

/-- A node of a document; aliases are replaced by what they stand for. -/
inductive Node where
  | scalar (kind : Kind) (text : List Char)
  | sequence (items : List Node)
  | mapping (entries : List (Node × Node))
  deriving Inhabited, Repr

/-- The node of an entry that is left out. -/
def Node.empty : Node := .scalar .implicit []

/-- A part of a date or of a time of day. -/
inductive DatePart where
  | year (n : Nat)
  | month
  | day
  | hour
  | minute
  | second
  deriving DecidableEq, Repr

/-- Why a document has no value. -/
inductive Fault where
  /-- Its text or its structure is not well formed. -/
  | malformed
  /-- A scalar spells no integer in a base. -/
  | noInteger (base : Nat) (text : List Char)
  /-- An integer has this many digits. -/
  | tooManyDigits (count : Nat)
  | noDouble (text : List Char)
  | noTruth (text : List Char)
  /-- A date does not exist. -/
  | noDate (part : DatePart)
  deriving DecidableEq, Repr

namespace Fault

/-- What is reported of a part of a date that is out of its range. -/
def partMessage : DatePart → String
  | .year n => "year " ++ toString n ++ " is out of range"
  | .month => "month must be in 1..12"
  | .day => "day is out of range for month"
  | .hour => "hour must be in 0..23"
  | .minute => "minute must be in 0..59"
  | .second => "second must be in 0..59"

/-- What is reported of a document without a value. -/
def message : Fault → Text
  | malformed => Text.ofString "malformed document"
  | noInteger base text =>
    Text.ofString ("invalid literal for int() with base " ++ toString base ++ ": ") ++
      Json.displayQuoted (Text.ofChars text)
  | tooManyDigits count => Text.ofString (Json.Fault.tooManyDigits count).message
  | noDouble text =>
    Text.ofString "could not convert string to float: " ++ Json.displayQuoted (Text.ofChars text)
  | noTruth text => Json.displayQuoted (Text.ofChars text)
  | noDate part => Text.ofString (partMessage part)

end Fault

end DeltaPreview.Yaml
