import DeltaPreview.Latex.Token
import DeltaPreview.Text.Compatible

/-!
# What can be wrong with a formula

A formula source either breaks a rule of the notation or contains characters that no markup can
hold.
-/

namespace DeltaPreview.Latex

/-- A rule that a formula source breaks.  The token found is missing at the end of the source. -/
inductive SyntaxFault where
  | expectedArgument (found : Option Token)
  | expected (mark : Token) (found : Option Token)
  | unexpected (found : Token)
  | strayBrace
  | straySeparator
  | strayEnd (found : Token)
  | undefined (found : Token)
  | doubleSubscript
  | doubleSuperscript
  | unknownDelimiter (command : Token) (found : Option Token)
  | missingRight
  | namelessEnvironment
  | unknownEnvironment (name : String)
  | unterminated (environment : String) (found : Option Token)
  deriving DecidableEq, Repr

/-- Why a formula source cannot be set. -/
inductive Fault where
  | malformed (fault : SyntaxFault)
  | refused (refusal : Text.Refusal)
  deriving DecidableEq, Repr

/-- A token as it is named in a message. -/
def describe : Option Token → Text
  | none => Text.ofString "end of input"
  | some t => .char '\'' :: (t.spelled ++ [.char '\''])

/-- What is reported of a broken rule. -/
def SyntaxFault.message : SyntaxFault → Text
  | expectedArgument found => Text.ofString "Expected argument, got " ++ describe found
  | expected mark found =>
    Text.ofString "Expected " ++ describe (some mark) ++ Text.ofString ", got " ++ describe found
  | unexpected found => Text.ofString "Unexpected " ++ describe (some found)
  | strayBrace => Text.ofString "Unexpected '\x7d'"
  | straySeparator => Text.ofString "Unexpected '&' outside of an environment"
  | strayEnd found => Text.ofString "Unexpected " ++ found.spelled
  | undefined found => Text.ofString "Undefined control sequence: " ++ found.spelled
  | doubleSubscript => Text.ofString "Double subscript"
  | doubleSuperscript => Text.ofString "Double superscript"
  | unknownDelimiter command found =>
    Text.ofString "Missing or unknown delimiter after " ++ command.spelled ++ Text.ofString ": " ++
      describe found
  | missingRight => Text.ofString "Missing \\right to match \\left"
  | namelessEnvironment => Text.ofString "Missing environment name after \\begin"
  | unknownEnvironment name => Text.ofString "No such environment: " ++ Text.ofString name
  | unterminated environment found =>
    Text.ofString "Unterminated environment '" ++ Text.ofString environment ++
      Text.ofString "', got " ++ describe found

def Fault.message : Fault → Text
  | .malformed fault => fault.message
  | .refused refusal => refusal.message

end DeltaPreview.Latex
