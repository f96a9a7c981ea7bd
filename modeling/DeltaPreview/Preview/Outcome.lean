import DeltaPreview.Compile.Step
import DeltaPreview.Delta.Summary
import DeltaPreview.Delta.Validation
import DeltaPreview.Latex.Typeset
import DeltaPreview.Preview.Html

/-!
# From text to preview

The whole way of a document: its text is validated, compiled and rendered as HTML.  A text that is
no document still has a preview, the one without content, and the reason comes with it.
-/

namespace DeltaPreview

/-- What a text gives: its preview and what is reported of it. -/
structure Outcome where
  error : Option InvalidDocument
  nodes : List Node
  html : List Char
  summary : Summary
  /-- The messages about the steps, in order. -/
  log : List String

/-- Why a text has no outcome at all. -/
inductive RenderFailure where
  | misfit (reason : Misfit)
  | unrenderable (reason : Unrenderable)
  deriving DecidableEq, Repr

namespace Outcome

/-- Whether the text is a document. -/
def isValid (o : Outcome) : Bool := o.error.isNone

/-- The messages, one on a line. -/
def logText (o : Outcome) : String := "\n".intercalate o.log

/-- The message before validation. -/
def checking (text : Text) : String :=
  "[VALIDATE] Checking " ++ toString text.length ++ " characters of Delta JSON..."

/-- The HTML of nodes. -/
def htmlOf (settings : Settings) (nodes : List Node) : Except RenderFailure (List Char) :=
  (renderHtml settings nodes).mapError .unrenderable

/-- The outcome of a text that is no document. -/
def ofInvalid (settings : Settings) (text : Text) (invalid : InvalidDocument) :
    Except RenderFailure Outcome := do
  let nodes := [Node.noContent]
  let html ← htmlOf settings nodes
  return ⟨some invalid, nodes, html, Summary.noDocument,
    [checking text, "[VALIDATE] ❌ " ++ invalid.message]⟩

/-- The outcome of a text that is a document. -/
def ofDocument (settings : Settings) (r : Formula.Renderer) (text : Text) (doc : Document) :
    Except RenderFailure Outcome := do
  let compiler : Compiler := ⟨r, settings.formula.expandInlineMath⟩
  let nodes ← (compiler.compile doc).mapError .misfit
  let html ← htmlOf settings nodes
  return ⟨none, nodes, html, Summary.ofDocument doc,
    [checking text,
      "[VALIDATE] ✅ Valid Delta JSON (" ++ toString doc.ops.length ++ " operations).",
      "[COMPILE] Produced " ++ toString nodes.length ++ " render nodes.",
      "[RENDER] HTML preview generated."]⟩

/-- The outcome of a text. -/
def ofText (settings : Settings) (r : Formula.Renderer) (text : Text) :
    Except RenderFailure Outcome := do
  match ← (Document.validate text).mapError .misfit with
  | .error invalid => ofInvalid settings text invalid
  | .ok doc => ofDocument settings r text doc

end Outcome

/-- What a process with given settings renders formulas with.  The outcome of a text under other settings
is rendered with the same. -/
def Settings.renderer (settings : Settings) : Formula.Renderer :=
  ⟨Latex.typesetter, settings.formula.errorColor⟩

end DeltaPreview
