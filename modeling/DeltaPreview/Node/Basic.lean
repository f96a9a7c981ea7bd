import DeltaPreview.Delta.Attributes

/-!
# Render nodes

What a document displays, as a sequence of blocks: paragraphs, headings, quotes, code, lists,
images, formulas and aligned blocks.  Blocks hold runs of text and of finished markup.
-/

namespace DeltaPreview

/-- The styles of a run, in the order in which they are applied, innermost first. -/
inductive Mark where
  | bold
  | italic
  | underline
  | strike
  | code
  | link
  deriving DecidableEq, Repr

/-- A piece of the content of a block. -/
inductive Inline where
  /-- A text with its marks, innermost first, and the target of its link. -/
  | text (text : Text) (marks : List Mark) (link : Option Text)
  /-- Finished markup, such as a formula. -/
  | markup (markup : Text) (marks : List Mark)
  | lineBreak
  deriving DecidableEq, Repr

/-- A block. -/
inductive Node where
  | paragraph (children : List Inline)
  | heading (level : HeadingLevel) (children : List Inline)
  | blockquote (children : List Inline)
  | codeBlock (children : List Inline)
  | list (kind : ListKind) (items : List (List Inline))
  | image (src : Text)
  | formula (markup : Text) (size : Option Double) (marks : List Mark)
  | align (alignment : Alignment) (child : Node)
  /-- The sign that there is no document, as opposed to an empty one. -/
  | empty (message hint : Text)
  deriving DecidableEq, Repr

namespace Mark

def name : Mark → String
  | bold => "bold"
  | italic => "italic"
  | underline => "underline"
  | strike => "strike"
  | code => "code"
  | link => "link"

/-- All marks, innermost first. -/
def all : List Mark := [bold, italic, underline, strike, code, link]

/-- The marks of text styling, which formulas can carry. -/
def styling : List Mark := [bold, italic, underline, strike]

/-- The mark of a name. -/
def ofText? (t : Text) : Option Mark := all.find? fun m => t = Text.ofString m.name

/-- Whether attributes set a mark. -/
def applies (attributes : Attributes) : Mark → Bool
  | bold => attributes.bold
  | italic => attributes.italic
  | underline => attributes.underline
  | strike => attributes.strike
  | code => attributes.code
  | link => attributes.link.isSome

/-- The marks among `marks` that attributes set. -/
def active (marks : List Mark) (attributes : Attributes) : List Mark :=
  marks.filter (applies attributes)

end Mark

namespace Node

/-- What is shown when there is no document. -/
def defaultMessage : Text := Text.ofString "No content to display"

/-- What is shown below it. -/
def defaultHint : Text := Text.ofString "Paste Delta JSON in the left panel to see the preview"

/-- The sign that there is no document, with its usual texts. -/
def noContent : Node := empty defaultMessage defaultHint

end Node

end DeltaPreview
