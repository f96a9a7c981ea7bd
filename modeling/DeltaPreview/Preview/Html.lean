import DeltaPreview.Json.Printer
import DeltaPreview.Markup.Fragment
import DeltaPreview.Markup.Html.Printer
import DeltaPreview.Node.Basic
import DeltaPreview.Settings.Basic

/-!
# Render nodes as HTML

Every block becomes an element, every mark an element around its run.  Characters that no markup can
hold are dropped from texts, links and addresses; only the texts of an empty preview are refused
because of them.  Finished markup must stand for a node, and the size of images must not have more
digits than a number may be written with.
-/

namespace DeltaPreview

/-- Why nodes have no HTML. -/
inductive Unrenderable where
  | refused (refusal : Text.Refusal)
  | unreadable (markup : Markup.Unreadable)
  | tooManyDigits
  deriving DecidableEq, Repr

/-- What is reported of nodes that have no HTML. -/
def Unrenderable.message : Unrenderable → Text
  | refused refusal => refusal.message
  | unreadable markup => markup.message
  | tooManyDigits => Text.ofString ("Exceeds the limit (" ++ toString Json.maxDigits ++
      " digits) for integer string conversion; use sys.set_int_max_str_digits() to increase the limit")

/-- The element of a mark. -/
def Mark.tag (link : Option Text) : Mark → Tag
  | bold => .plain "strong" []
  | italic => .plain "em" []
  | underline => .plain "u" []
  | strike => .plain "s" []
  | code => .plain "code" []
  | Mark.link => .plain "a" [("href", (link.getD []).compatible), ("target", "_blank".toList),
      ("rel", "noopener noreferrer".toList)]

/-- A node inside the elements of its marks, the first mark innermost. -/
def Mark.wrap (marks : List Mark) (link : Option Text) (node : Markup) : Markup :=
  marks.foldl (fun node m => .element (m.tag link) (Markup.push [] node)) node

namespace Inline

/-- The node of a run. -/
def markupNode : Inline → Except Markup.Unreadable Markup
  | text t marks link => .ok (Mark.wrap marks link (.text t.compatible))
  | markup m marks => (Markup.ofText m).map (Mark.wrap marks none)
  | lineBreak => .ok (.plain "br" [] [])

/-- The children that runs give an element. -/
def markupNodes (children : List Inline) : Except Markup.Unreadable (List Markup) :=
  (children.mapM markupNode).map (Markup.pushAll [])

end Inline

namespace Node

/-- The name of the element of a heading. -/
def headingName : HeadingLevel → String
  | .one => "h1"
  | .two => "h2"
  | .three => "h3"

/-- The name of the element of a list. -/
def listName : ListKind → String
  | .bullet => "ul"
  | .ordered => "ol"

/-- A block of runs. -/
def block (name : String) (children : List Inline) : Except Unrenderable Markup :=
  ((Inline.markupNodes children).map (.plain name [])).mapError .unreadable

/-- A text that is kept as it is. -/
def keptText (t : Text) : Except Unrenderable (List Markup) :=
  (t.toMarkup.map fun cs => [.text cs]).mapError .refused

/-- A number that is written as it is. -/
def keptNumber (n : Int) : Except Unrenderable (List Char) :=
  if Json.maxDigits < (Nat.toDigits 10 n.natAbs).length then .error .tooManyDigits
  else .ok (Json.intText n)

/-- The element of a node. -/
def element (settings : Settings) : Node → Except Unrenderable Markup
  | paragraph children => block "p" children
  | heading level children => block (headingName level) children
  | blockquote children => block "blockquote" children
  | codeBlock children => (block "code" children).map fun code => .plain "pre" [] [code]
  | list kind items => (items.mapM (block "li")).map (.plain (listName kind) [])
  | image src => do
      let width ← keptNumber settings.image.width
      let height ← keptNumber settings.image.height
      return .plain "img" [("src", src.compatible), ("alt", settings.image.alt.compatible),
        ("width", width), ("height", height)] []
  | formula markup _ marks =>
      ((Markup.ofText markup).mapError .unreadable).map fun node =>
        .plain "div" [("class", "ql-formula".toList)] [Mark.wrap marks none node]
  | align alignment child => (element settings child).map fun inner =>
      .plain "div" [("class", "ql-align-".toList ++ alignment.name.toList),
        ("style", "text-align: ".toList ++ alignment.name.toList ++ [';'])] [inner]
  | empty message hint => do
      let message ← keptText message
      let hint ← keptText hint
      return .plain "div" [("class", "delta-empty".toList)] [
        .plain "p" [] message, .plain "p" [("class", "delta-empty-hint".toList)] hint]

end Node

/-- The element of a whole preview. -/
def previewElement (settings : Settings) (nodes : List Node) : Except Unrenderable Markup :=
  (nodes.mapM (Node.element settings)).map (.plain "div" [("class", "delta-preview".toList)])

/-- The HTML of a whole preview. -/
def renderHtml (settings : Settings) (nodes : List Node) : Except Unrenderable (List Char) :=
  (previewElement settings nodes).map (Html.write false)

end DeltaPreview
