import DeltaPreview.Json.Display
import DeltaPreview.Markup.Html.Reader
import DeltaPreview.Markup.Xml.Reader
import DeltaPreview.Text.Compatible

/-!
# Finished markup as a node

Finished markup is read as XML content if it is well formed, and as HTML otherwise.  A single node
stands for itself; anything else is wrapped in a `span`.  Only whole HTML documents can lack a
content to show.
-/

namespace DeltaPreview

namespace Markup

/-- Why finished markup stands for no node. -/
structure Unreadable where
  source : List Char
  fault : Html.FragmentFault
  deriving DecidableEq, Repr

/-- What is reported of markup that stands for no node. -/
def Unreadable.message (u : Unreadable) : Text :=
  match u.fault with
  | .noDocument => Text.ofString "Document is empty"
  | .bodies count =>
    Text.ofString ("too many bodies: [" ++
      ", ".intercalate (List.replicate count "<Element body>") ++ "] in ") ++
      Json.displayQuoted (Text.ofChars u.source)

/-- Some nodes as one: a single node that is no text is itself. -/
def wrapped : List Markup → Markup
  | [text t] => plain "span" [] [text t]
  | [node] => node
  | nodes => plain "span" [] nodes

/-- The nodes of finished markup. -/
def nodesOf (s : List Char) : Except Unreadable (List Markup) :=
  match Xml.content? s with
  | some nodes => .ok nodes
  | none => (Html.fragment s).mapError fun fault => ⟨s, fault⟩

/-- The node that finished markup stands for, without the characters that no markup can hold. -/
def ofText (t : Text) : Except Unreadable Markup := (nodesOf t.compatible).map wrapped

end Markup

end DeltaPreview
