import DeltaPreview.Markup.Basic

/-!
# Writing XML

Elements without children are written as empty tags, except that an element whose only child is an
empty text has a start and an end tag.  Text escapes the characters that would begin markup, and the
carriage return, which a reader would turn into a line end.
-/

namespace DeltaPreview.Xml

/-- A character of a text. -/
def escapeText : Char → List Char
  | '&' => "&amp;".toList
  | '<' => "&lt;".toList
  | '>' => "&gt;".toList
  | '\r' => "&#13;".toList
  | c => [c]

/-- A character of an attribute value between double quotes. -/
def escapeValue : Char → List Char
  | '"' => "&quot;".toList
  | '\n' => "&#10;".toList
  | '\t' => "&#9;".toList
  | c => escapeText c

/-- An attribute and the space before it. -/
def writeAttribute (a : Attribute) : List Char :=
  ' ' :: a.name.toList ++ '=' :: '"' :: ((a.value.getD []).flatMap escapeValue ++ ['"'])

/-- A declared namespace, written as an attribute. -/
def writeDeclaration : List Char × List Char → List Char
  | ([], uri) => " xmlns=\"".toList ++ uri.flatMap escapeValue ++ ['"']
  | (name, uri) => " xmlns:".toList ++ name ++ "=\"".toList ++ uri.flatMap escapeValue ++ ['"']

/-- The inside of a start tag. -/
def writeTag (tag : Tag) : List Char :=
  tag.name.toList ++ tag.declarations.flatMap writeDeclaration ++
    tag.attributes.flatMap writeAttribute

mutual

/-- A node as XML. -/
def write : Markup → List Char
  | .text t => t.flatMap escapeText
  | .element tag [] => '<' :: writeTag tag ++ ['/', '>']
  | .element tag (child :: children) =>
    '<' :: writeTag tag ++ '>' :: (write child ++ writeAll children) ++
      '<' :: '/' :: tag.name.toList ++ ['>']
  | .comment t => "<!--".toList ++ t ++ "-->".toList
  | .instruction target content =>
    "<?".toList ++ target ++ (if content.isEmpty then [] else ' ' :: content) ++ "?>".toList

/-- A sequence of nodes as XML. -/
def writeAll : List Markup → List Char
  | [] => []
  | node :: nodes => write node ++ writeAll nodes

end

end DeltaPreview.Xml
