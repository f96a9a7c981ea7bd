import DeltaPreview.Markup.Basic

/-!
# Writing HTML

Elements that cannot have content are written without an end tag, and so is a list item without
children; all other elements have one.  Texts escape the characters that would begin markup, except
in scripts and styles.  Values stand between double quotes if they can do so without escapes, and
addresses are percent-encoded.
-/

namespace DeltaPreview.Html

/-- The elements that cannot have content. -/
def voidNames : List String :=
  ["area", "base", "basefont", "br", "col", "frame", "hr", "img", "input", "isindex", "link",
    "meta", "param"]

/-- The attributes that are written without a value. -/
def booleanNames : List String :=
  ["checked", "compact", "declare", "defer", "disabled", "ismap", "multiple", "nohref", "noresize",
    "noshade", "nowrap", "readonly", "selected"]

/-- The attributes that hold addresses. -/
def addressNames : List String := ["href", "action", "src"]

/-- The elements whose text is written as it is. -/
def rawNames : List String := ["script", "style"]

/-- Whether a name is among some names, in any case. -/
def named (names : List String) (name : String) : Bool :=
  names.any fun n => n.toList == name.toList.map Char.toLower

/-- A character of a text or a value.  A control character is written as the replacement character. -/
def escapeText : Char → List Char
  | '&' => "&amp;".toList
  | '<' => "&lt;".toList
  | '>' => "&gt;".toList
  | '\r' => "&#13;".toList
  | c =>
    if c.toNat < 0x20 ∧ c ≠ '\t' ∧ c ≠ '\n' then "&#xFFFD;".toList else [c]

/-- A character between double quotes. -/
def escapeQuote : Char → List Char
  | '"' => "&quot;".toList
  | c => [c]

/-- A value between quotes: single ones if it contains double quotes only. -/
def quote (v : List Char) : List Char :=
  if v.contains '"' && !v.contains '\'' then '\'' :: (v ++ ['\''])
  else '"' :: (v.flatMap escapeQuote ++ ['"'])

/-- A byte in percent encoding. -/
def percent (b : UInt8) : List Char :=
  let digit (n : Nat) : Char := (Nat.digitChar n).toUpper
  ['%', digit (b.toNat / 16), digit (b.toNat % 16)]

/-- A character of an address.  Printable ASCII characters other than the space stand for
themselves. -/
def encodeAddress (c : Char) : List Char :=
  if 0x21 ≤ c.toNat ∧ c.toNat ≤ 0x7E then [c] else (String.utf8EncodeChar c).flatMap percent

/-- The blanks that are dropped in front of an address. -/
def isBlank (c : Char) : Bool := c == ' ' || c == '\t' || c == '\n'

/-- Whether an attribute of a tag holds an address. -/
def isAddress (tag : Tag) (a : Attribute) : Bool :=
  !a.namespaced && !tag.namespaced &&
    (named addressNames a.name || (named ["name"] a.name && named ["a"] tag.name))

/-- The value of an attribute of a tag, between quotes.  References in an address are kept when it is
percent-encoded. -/
def writeValue (tag : Tag) (a : Attribute) (v : List Char) : List Char :=
  let escaped := v.flatMap escapeText
  quote (if isAddress tag a then (escaped.dropWhile isBlank).flatMap encodeAddress else escaped)

/-- An attribute and the space before it. -/
def writeAttribute (tag : Tag) (a : Attribute) : List Char :=
  ' ' :: a.name.toList ++
    match a.value with
    | none => []
    | some v => if named booleanNames a.name then [] else '=' :: writeValue tag a v

/-- A declared namespace, written as an attribute.  Its name is written as it is. -/
def writeDeclaration : List Char × List Char → List Char
  | ([], uri) => " xmlns=".toList ++ quote uri
  | (name, uri) => " xmlns:".toList ++ name ++ '=' :: quote uri

/-- A start tag. -/
def writeTag (tag : Tag) : List Char :=
  '<' :: tag.name.toList ++ tag.declarations.flatMap writeDeclaration ++
    tag.attributes.flatMap (writeAttribute tag) ++ ['>']

/-- An end tag. -/
def writeEnd (tag : Tag) : List Char := '<' :: '/' :: tag.name.toList ++ ['>']

/-- Whether a tag opens an element without content. -/
def isVoid (tag : Tag) : Bool := !tag.namespaced && named voidNames tag.name

/-- Whether an element without children has no end tag. -/
def omitsEnd (tag : Tag) : Bool := !tag.namespaced && named ["li"] tag.name

mutual

/-- A node as HTML; `raw` says whether texts are written as they are. -/
def write (raw : Bool) : Markup → List Char
  | .text t => if raw then t else t.flatMap escapeText
  | .element tag [] =>
    writeTag tag ++ if isVoid tag || omitsEnd tag then [] else writeEnd tag
  | .element tag (child :: children) =>
    writeTag tag ++ if isVoid tag then []
      else write (named rawNames tag.name) child ++ writeAll (named rawNames tag.name) children ++
        writeEnd tag
  | .comment t => "<!--".toList ++ t ++ "-->".toList
  | .instruction target content =>
    "<?".toList ++ target ++ (if content.isEmpty then [] else ' ' :: content) ++ ['>']

/-- A sequence of nodes as HTML. -/
def writeAll (raw : Bool) : List Markup → List Char
  | [] => []
  | node :: nodes => write raw node ++ writeAll raw nodes

end

end DeltaPreview.Html
