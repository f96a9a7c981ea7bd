/-!
# Implied end tags

HTML leaves out tags.  Some start tags end elements that cannot contain them, and an end tag ends
what is open inside the element that it names, unless an element that outranks it is in between.
-/

namespace DeltaPreview.Html

/-- The start tags that end the head of a document. -/
def bodyNames : List String :=
  ["a", "abbr", "acronym", "address", "b", "bdo", "big", "blockquote", "body", "br", "center",
    "cite", "code", "dd", "dfn", "dir", "div", "dl", "dt", "em", "fieldset", "font", "form",
    "frameset", "h1", "h2", "h3", "h4", "h5", "h6", "hr", "i", "iframe", "img", "kbd", "li",
    "listing", "map", "menu", "ol", "p", "pre", "q", "s", "samp", "small", "span", "strike",
    "strong", "sub", "sup", "table", "tt", "u", "ul", "var", "xmp"]

/-- For the name of an open element, the start tags that end it. -/
def closedBy : List (String × List String) :=
  let lists := ["dd", "dl", "dt"]
  let blocks := ["fieldset", "form", "li", "p", "table"]
  let groups := ["tbody", "tfoot"]
  let rows := ["tbody", "tfoot", "thead", "tr"]
  let cells := ["td", "th"]
  let preformatted := ["fieldset", "form", "li", "table", "ul"] ++ lists
  [ ("a", ["a", "fieldset", "table"] ++ cells), ("address", ["form", "li", "ul"] ++ lists),
    ("b", ["center", "p"] ++ cells), ("big", ["p"]), ("caption", ["col", "colgroup"] ++ rows),
    ("colgroup", ["colgroup"] ++ rows), ("dd", ["dt"]), ("dir", ["form", "ul"] ++ lists),
    ("dl", ["form", "li"]), ("dt", ["dd", "dl"]), ("font", ["center"] ++ cells),
    ("form", ["form"]), ("h1", blocks), ("h2", blocks), ("h3", blocks), ("h4", blocks),
    ("h5", blocks), ("h6", blocks), ("head", bodyNames), ("i", ["center", "p"] ++ cells),
    ("legend", ["fieldset"]), ("li", ["li"]), ("listing", preformatted),
    ("menu", ["form", "ul"] ++ lists), ("ol", ["form"]), ("option", ["optgroup", "option"]),
    ("p", ["address", "blockquote", "body", "caption", "center", "col", "colgroup", "dir", "div",
      "fieldset", "form", "frameset", "h1", "h2", "h3", "h4", "h5", "h6", "head", "hr", "li",
      "listing", "menu", "ol", "p", "pre", "table", "title", "tr", "ul", "xmp"] ++
      lists ++ groups ++ cells),
    ("pre", preformatted), ("s", ["p"]), ("small", ["p"]), ("span", cells), ("strike", ["p"]),
    ("tbody", groups), ("td", ["tr"] ++ groups ++ cells), ("tfoot", ["tbody"]),
    ("th", ["tr"] ++ groups ++ cells), ("thead", groups), ("tr", ["tr"] ++ groups), ("tt", ["p"]),
    ("u", ["p"] ++ cells), ("ul", ["address", "form", "menu", "pre"]) ]

/-- Whether a start tag ends an open element. -/
def closes (new opened : String) : Bool := ((closedBy.lookup opened).getD []).contains new

/-- The ranks of the elements that are not closed by the end tag of a lower one. -/
def ranks : List (String × Nat) :=
  [("div", 150), ("td", 160), ("th", 160), ("tr", 170), ("thead", 180), ("tbody", 180),
    ("tfoot", 180), ("table", 190), ("head", 200), ("body", 200), ("html", 220)]

/-- The rank of an element among end tags. -/
def rank (name : String) : Nat := (ranks.lookup name).getD 100

end DeltaPreview.Html
