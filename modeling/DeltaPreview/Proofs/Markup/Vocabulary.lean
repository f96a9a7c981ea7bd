import DeltaPreview.Proofs.Markup.Page

/-!
# The vocabulary of a preview

The elements of a preview and the attributes that their tags may have form a fixed table
(`Html.shapes`).  A tree is proper (`Markup.Proper`) if all its tags are in the table and list items
stand in lists, and lists hold nothing else.

The page of a proper tree has known tags only (`pieces_known`), and its tags nest (`nested_pieces`):
apart from the elements that cannot have content, only a list item without content lacks its end tag.
-/

namespace DeltaPreview.Html

/-- The attributes that a leaf of a formula may have. -/
def leafShapes : List (List String) := [
  [], ["fence", "stretchy"], ["largeop"], ["stretchy"], ["mathvariant"],
  ["fence", "stretchy", "mathvariant"], ["largeop", "mathvariant"], ["stretchy", "mathvariant"]]

/-- The elements of a preview: for every name, the attributes that its tags may have, in order. -/
def shapes : List (String × List (List String)) := [
  ("div", [["class"], ["class", "style"]]), ("p", [[]]), ("h1", [[]]), ("h2", [[]]), ("h3", [[]]),
  ("blockquote", [[]]), ("pre", [[]]), ("code", [[]]), ("ul", [[]]), ("ol", [[]]), ("li", [[]]),
  ("img", [["src", "alt", "width", "height"]]), ("span", [[], ["class"], ["style"]]),
  ("strong", [[]]), ("em", [[]]), ("u", [[]]), ("s", [[]]), ("a", [["href", "target", "rel"]]),
  ("br", [[]]),
  ("math", [["display"]]), ("semantics", [[]]), ("annotation", [["encoding"]]), ("mrow", [[]]),
  ("mi", leafShapes), ("mn", leafShapes), ("mo", leafShapes), ("mtext", leafShapes),
  ("mspace", [["width"], ["linebreak"]]), ("mfrac", [[], ["linethickness"]]), ("mroot", [[]]),
  ("msqrt", [[]]), ("mover", [[], ["accent"]]), ("munder", [[]]), ("munderover", [[]]),
  ("msub", [[]]), ("msup", [[]]), ("msubsup", [[]]), ("mtable", [[], ["columnalign"]]),
  ("mtr", [[]]), ("mtd", [[]])]

/-- Whether a tag of a name may have some attributes. -/
def knows (name : String) (attributes : List String) : Bool :=
  (shapes.lookup name).any (·.contains attributes)

/-- The same for a tag that begins neither a list nor an item. -/
def knowsInner (name : String) (attributes : List String) : Bool :=
  knows name attributes && !(name == "ul" || name == "ol") && !(name == "li")

/-- Whether the tag of a piece is in the vocabulary. -/
def Piece.known : Piece → Bool
  | char _ => true
  | opening name attributes => knows name attributes
  | closing name => (shapes.lookup name).isSome

/-- Whether an element that has just begun may lack its end tag: another element of its name follows,
or the end of the element around it. -/
def endsAtOnce (name : String) : List Piece → Bool
  | .opening next _ :: _ => next == name
  | .closing next :: _ => next != name
  | _ => false

/-- Whether tags nest inside some open elements, the innermost first.  Elements that cannot have
content have no end tag, and those whose names are `optional` may lack it if they have no content. -/
def nested (optional : List String) : List String → List Piece → Bool
  | opened, [] => opened.isEmpty
  | opened, .char _ :: ps => nested optional opened ps
  | opened, .opening name _ :: ps =>
    if named voidNames name || (optional.contains name && endsAtOnce name ps) then
      nested optional opened ps
    else nested optional (name :: opened) ps
  | [], .closing _ :: _ => false
  | inner :: outer, .closing name :: ps => inner == name && nested optional outer ps

end DeltaPreview.Html

namespace DeltaPreview

open Html

/-- A tag of the vocabulary. -/
def Tag.Known (tag : Tag) : Prop :=
  ∃ name attributes, tag = .plain name attributes ∧ knows name (attributes.map Prod.fst) = true

/-- Whether a tag begins a list. -/
def Tag.isList (tag : Tag) : Bool := tag.name == "ul" || tag.name == "ol"

namespace Markup

/-- Whether a node is a list item. -/
def isItem : Markup → Bool
  | element tag _ => tag.name == "li"
  | _ => false

/-- A tag of the vocabulary with children that may stand in it. -/
def Fits (tag : Tag) (children : List Markup) : Prop :=
  tag.Known ∧ ∀ m ∈ children, m.isItem = tag.isList

/-- A tree of the vocabulary. -/
abbrev Proper : Markup → Prop := MadeOf Fits

/-- A tree of the vocabulary that is no list item. -/
structure Inner (m : Markup) : Prop where
  proper : m.Proper
  notItem : m.isItem = false

/-- An element of the vocabulary is proper if its children may stand in it. -/
theorem proper_plain {name : String} {attributes : List (String × List Char)}
    {children : List Markup} (hknows : Html.knows name (attributes.map Prod.fst) = true)
    (hchildren : ∀ m ∈ children, m.Proper)
    (hitems : ∀ m ∈ children, m.isItem = (name == "ul" || name == "ol")) :
    (plain name attributes children).Proper :=
  ⟨⟨⟨name, attributes, rfl, hknows⟩, hitems⟩, allMadeOf_iff.mpr hchildren⟩

theorem inner_text (t : List Char) : (text t).Inner := ⟨trivial, rfl⟩

/-- An element that is neither a list nor an item. -/
theorem inner_plain {name : String} {attributes : List (String × List Char)}
    {children : List Markup} (h : Html.knowsInner name (attributes.map Prod.fst) = true)
    (hchildren : ∀ m ∈ children, m.Inner) : (plain name attributes children).Inner := by
  simp only [Html.knowsInner, Bool.and_eq_true, Bool.not_eq_true', Bool.or_eq_false_iff] at h
  obtain ⟨⟨hknows, hul, hol⟩, hli⟩ := h
  refine ⟨proper_plain hknows (fun m hm => (hchildren m hm).proper) fun m hm => ?_, hli⟩
  rw [(hchildren m hm).notItem, hul, hol]
  rfl

end Markup

/-! ### Known tags -/

theorem Html.mem_shapes {name : String} {attributes : List String}
    (h : knows name attributes = true) :
    ∃ shape ∈ shapes, shape.1 = name ∧ attributes ∈ shape.2 := by
  unfold knows at h
  cases hlookup : shapes.lookup name with
  | none => simp [hlookup] at h
  | some allowed =>
    obtain ⟨before, after, hshapes, -⟩ := List.lookup_eq_some_iff.mp hlookup
    refine ⟨(name, allowed), by simp [hshapes], rfl, ?_⟩
    simpa [hlookup] using h

theorem Html.plainNames_of_knows {name : String} {attributes : List String}
    (h : knows name attributes = true) : plainNames name attributes = true := by
  have table : ∀ shape ∈ shapes, ∀ attributes ∈ shape.2, plainNames shape.1 attributes = true := by
    decide
  obtain ⟨shape, hshape, rfl, hmem⟩ := mem_shapes h
  exact table shape hshape attributes hmem

theorem Tag.Known.isPlain {tag : Tag} (h : tag.Known) : tag.IsPlain := by
  obtain ⟨name, attributes, rfl, hknows⟩ := h
  exact ⟨name, attributes, rfl, plainNames_of_knows hknows⟩

theorem Tag.Known.start {tag : Tag} (h : tag.Known) : (Html.start tag).known = true := by
  obtain ⟨name, attributes, rfl, hknows⟩ := h
  simpa [Html.start, Tag.plain, Attribute.plain, Piece.known, Function.comp_def] using hknows

theorem Tag.Known.closing {tag : Tag} (h : tag.Known) :
    (Piece.closing tag.name).known = true := by
  obtain ⟨name, attributes, rfl, hknows⟩ := h
  unfold knows at hknows
  cases hlookup : shapes.lookup name with
  | none => simp [hlookup] at hknows
  | some allowed => simp [Piece.known, Tag.plain, hlookup]

theorem Tag.Known.isVoid_eq {tag : Tag} (h : tag.Known) :
    isVoid tag = named voidNames tag.name := by
  obtain ⟨name, attributes, rfl, -⟩ := h
  rfl

/-- Only list items omit their end tags. -/
theorem Tag.Known.omitsEnd_eq {tag : Tag} (h : tag.Known) :
    omitsEnd tag = (tag.name == "li") := by
  have table : ∀ shape ∈ shapes, named ["li"] shape.1 = (shape.1 == "li") := by decide
  obtain ⟨name, attributes, rfl, hknows⟩ := h
  obtain ⟨shape, hshape, rfl, -⟩ := mem_shapes hknows
  exact table shape hshape

theorem Markup.Proper.plainTags {m : Markup} (h : m.Proper) :
    m.MadeOf fun tag _ => tag.IsPlain :=
  MadeOf.mono (fun _ _ h => h.1.isPlain) m h

namespace Html

mutual

/-- The tags of a proper tree are known. -/
theorem pieces_known (m : Markup) (h : m.Proper) : ∀ p ∈ pieces m, p.known = true := by
  cases m with
  | text t =>
    intro p hp
    obtain ⟨c, -, rfl⟩ := List.mem_map.mp hp
    rfl
  | element tag children =>
    have hstart := h.1.1.start
    have hclosing := h.1.1.closing
    cases children with
    | nil =>
      rw [pieces]
      split <;> simp [hstart, hclosing]
    | cons child children =>
      have hchild := pieces_known child h.2.1
      have hchildren := piecesAll_known children h.2.2
      rw [pieces]
      split
      · simp [hstart]
      · intro p hp
        simp only [List.mem_cons, List.mem_append, List.not_mem_nil, or_false] at hp
        rcases hp with rfl | (hp | hp) | rfl
        · exact hstart
        · exact hchild p hp
        · exact hchildren p hp
        · exact hclosing
  | comment t => exact h.elim
  | instruction target t => exact h.elim

theorem piecesAll_known (ms : List Markup) (h : Markup.AllMadeOf Markup.Fits ms) :
    ∀ p ∈ piecesAll ms, p.known = true := by
  cases ms with
  | nil => simp [piecesAll]
  | cons m ms =>
    intro p hp
    rcases List.mem_append.mp hp with hp | hp
    · exact pieces_known m h.1 p hp
    · exact piecesAll_known ms h.2 p hp

end

/-! ### Nesting -/

theorem nested_text (optional opened : List String) (t : List Char) (ps : List Piece) :
    nested optional opened (pieces (.text t) ++ ps) = nested optional opened ps := by
  induction t with
  | nil => rfl
  | cons c t ih => exact ih

/-- An element with an end tag, whose content nests, closes what it opens. -/
theorem nested_element {optional opened : List String} {tag : Tag} {inner ps : List Piece}
    (hvoid : named voidNames tag.name = false)
    (hclosed : optional.contains tag.name = true →
      endsAtOnce tag.name (inner ++ .closing tag.name :: ps) = false)
    (hinner : ∀ opened, nested optional opened (inner ++ .closing tag.name :: ps) =
      nested optional opened (.closing tag.name :: ps)) :
    nested optional opened (start tag :: (inner ++ .closing tag.name :: ps)) =
      nested optional opened ps := by
  have hstays : (optional.contains tag.name &&
      endsAtOnce tag.name (inner ++ .closing tag.name :: ps)) = false := by
    cases hoptional : optional.contains tag.name with
    | false => rfl
    | true => simpa using hclosed hoptional
  rw [start, nested, hvoid, hstays]
  simp only [Bool.or_self, Bool.false_eq_true, if_false]
  rw [hinner]
  simp [nested]

/-- The content of an element that holds no list items does not end an item at once. -/
theorem endsAtOnce_content {name : String} {ms : List Markup} (h : ∀ m ∈ ms, m.isItem = false)
    (hname : name = "li") (hms : Markup.AllMadeOf Markup.Fits ms) (ps : List Piece) :
    endsAtOnce name (piecesAll ms ++ .closing name :: ps) = false := by
  induction ms with
  | nil => simp [piecesAll, endsAtOnce]
  | cons m ms ih =>
    have hrest := ih (fun m hm => h m (List.mem_cons_of_mem _ hm)) hms.2
    have hitem := h m List.mem_cons_self
    cases m with
    | text t =>
      cases t with
      -- An empty text has no pieces: the next node decides.
      | nil => exact hrest
      | cons c t => rfl
    | element tag children =>
      have htag : tag.name ≠ name := by
        rw [hname]
        simpa [Markup.isItem] using hitem
      cases children <;> simpa [piecesAll, pieces, start, endsAtOnce] using htag
    | comment t => exact hms.1.elim
    | instruction target t => exact hms.1.elim

/-- An item ends at once before the next item and at the end of its list. -/
theorem endsAtOnce_items {name : String} (hname : name ≠ "li") {ms : List Markup}
    (hitems : ∀ m ∈ ms, m.isItem = true) (hms : Markup.AllMadeOf Markup.Fits ms)
    (ps : List Piece) : endsAtOnce "li" (piecesAll ms ++ .closing name :: ps) = true := by
  cases ms with
  | nil => simpa [piecesAll, endsAtOnce] using hname
  | cons m ms =>
    have hitem := hitems m List.mem_cons_self
    cases m with
    | text t => simp [Markup.isItem] at hitem
    | element tag children =>
      have htag : tag.name = "li" := by simpa [Markup.isItem] using hitem
      cases children <;> simp [piecesAll, pieces, start, endsAtOnce, htag]
    | comment t => exact hms.1.elim
    | instruction target t => exact hms.1.elim

/-- Children that are no items. -/
theorem siblings_of_not_list {tag : Tag} {children : List Markup} (h : Markup.Fits tag children)
    (hlist : tag.isList = false) : ∀ m ∈ children, m.isItem = false :=
  fun m hm => (h.2 m hm).trans hlist

mutual

/-- The tags of a proper tree nest, whatever stands around it. -/
theorem nested_pieces (m : Markup) (h : m.Proper) (hitem : m.isItem = false)
    (opened : List String) (ps : List Piece) :
    nested ["li"] opened (pieces m ++ ps) = nested ["li"] opened ps := by
  cases m with
  | text t => exact nested_text ["li"] opened t ps
  | element tag children =>
    have hname : ¬ (["li"].contains tag.name = true) := by
      simpa [Markup.isItem] using hitem
    cases hvoid : named voidNames tag.name with
    | true =>
      cases children <;> simp [pieces, h.1.1.isVoid_eq, hvoid, start, nested]
    | false =>
      cases children with
      | nil =>
        have homits : omitsEnd tag = false := by rw [h.1.1.omitsEnd_eq]; exact hitem
        rw [pieces, h.1.1.isVoid_eq, hvoid, homits]
        show nested ["li"] opened (start tag :: ([] ++ .closing tag.name :: ps)) = _
        exact nested_element hvoid (fun h => absurd h hname) fun _ => rfl
      | cons child children =>
        have hpieces : pieces (.element tag (child :: children)) ++ ps =
            start tag :: (piecesAll (child :: children) ++ .closing tag.name :: ps) := by
          rw [pieces, h.1.1.isVoid_eq, hvoid]
          simp [piecesAll]
        rw [hpieces]
        refine nested_element hvoid (fun h => absurd h hname) fun opened => ?_
        -- The children of a list are items, whose end tags may be missing; all others are not.
        cases hlist : tag.isList with
        | true =>
          exact nested_items (child :: children) h.2 (fun m hm => (h.1.2 m hm).trans hlist)
            (by simpa [Markup.isItem] using hitem) opened ps
        | false =>
          exact nested_siblings (child :: children) h.2 (siblings_of_not_list h.1 hlist) opened _
  | comment t => exact h.elim
  | instruction target t => exact h.elim

theorem nested_siblings (ms : List Markup) (h : Markup.AllMadeOf Markup.Fits ms)
    (hitems : ∀ m ∈ ms, m.isItem = false) (opened : List String) (ps : List Piece) :
    nested ["li"] opened (piecesAll ms ++ ps) = nested ["li"] opened ps := by
  cases ms with
  | nil => rfl
  | cons m ms =>
    rw [piecesAll, List.append_assoc, nested_pieces m h.1 (hitems m List.mem_cons_self),
      nested_siblings ms h.2 fun m hm => hitems m (List.mem_cons_of_mem _ hm)]

theorem nested_items (ms : List Markup) (h : Markup.AllMadeOf Markup.Fits ms)
    (hitems : ∀ m ∈ ms, m.isItem = true) {name : String} (hname : name ≠ "li")
    (opened : List String) (ps : List Piece) :
    nested ["li"] opened (piecesAll ms ++ .closing name :: ps) =
      nested ["li"] opened (.closing name :: ps) := by
  cases ms with
  | nil => rfl
  | cons m ms =>
    have hrest := nested_items ms h.2 (fun m hm => hitems m (List.mem_cons_of_mem _ hm)) hname
      opened ps
    have hitem := hitems m List.mem_cons_self
    cases m with
    | text t => simp [Markup.isItem] at hitem
    | comment t => exact h.1.elim
    | instruction target t => exact h.1.elim
    | element tag children =>
      have htag : tag.name = "li" := by simpa [Markup.isItem] using hitem
      have hvoid : named voidNames tag.name = false := by rw [htag]; decide
      have hlist : tag.isList = false := by rw [Tag.isList, htag]; decide
      cases children with
      | nil =>
        -- the item has no end tag: what follows is the next item or the end of the list
        have hends := endsAtOnce_items hname
          (fun m hm => hitems m (List.mem_cons_of_mem _ hm)) h.2 ps
        have hpieces : piecesAll (.element tag [] :: ms) = start tag :: piecesAll ms := by
          simp [piecesAll, pieces, h.1.1.1.omitsEnd_eq, htag]
        rw [hpieces, start, List.cons_append, nested, htag, hends]
        simpa using hrest
      | cons child children =>
        have hsiblings := siblings_of_not_list h.1.1 hlist
        have hpieces : piecesAll (.element tag (child :: children) :: ms) ++ .closing name :: ps =
            start tag :: (piecesAll (child :: children) ++
              .closing tag.name :: (piecesAll ms ++ .closing name :: ps)) := by
          simp [piecesAll, pieces, h.1.1.1.isVoid_eq, hvoid]
        rw [hpieces, ← hrest]
        refine nested_element hvoid (fun _ => ?_) fun opened => ?_
        · exact endsAtOnce_content hsiblings htag h.1.2 _
        · exact nested_siblings (child :: children) h.1.2 hsiblings opened _

end

end Html

end DeltaPreview
