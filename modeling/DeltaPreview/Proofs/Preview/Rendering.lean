import DeltaPreview.Preview.Html
import DeltaPreview.Proofs.Markup.Vocabulary
import DeltaPreview.Proofs.Result
import Mathlib.Algebra.Group.Int.Defs
import Mathlib.Algebra.Group.Nat.Defs

/-!
# Rendering legible nodes

A run is legible (`Inline.Legible`) if it stands for a proper tree: texts and line breaks always do,
finished markup if it can be read and holds known tags only.  A node is legible if all its runs are.

The main statement, `previewElement_legible`, is that legible nodes have a tree, that the tree is made of
the vocabulary, and that it shows the texts of all runs, in order.  Only the sizes that are set for images
can keep them from having one: a number with too many digits is never written
(`renderHtml_legible_iff`).
-/

namespace DeltaPreview

/-- The text that a tree shows. -/
def Markup.shown (m : Markup) : List Char := Html.shownText (Html.pieces m)

/-- The text that a sequence of trees shows. -/
def Markup.shownAll (ms : List Markup) : List Char := Html.shownText (Html.piecesAll ms)

namespace Inline

/-- A run that stands for a proper tree. -/
def Legible (i : Inline) : Prop := ∃ m, i.markupNode = .ok m ∧ m.Inner

/-- The text that a run shows. -/
def shown (i : Inline) : List Char :=
  match i.markupNode with
  | .ok m => m.shown
  | .error _ => []

end Inline

namespace Node

/-- A node whose runs are legible. -/
def Legible : Node → Prop
  | paragraph children => ∀ i ∈ children, i.Legible
  | heading _ children => ∀ i ∈ children, i.Legible
  | blockquote children => ∀ i ∈ children, i.Legible
  | codeBlock children => ∀ i ∈ children, i.Legible
  | list _ items => ∀ item ∈ items, ∀ i ∈ item, i.Legible
  | image _ => True
  | formula markup _ marks => (Inline.markup markup marks).Legible
  | align _ child => child.Legible
  | empty _ _ => False

/-- The text that a node shows: that of its runs. -/
def shown : Node → List Char
  | paragraph children => children.flatMap Inline.shown
  | heading _ children => children.flatMap Inline.shown
  | blockquote children => children.flatMap Inline.shown
  | codeBlock children => children.flatMap Inline.shown
  | list _ items => items.flatMap fun item => item.flatMap Inline.shown
  | image _ => []
  | formula markup _ marks => (Inline.markup markup marks).shown
  | align _ child => child.shown
  | empty _ _ => []

/-- Whether a node shows an image, at any depth. -/
def showsImage : Node → Bool
  | image _ => true
  | align _ child => child.showsImage
  | _ => false

end Node

/-! ### The sizes of images -/

/-- The sizes of images have no more digits than a number may be written with. -/
structure ImageSettings.Fits (image : ImageSettings) : Prop where
  width : image.width.natAbs < 10 ^ Json.maxDigits
  height : image.height.natAbs < 10 ^ Json.maxDigits

namespace Node

variable {settings : Settings}

theorem keptNumber_of_lt {n : Int} (h : n.natAbs < 10 ^ Json.maxDigits) :
    keptNumber n = .ok (Json.intText n) := by
  have hshort := (Nat.length_toDigits_le_iff (k := Json.maxDigits) (by decide) (by decide)).mpr h
  rw [keptNumber, if_neg (Nat.not_lt.mpr hshort)]

theorem keptNumber_of_le {n : Int} (h : 10 ^ Json.maxDigits ≤ n.natAbs) :
    keptNumber n = .error .tooManyDigits := by
  have hlong := mt (Nat.length_toDigits_le_iff (k := Json.maxDigits) (by decide) (by decide)).mp
    (Nat.not_lt.mpr h)
  rw [keptNumber, if_pos (Nat.not_le.mp hlong)]

theorem lt_of_keptNumber {n : Int} {cs : List Char} (h : keptNumber n = .ok cs) :
    n.natAbs < 10 ^ Json.maxDigits := by
  by_contra hlong
  rw [keptNumber_of_le (Nat.not_lt.mp hlong)] at h
  cases h

theorem element_image (h : settings.image.Fits) (src : Text) :
    element settings (.image src) = .ok (.plain "img" [("src", src.compatible),
      ("alt", settings.image.alt.compatible), ("width", Json.intText settings.image.width),
      ("height", Json.intText settings.image.height)] []) := by
  rw [element, keptNumber_of_lt h.width, keptNumber_of_lt h.height]
  rfl

/-- A node that shows an image has an element only if the sizes fit. -/
theorem fits_of_element {node : Node} {m : Markup} (h : element settings node = .ok m)
    (himage : node.showsImage = true) : settings.image.Fits := by
  induction node generalizing m with
  | image src =>
    obtain ⟨width, hwidth, hrest⟩ := bind_eq_ok.mp h
    obtain ⟨height, hheight, -⟩ := bind_eq_ok.mp hrest
    exact ⟨lt_of_keptNumber hwidth, lt_of_keptNumber hheight⟩
  | align alignment child ih =>
    obtain ⟨inner, hinner, -⟩ := map_eq_ok.mp h
    exact ih hinner himage
  | _ => cases himage

end Node

/-! ### Trees -/

namespace Markup

theorem shown_text (t : List Char) : (text t).shown = t.map Html.shownChar := by
  rw [shown, Html.shownText, Html.pieces, List.flatMap_map, List.map_eq_flatMap]
  rfl

theorem shownAll_cons (m : Markup) (ms : List Markup) :
    shownAll (m :: ms) = m.shown ++ shownAll ms := by
  simp [shownAll, shown, Html.piecesAll, Html.shownText]

theorem shownAll_pushAll (ms : List Markup) : shownAll (pushAll [] ms) = shownAll ms := by
  simp [shownAll, Html.piecesAll_pushAll, Html.piecesAll]

theorem text_start {name : String} (hbreak : name ≠ "br")
    (attributes : List (String × List Char)) :
    (Html.start (Tag.plain name attributes)).text = [] := by
  simp [Html.start, Html.Piece.text, Tag.plain, hbreak]

/-- An element without children shows nothing, unless it is a line break. -/
theorem shown_childless {name : String} (hbreak : name ≠ "br")
    (attributes : List (String × List Char)) : (plain name attributes []).shown = [] := by
  have hstop : (Html.Piece.closing (Tag.plain name attributes).name).text = [] := rfl
  rw [shown, plain, Html.pieces]
  split
  · simp [Html.shownText, text_start hbreak]
  · simp [Html.shownText, text_start hbreak, hstop]

/-- An element shows what its children show. -/
theorem shown_plain {name : String} {attributes : List (String × List Char)}
    {children : List Markup} (hbreak : name ≠ "br")
    (hvoid : Html.named Html.voidNames name = false) :
    (plain name attributes children).shown = shownAll children := by
  have hstop : (Html.Piece.closing (Tag.plain name attributes).name).text = [] := rfl
  have hvoid' : Html.isVoid (Tag.plain name attributes) = false := by
    simpa [Html.isVoid, Tag.plain] using hvoid
  cases children with
  | nil => exact shown_childless hbreak attributes
  | cons child children =>
    rw [shown, plain, Html.pieces, hvoid']
    simp [Html.shownText, text_start hbreak, hstop, shownAll, Html.piecesAll]

end Markup

/-! ### Marks and runs -/

namespace Mark

/-- A node inside the element of a mark. -/
theorem inner_element (m : Mark) (link : Option Text) {node : Markup} (h : node.Inner) :
    (Markup.element (m.tag link) (Markup.push [] node)).Inner := by
  have hchildren : ∀ k ∈ Markup.push [] node, k.Inner :=
    Markup.forall_push Markup.inner_text (by simp) h
  cases m with
  | link =>
    have hknows : Html.knowsInner "a" ["href", "target", "rel"] = true := by decide
    exact Markup.inner_plain hknows hchildren
  | _ => exact Markup.inner_plain (by decide) hchildren

theorem shown_element (m : Mark) (link : Option Text) (node : Markup) :
    (Markup.element (m.tag link) (Markup.push [] node)).shown = node.shown := by
  have hpush : Markup.shownAll (Markup.push [] node) = node.shown := by
    simp [Markup.shownAll, Markup.shown, Html.piecesAll_push, Html.piecesAll]
  rw [← hpush]
  cases m <;> exact Markup.shown_plain (by decide) (by decide)

theorem inner_wrap (marks : List Mark) (link : Option Text) {node : Markup} (h : node.Inner) :
    (wrap marks link node).Inner := by
  induction marks generalizing node with
  | nil => exact h
  | cons m marks ih => exact ih (m.inner_element link h)

/-- Marks show what they mark. -/
theorem shown_wrap (marks : List Mark) (link : Option Text) (node : Markup) :
    (wrap marks link node).shown = node.shown := by
  induction marks generalizing node with
  | nil => rfl
  | cons m marks ih => exact (ih _).trans (m.shown_element link node)

end Mark

/-- Characters that markup can hold are shown as they are. -/
theorem Html.shownChar_of_compatible {c : Char} (h : compatibleChar c = true) :
    shownChar c = c := by
  refine if_neg fun hc => ?_
  obtain ⟨hlow, htab, hline, hret⟩ := hc
  -- Below the blank, only tabulator and line ends are compatible.
  have hne (d : Char) (hd : c ≠ d) : c.toNat ≠ d.toNat := fun e => hd (Char.toNat_inj.mp e)
  have h9 := hne '\t' htab
  have h10 := hne '\n' hline
  have h13 := hne '\r' hret
  simp [compatibleChar] at h
  simp at h9 h10 h13
  omega

namespace Inline

theorem legible_text (t : Text) (marks : List Mark) (link : Option Text) :
    (text t marks link).Legible :=
  ⟨_, rfl, Mark.inner_wrap marks link (Markup.inner_text _)⟩

/-- A text shows its characters, without those that no markup can hold. -/
theorem shown_text (t : Text) (marks : List Mark) (link : Option Text) :
    (text t marks link).shown = t.compatible := by
  have hsame : t.compatible.map Html.shownChar = t.compatible := by
    have hall := List.all_eq_true.mp (Text.all_compatible t)
    exact (List.map_congr_left fun c hc => Html.shownChar_of_compatible (hall c hc)).trans
      (List.map_id _)
  show (Mark.wrap marks link (.text t.compatible)).shown = t.compatible
  rw [Mark.shown_wrap, Markup.shown_text, hsame]

theorem legible_lineBreak : lineBreak.Legible :=
  ⟨_, rfl, Markup.inner_plain (by decide) (by simp)⟩

theorem shown_lineBreak : lineBreak.shown = ['\n'] := by decide

/-- Finished markup that can be read as a proper tree is legible. -/
theorem legible_markup {m : Text} {node : Markup} (h : Markup.ofText m = .ok node)
    (hnode : node.Inner) (marks : List Mark) : (markup m marks).Legible :=
  ⟨Mark.wrap marks none node, by simp [markupNode, h, Except.map], Mark.inner_wrap marks none hnode⟩

end Inline

/-! ### Blocks and nodes -/

/-- The node `m` is proper, an item or not as `item` says, and shows the text `t`. -/
structure Markup.Shows (item : Bool) (t : List Char) (m : Markup) : Prop where
  proper : m.Proper
  isItem : m.isItem = item
  shown : m.shown = t

/-- Trees that each show a text show these texts in order. -/
theorem Markup.shows_all {α : Type} {text : α → List Char} {item : Bool} {as : List α}
    {ms : List Markup} (h : List.Forall₂ (fun a m => Markup.Shows item (text a) m) as ms) :
    (∀ m ∈ ms, m.Proper) ∧ (∀ m ∈ ms, m.isItem = item) ∧ shownAll ms = as.flatMap text := by
  induction h with
  | nil => exact ⟨by simp, by simp, rfl⟩
  | @cons a m as ms hm _ ih =>
    obtain ⟨hproper, hitems, hshown⟩ := ih
    refine ⟨?_, ?_, ?_⟩
    · simpa using ⟨hm.proper, hproper⟩
    · simpa using ⟨hm.isItem, hitems⟩
    · rw [shownAll_cons, hm.shown, hshown, List.flatMap_cons]

/-- The children that legible runs give an element. -/
theorem Inline.markupNodes_legible {children : List Inline} (h : ∀ i ∈ children, i.Legible) :
    ∃ ms, markupNodes children = .ok ms ∧ (∀ m ∈ ms, m.Inner) ∧
      Markup.shownAll ms = children.flatMap Inline.shown := by
  have hnode : ∀ i ∈ children, ∃ m, i.markupNode = .ok m ∧ Markup.Shows false i.shown m := by
    intro i hi
    obtain ⟨m, hm, hinner⟩ := h i hi
    exact ⟨m, hm, hinner.proper, hinner.notItem, by rw [Inline.shown, hm]⟩
  obtain ⟨ms, hms, hall⟩ := mapM_forall₂ hnode
  obtain ⟨hproper, hitems, hshown⟩ := Markup.shows_all hall
  refine ⟨Markup.pushAll [] ms, by rw [markupNodes, hms]; rfl, ?_, ?_⟩
  · exact Markup.forall_pushAll Markup.inner_text (by simp) fun m hm =>
      ⟨hproper m hm, hitems m hm⟩
  · rw [Markup.shownAll_pushAll, hshown]

namespace Node

/-- The names of the elements that hold runs. -/
def blockNames : List String := ["p", "h1", "h2", "h3", "blockquote", "code", "li"]

/-- A block of legible runs has an element that shows them. -/
theorem block_legible {name : String} (hname : name ∈ blockNames) {children : List Inline}
    (h : ∀ i ∈ children, i.Legible) :
    ∃ m, block name children = .ok m ∧
      Markup.Shows (name == "li") (children.flatMap Inline.shown) m := by
  have table : ∀ name ∈ blockNames, Html.knows name [] = true ∧
      (name == "ul" || name == "ol") = false ∧ name ≠ "br" ∧
      Html.named Html.voidNames name = false := by decide
  obtain ⟨hknows, hlist, hbreak, hvoid⟩ := table name hname
  obtain ⟨ms, hms, hinner, hshown⟩ := Inline.markupNodes_legible h
  refine ⟨.plain name [] ms, by rw [block, hms]; rfl, ?_, rfl, ?_⟩
  · exact Markup.proper_plain hknows (fun m hm => (hinner m hm).proper) fun m hm =>
      (hinner m hm).notItem.trans hlist.symm
  · rw [Markup.shown_plain hbreak hvoid, hshown]

/-- The element of a list of legible items. -/
theorem list_legible (settings : Settings) (kind : ListKind) {items : List (List Inline)}
    (h : ∀ item ∈ items, ∀ i ∈ item, i.Legible) :
    ∃ m, element settings (.list kind items) = .ok m ∧
      Markup.Shows false (Node.list kind items).shown m := by
  have hitem : ∀ item ∈ items, ∃ m, block "li" item = .ok m ∧
      Markup.Shows true (item.flatMap Inline.shown) m :=
    fun item hitem => block_legible (by decide) (h item hitem)
  obtain ⟨ms, hms, hall⟩ := mapM_forall₂ hitem
  obtain ⟨hproper, hitems, hshown⟩ := Markup.shows_all hall
  have hknows : Html.knows (listName kind) [] = true := by cases kind <;> decide
  have hlist : (listName kind == "ul" || listName kind == "ol") = true := by
    cases kind <;> decide
  have hvoid : Html.named Html.voidNames (listName kind) = false := by
    cases kind <;> decide
  refine ⟨.plain (listName kind) [] ms, by rw [element, hms]; rfl, ?_, ?_, ?_⟩
  · exact Markup.proper_plain hknows hproper fun m hm => (hitems m hm).trans hlist.symm
  · cases kind <;> rfl
  · rw [Markup.shown_plain (by cases kind <;> decide) hvoid, hshown]
    rfl

/-- An element that is no list around some trees. -/
theorem shows_plain {name : String} {attributes : List (String × List Char)} {m : Markup}
    {t : List Char} (hknows : Html.knows name (attributes.map Prod.fst) = true)
    (hname : ((name == "ul" || name == "ol") || name == "li" || name == "br" ||
      Html.named Html.voidNames name) = false) (hm : Markup.Shows false t m) :
    Markup.Shows false t (.plain name attributes [m]) := by
  simp only [Bool.or_eq_false_iff] at hname
  obtain ⟨⟨⟨⟨hul, hol⟩, hli⟩, hbr⟩, hvoid⟩ := hname
  refine ⟨?_, hli, ?_⟩
  · exact Markup.proper_plain hknows (by simpa using hm.proper) (by simpa [hul, hol] using hm.isItem)
  · rw [Markup.shown_plain (by simpa using hbr) hvoid, Markup.shownAll_cons, hm.shown]
    simp [Markup.shownAll, Html.piecesAll, Html.shownText]

/-- A legible node has an element that shows its runs, as far as the sizes of images fit. -/
theorem element_legible (settings : Settings) {node : Node} (h : node.Legible)
    (hfits : node.showsImage = true → settings.image.Fits) :
    ∃ m, element settings node = .ok m ∧ Markup.Shows false node.shown m := by
  induction node with
  | paragraph children => exact block_legible (by decide) h
  | heading level children => cases level <;> exact block_legible (by decide) h
  | blockquote children => exact block_legible (by decide) h
  | codeBlock children =>
    have hname : "code" ∈ blockNames := by decide
    obtain ⟨m, hm, hshows⟩ := block_legible hname h
    refine ⟨.plain "pre" [] [m], by rw [element, hm]; rfl, ?_⟩
    exact shows_plain (by decide) (by decide) hshows
  | list kind items => exact list_legible settings kind h
  | image src =>
    have hknows : Html.knows "img" ["src", "alt", "width", "height"] = true := by decide
    refine ⟨_, element_image (hfits rfl) src, ?_, rfl, ?_⟩
    · exact Markup.proper_plain hknows (by simp) (by simp)
    · exact Markup.shown_childless (by decide) _
  | formula markup size marks =>
    obtain ⟨m, hm, hinner⟩ := h
    have hshown : (formula markup size marks).shown = m.shown := by
      rw [shown, Inline.shown, hm]
    have helement : element settings (.formula markup size marks) =
        .ok (.plain "div" [("class", "ql-formula".toList)] [m]) := by
      rw [Inline.markupNode] at hm
      rw [element]
      cases hread : Markup.ofText markup with
      | error e => simp [hread, Except.map] at hm
      | ok node =>
        have hwrap : Mark.wrap marks none node = m := by simpa [hread, Except.map] using hm
        simp [Except.map, Except.mapError, hwrap]
    refine ⟨_, helement, ?_⟩
    exact shows_plain (by decide) (by decide)
      ⟨hinner.proper, hinner.notItem, hshown.symm⟩
  | align alignment child ih =>
    obtain ⟨m, hm, hshows⟩ := ih h hfits
    have hknows : Html.knows "div" ["class", "style"] = true := by decide
    refine ⟨_, by rw [element, hm]; rfl, ?_⟩
    exact shows_plain hknows (by decide) hshows
  | empty message hint => exact h.elim

end Node

/-! ### The page -/

/-- Legible nodes have a tree of the vocabulary that shows their texts, as far as the sizes of images
fit. -/
theorem previewElement_legible (settings : Settings) {nodes : List Node}
    (h : ∀ node ∈ nodes, node.Legible)
    (hfits : nodes.any Node.showsImage = true → settings.image.Fits) :
    ∃ page, previewElement settings nodes = .ok page ∧ page.Inner ∧
      page.shown = nodes.flatMap Node.shown := by
  obtain ⟨ms, hms, hall⟩ := mapM_forall₂ fun node hnode =>
    Node.element_legible settings (h node hnode) fun himage =>
      hfits (List.any_eq_true.mpr ⟨node, hnode, himage⟩)
  obtain ⟨hproper, hitems, hshown⟩ := Markup.shows_all hall
  have hlist : ("div" == "ul" || "div" == "ol") = false := by decide
  refine ⟨.plain "div" [("class", "delta-preview".toList)] ms, ?_, ⟨?_, rfl⟩, ?_⟩
  · rw [previewElement, hms]
    rfl
  · exact Markup.proper_plain (by decide) hproper fun m hm => (hitems m hm).trans hlist.symm
  · rw [Markup.shown_plain (by decide) (by decide), hshown]

/-- The page of a tree is the tree, written. -/
theorem renderHtml_eq_ok {settings : Settings} {nodes : List Node} {page : Markup}
    (h : previewElement settings nodes = .ok page) :
    renderHtml settings nodes = .ok (Html.write false page) := by
  rw [renderHtml, h]
  rfl

/-- Legible nodes have a page exactly if the sizes of images fit, wherever they show one. -/
theorem renderHtml_legible_iff (settings : Settings) {nodes : List Node}
    (h : ∀ node ∈ nodes, node.Legible) :
    (∃ html, renderHtml settings nodes = .ok html) ↔
      (nodes.any Node.showsImage = true → settings.image.Fits) := by
  constructor
  · rintro ⟨html, hhtml⟩ himage
    obtain ⟨page, hpage, -⟩ := map_eq_ok.mp hhtml
    obtain ⟨ms, hms, -⟩ := map_eq_ok.mp hpage
    obtain ⟨node, hnode, hshows⟩ := List.any_eq_true.mp himage
    obtain ⟨m, hm⟩ := exists_mapM_iff.mp ⟨ms, hms⟩ node hnode
    exact Node.fits_of_element hm hshows
  · intro hfits
    obtain ⟨page, hpage, -⟩ := previewElement_legible settings h hfits
    exact ⟨_, renderHtml_eq_ok hpage⟩

end DeltaPreview
