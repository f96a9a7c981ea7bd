import DeltaPreview.Proofs.Formula.Markup
import DeltaPreview.Proofs.Latex.Atoms

/-!
# Formulas in a page

The markup of a formula is a text, and a page is a tree: when a formula is put into a page, its markup is
cleared of the characters that no markup can hold and read again.  Nothing is lost on this way
(`ofText_typeset`): the text is read as XML, and its only node is the tree of the formula itself, where an
element with an empty text has no text at all.  The annotation still is the source, character for character.

Reading back clears texts and values and joins neighbouring texts (`Markup.readBack`).  In the tree of a formula
there is nothing to clear (`fits_of_parse`) and nothing to join, since a text has no siblings
(`Markup.Steady`).
-/

namespace DeltaPreview

namespace Markup

/-! ### Texts -/

/-- The characters of a text. -/
def content : Markup → List Char
  | text t => t
  | _ => []

/-- Whether a node is a text without characters. -/
def isEmptyText : Markup → Bool
  | text t => t.isEmpty
  | _ => false

mutual

/-- A tree without the empty texts in it. -/
def withoutEmptyTexts : Markup → Markup
  | element tag children => element tag (allWithoutEmptyTexts children)
  | node => node

/-- The same for a sequence of nodes. -/
def allWithoutEmptyTexts : List Markup → List Markup
  | [] => []
  | m :: ms =>
    if m.isEmptyText then allWithoutEmptyTexts ms
    else withoutEmptyTexts m :: allWithoutEmptyTexts ms

end

/-! ### Steady trees -/

/-- Whether children are a text without siblings, made of characters that markup can hold, or no texts. -/
def SteadyChildren (children : List Markup) : Prop :=
  (∃ t : List Char, children = [text t] ∧ t.all compatibleChar = true) ∨
    ∀ m ∈ children, m.isText = false

/-- A tag and children that are read back as they are. -/
def Steady (tag : Tag) (children : List Markup) : Prop := tag.cleared = tag ∧ SteadyChildren children

theorem not_text_readBacks {ms : List Markup} (h : ∀ m ∈ ms, m.isText = false) :
    ∀ m ∈ readBacks ms, m.isText = false := by
  intro k hk
  obtain ⟨m, hm, rfl⟩ := mem_readBacks hk
  have := h m hm
  cases m <;> first | rfl | cases this

mutual

/-- A steady tree is read back as it is, without its empty texts. -/
theorem readBack_steady (m : Markup) (h : m.MadeOf Steady) (htext : m.isText = false) :
    m.readBack = m.withoutEmptyTexts := by
  match m with
  | text t => cases htext
  | element tag children =>
    obtain ⟨⟨htag, hchildren⟩, hall⟩ := h
    rw [readBack, withoutEmptyTexts, htag]
    rcases hchildren with ⟨t, rfl, ht⟩ | hnone
    · have hclear : t.filter compatibleChar = t := List.filter_eq_self.mpr (List.all_eq_true.mp ht)
      cases t with
      | nil => rfl
      | cons c cs => simp [readBacks, readBack, hclear, pushAll, push, pushText, allWithoutEmptyTexts,
          isEmptyText, withoutEmptyTexts]
    · rw [pushAll_of_not_text (not_text_readBacks hnone), List.nil_append,
        readBacks_steady children hall hnone]
  | comment t => exact h.elim
  | instruction target t => exact h.elim

theorem readBacks_steady (ms : List Markup) (h : AllMadeOf Steady ms)
    (htext : ∀ m ∈ ms, m.isText = false) : readBacks ms = allWithoutEmptyTexts ms := by
  match ms with
  | [] => rfl
  | m :: ms =>
    obtain ⟨hm, hms⟩ := List.forall_mem_cons.mp htext
    have hnonempty : m.isEmptyText = false := by
      cases m <;> first | rfl | cases hm
    rw [readBacks, allWithoutEmptyTexts, hnonempty, readBack_steady m h.1 hm,
      readBacks_steady ms h.2 hms]
    rfl

end

/-- Attributes whose values markup can hold. -/
def ValuesFit (attributes : List (String × List Char)) : Prop :=
  ∀ a ∈ attributes, a.2.all compatibleChar = true

theorem cleared_plain_of_fits {name : String} {attributes : List (String × List Char)}
    (h : ValuesFit attributes) : (Tag.plain name attributes).cleared = .plain name attributes := by
  have hvalues : attributes.map (fun a => (a.1, a.2.filter compatibleChar)) = attributes.map id := by
    refine List.map_congr_left fun a ha => ?_
    rw [List.filter_eq_self.mpr (List.all_eq_true.mp (h a ha))]
    rfl
  rw [Tag.cleared_plain, hvalues, List.map_id]

theorem steady_plain {name : String} {attributes : List (String × List Char)}
    {children : List Markup} (hvalues : ValuesFit attributes) (htext : ∀ m ∈ children, m.isText = false)
    (hall : AllMadeOf Steady children) : (plain name attributes children).MadeOf Steady :=
  ⟨⟨cleared_plain_of_fits hvalues, .inr htext⟩, hall⟩

theorem steady_text {name : String} {attributes : List (String × List Char)} {t : List Char}
    (hvalues : ValuesFit attributes) (ht : t.all compatibleChar = true) :
    (plain name attributes [text t]).MadeOf Steady :=
  ⟨⟨cleared_plain_of_fits hvalues, .inl ⟨t, rfl, ht⟩⟩, trivial, trivial⟩

theorem valuesFit_nil : ValuesFit [] := by
  rintro _ ⟨⟩

theorem valuesFit_cons {a : String × List Char} {attributes : List (String × List Char)} :
    ValuesFit (a :: attributes) ↔ a.2.all compatibleChar = true ∧ ValuesFit attributes :=
  List.forall_mem_cons

end Markup

/-! ### Trees of formulas -/

namespace Latex

open Markup

theorem not_text_markup (layout : Layout) (m : Math) : (m.markup layout).isText = false := by
  cases m <;> rfl

theorem not_text_markups (layout : Layout) (ms : List Math) :
    ∀ m ∈ markups layout ms, m.isText = false := by
  induction ms with
  | nil => rintro _ ⟨⟩
  | cons m ms ih => exact List.forall_mem_cons.mpr ⟨not_text_markup layout m, ih⟩

theorem not_text_cellMarkups (layout : Layout) (cells : List (List Math)) :
    ∀ m ∈ cellMarkups layout cells, m.isText = false := by
  induction cells with
  | nil => rintro _ ⟨⟩
  | cons cell cells ih => exact List.forall_mem_cons.mpr ⟨rfl, ih⟩

theorem not_text_rowMarkups (layout : Layout) (rows : List (List (List Math))) :
    ∀ m ∈ rowMarkups layout rows, m.isText = false := by
  induction rows with
  | nil => rintro _ ⟨⟩
  | cons cells rows ih => exact List.forall_mem_cons.mpr ⟨rfl, ih⟩

theorem valuesFit_leaf (role : LeafRole) (variant : Option Variant) :
    ValuesFit (role.attributes ++ Variant.attributes variant) := by
  cases variant with
  | none => cases role <;> unfold ValuesFit <;> decide
  | some v => cases role <;> cases v <;> unfold ValuesFit <;> decide

theorem steady_leaf {l : Leaf} (h : l.text.all compatibleChar = true) : l.markup.MadeOf Steady :=
  steady_text (valuesFit_leaf l.role l.variant) h

section Steady

variable (layout : Layout)

mutual

/-- A formula whose atoms markup can hold has a steady tree. -/
theorem steady_markup (m : Math) (h : ∀ a ∈ m.atoms, a.Fits) :
    (m.markup layout).MadeOf Steady := by
  match m with
  | .leaf l => exact steady_leaf (h _ List.mem_cons_self)
  | .space width =>
    have hwidth : width.toList.all compatibleChar = true := h (.space width) List.mem_cons_self
    exact steady_plain (valuesFit_cons.mpr ⟨hwidth, valuesFit_nil⟩) (by rintro _ ⟨⟩) trivial
  | .newline =>
    exact steady_plain (valuesFit_cons.mpr ⟨by decide, valuesFit_nil⟩) (by rintro _ ⟨⟩) trivial
  | .row children =>
    exact steady_plain valuesFit_nil (not_text_markups layout children) (steady_markups children h)
  | .fraction line numerator denominator =>
    obtain ⟨hn, hd⟩ := List.forall_mem_append.mp h
    have hvalues : ValuesFit (if line then [] else [("linethickness", "0".toList)]) := by
      cases line <;> unfold ValuesFit <;> decide
    exact steady_plain hvalues (not_text_markups layout [numerator, denominator])
      ⟨steady_markup numerator hn, steady_markup denominator hd, trivial⟩
  | .sqrt children =>
    exact steady_plain valuesFit_nil (not_text_markups layout children) (steady_markups children h)
  | .root base index =>
    obtain ⟨hb, hi⟩ := List.forall_mem_append.mp h
    exact steady_plain valuesFit_nil (not_text_markups layout [base, index])
      ⟨steady_markup base hb, steady_markup index hi, trivial⟩
  | .accent base mark =>
    obtain ⟨hb, hm⟩ := List.forall_mem_append.mp h
    exact steady_plain (valuesFit_cons.mpr ⟨by decide, valuesFit_nil⟩)
      (not_text_markups layout [base, .leaf mark])
      ⟨steady_markup base hb, steady_leaf (hm _ List.mem_cons_self), trivial⟩
  | .sub base lower =>
    obtain ⟨hb, hl⟩ := List.forall_mem_append.mp h
    exact steady_plain valuesFit_nil (not_text_markups layout [base, lower])
      ⟨steady_markup base hb, steady_markup lower hl, trivial⟩
  | .sup base upper =>
    obtain ⟨hb, hu⟩ := List.forall_mem_append.mp h
    exact steady_plain valuesFit_nil (not_text_markups layout [base, upper])
      ⟨steady_markup base hb, steady_markup upper hu, trivial⟩
  | .subsup base lower upper =>
    obtain ⟨hscripted, hu⟩ := List.forall_mem_append.mp h
    obtain ⟨hb, hl⟩ := List.forall_mem_append.mp hscripted
    exact steady_plain valuesFit_nil (not_text_markups layout [base, lower, upper])
      ⟨steady_markup base hb, steady_markup lower hl, steady_markup upper hu, trivial⟩
  | .table leftAligned rows =>
    have hvalues : ValuesFit (if leftAligned then [("columnalign", "left".toList)] else []) := by
      cases leftAligned <;> unfold ValuesFit <;> decide
    exact steady_plain hvalues (not_text_rowMarkups layout rows) (steady_rowMarkups rows h)

theorem steady_markups (ms : List Math) (h : Math.AllFit ms) :
    AllMadeOf Steady (markups layout ms) := by
  match ms with
  | [] => trivial
  | m :: ms =>
    obtain ⟨hm, hms⟩ := List.forall_mem_append.mp h
    exact ⟨steady_markup m hm, steady_markups ms hms⟩

theorem steady_cellMarkups (cells : List (List Math)) (h : ∀ a ∈ Math.cellAtoms cells, a.Fits) :
    AllMadeOf Steady (cellMarkups layout cells) := by
  match cells with
  | [] => trivial
  | cell :: cells =>
    obtain ⟨hcell, hcells⟩ := List.forall_mem_append.mp h
    exact ⟨steady_plain valuesFit_nil (not_text_markups layout cell) (steady_markups cell hcell),
      steady_cellMarkups cells hcells⟩

theorem steady_rowMarkups (rows : List (List (List Math))) (h : ∀ a ∈ Math.rowAtoms rows, a.Fits) :
    AllMadeOf Steady (rowMarkups layout rows) := by
  match rows with
  | [] => trivial
  | cells :: rows =>
    obtain ⟨hcells, hrows⟩ := List.forall_mem_append.mp h
    exact ⟨steady_plain valuesFit_nil (not_text_cellMarkups layout cells)
      (steady_cellMarkups cells hcells), steady_rowMarkups rows hrows⟩

end

/-- So has the whole tree, if markup can hold the source. -/
theorem steady_wrap {body : List Math} (hbody : Math.AllFit body) {source : List Char}
    (hsource : source.all compatibleChar = true) : (wrap layout (markups layout body) source).MadeOf Steady := by
  have hrow : (Markup.plain "mrow" [] (markups layout body)).MadeOf Steady :=
    steady_plain valuesFit_nil (not_text_markups layout body) (steady_markups layout body hbody)
  have hannotation : (Markup.plain "annotation" [("encoding", "application/x-tex".toList)]
      [.text source]).MadeOf Steady :=
    steady_text (valuesFit_cons.mpr ⟨by decide, valuesFit_nil⟩) hsource
  have hsemantics : (Markup.plain "semantics" [] [.plain "mrow" [] (markups layout body),
      .plain "annotation" [("encoding", "application/x-tex".toList)] [.text source]]).MadeOf Steady :=
    steady_plain valuesFit_nil (by simp [Markup.plain, isText]) ⟨hrow, hannotation, trivial⟩
  cases layout <;>
    exact steady_plain (valuesFit_cons.mpr ⟨by decide, valuesFit_nil⟩)
      (by simp [Markup.plain, isText])
      ⟨steady_plain (valuesFit_cons.mpr ⟨by decide, valuesFit_nil⟩) (by simp [Markup.plain, isText])
        ⟨hsemantics, trivial⟩, trivial⟩

end Steady

/-! ### Markup of formulas -/

/-- The text of the annotation in the tree of a formula. -/
def annotation? : Markup → Option (List Char)
  | .element span [.element math [.element semantics [.element row _, .element annotation texts]]] =>
    if [span.name, math.name, semantics.name, row.name, annotation.name] =
        ["span", "math", "semantics", "mrow", "annotation"] then
      some (texts.flatMap Markup.content)
    else none
  | _ => none

theorem annotation?_wrap (layout : Layout) (body : List Markup) (source : List Char) :
    annotation? (wrap layout body source).withoutEmptyTexts = some source := by
  cases layout <;> cases source with
  | nil => rfl
  | cons c cs => exact congrArg some (List.append_nil (c :: cs))

/-- A steady tree that is written, cleared and read again is itself, without its empty texts. -/
theorem content?_steady {m : Markup} (hplain : m.MadeOf fun tag _ => tag.IsPlain)
    (hsteady : m.MadeOf Steady) (htext : m.isText = false) :
    Xml.content? (Text.ofChars (Xml.write m)).compatible = some [m.withoutEmptyTexts] := by
  have hread : m.withoutEmptyTexts.isText = false := by
    cases m <;> first | rfl | cases htext
  rw [Text.compatible, Text.chars_ofChars, Xml.content?_write hplain, readBack_steady m hsteady htext,
    pushAll_of_not_text (List.forall_mem_singleton.mpr hread), List.nil_append]

/-- The markup of a formula is read as XML, and its only node is the tree of the formula, which therefore needs
no element around it.  Only empty texts are no longer there.  The annotation is the trimmed source. -/
theorem ofText_typeset {source : Text} {layout : Layout} {markup : Text}
    (h : typeset source layout = .ok markup) :
    ∃ m, tree layout source = .ok m ∧ markup = Text.ofChars (Xml.write m) ∧
      Xml.content? markup.compatible = some [m.withoutEmptyTexts] ∧
      Markup.ofText markup = .ok m.withoutEmptyTexts ∧
      (annotation? m.withoutEmptyTexts).map Text.ofChars = some source.trim := by
  obtain ⟨m, htree, rfl⟩ := map_eq_ok.mp h
  obtain ⟨body, hbody, hfits, rfl⟩ := tree_eq_ok_iff.mp htree
  have hsource := Text.fitsMarkup_iff.mp hfits
  have hplain := (inner_wrap layout body source.trim.chars).proper.plainTags
  have hsteady := steady_wrap layout (fits_of_parse hbody) hsource.2
  have hcontent := content?_steady hplain hsteady rfl
  have hchars : Text.ofChars source.trim.chars = source.trim :=
    Text.ofChars_chars (Text.isPaired_of_fitsMarkup hfits)
  refine ⟨_, htree, rfl, hcontent, ?_, ?_⟩
  · rw [Markup.ofText, Markup.nodesOf, hcontent]
    rfl
  · rw [annotation?_wrap, Option.map_some, hchars]

/-- Signs that would begin markup, a line end that a reader would change, and an operator without a name. -/
theorem ofText_typeset_sample :
    let source := Text.ofString " \\text\x7b<&\r>\x7d\\operatorname\x7b\x7d "
    ∃ markup m, typeset source .display = .ok markup ∧ tree .display source = .ok m ∧
      markup = Text.ofChars (Xml.write m) ∧
      Xml.content? markup.compatible = some [m.withoutEmptyTexts] ∧
      Markup.ofText markup = .ok m.withoutEmptyTexts ∧
      (annotation? m.withoutEmptyTexts).map Text.ofChars = some source.trim := by
  intro source
  obtain ⟨markup, hset⟩ : ∃ markup, typeset source .display = .ok markup :=
    exists_of_toBool (by decide +kernel)
  obtain ⟨m, hm⟩ := ofText_typeset hset
  exact ⟨markup, m, hset, hm⟩

end Latex

end DeltaPreview
