import DeltaPreview.Double.Print
import DeltaPreview.Formula.Render
import DeltaPreview.Markup.Fragment
import DeltaPreview.Proofs.Formula.Segment
import DeltaPreview.Proofs.Latex.Elements
import DeltaPreview.Proofs.Markup.Escape
import DeltaPreview.Proofs.Markup.ReadBack

/-!
# The markup of formulas

Whatever the source of a formula is, its markup is well-formed content of known elements: the tree of
the formula, or the message that says what is wrong with it.  This still holds when formulas stand
between literal texts (`reads_renderText`) and when they are given a font size
(`isElement_renderSized`).  So finished markup is always read as XML, and the more lenient reader is
never asked.
-/

namespace DeltaPreview

open Markup

/-! ### Trees of formulas -/

namespace Latex

theorem knows_leaf (kind : LeafKind) (role : LeafRole) (variant : Option Variant) :
    Html.knowsInner kind.tagName
      ((role.attributes ++ Variant.attributes variant).map Prod.fst) = true := by
  rw [List.map_append]
  cases variant with
  | none => cases kind <;> cases role <;> decide
  | some v =>
    have hnames : (Variant.attributes (some v)).map Prod.fst = ["mathvariant"] := rfl
    rw [hnames]
    cases kind <;> cases role <;> decide

theorem inner_leaf (l : Leaf) : l.markup.Inner :=
  inner_plain (knows_leaf l.kind l.role l.variant) (by simpa using inner_text l.text)

mutual

/-- The tree of a formula holds known elements only. -/
theorem inner_markup (layout : Layout) (m : Math) : (m.markup layout).Inner := by
  cases m with
  | leaf l => exact inner_leaf l
  | space width =>
    have hknows : Html.knowsInner "mspace" ["width"] = true := by decide
    exact inner_plain hknows (by simp)
  | newline => exact inner_plain (by decide) (by simp)
  | row children =>
    exact inner_plain (by decide) (inner_markups layout children)
  | fraction line numerator denominator =>
    have hchildren : ∀ m ∈ [numerator.markup layout, denominator.markup layout], m.Inner := by
      simpa using ⟨inner_markup layout numerator, inner_markup layout denominator⟩
    cases line <;> exact inner_plain (by decide) hchildren
  | sqrt children =>
    exact inner_plain (by decide) (inner_markups layout children)
  | root base index =>
    refine inner_plain (by decide) ?_
    simpa using ⟨inner_markup layout base, inner_markup layout index⟩
  | accent base mark =>
    refine inner_plain (by decide) ?_
    simpa using ⟨inner_markup layout base, inner_leaf mark⟩
  | sub base lower =>
    have hchildren : ∀ m ∈ [base.markup layout, lower.markup layout], m.Inner := by
      simpa using ⟨inner_markup layout base, inner_markup layout lower⟩
    rw [Math.markup]
    split <;> exact inner_plain (by decide) hchildren
  | sup base upper =>
    have hchildren : ∀ m ∈ [base.markup layout, upper.markup layout], m.Inner := by
      simpa using ⟨inner_markup layout base, inner_markup layout upper⟩
    rw [Math.markup]
    split <;> exact inner_plain (by decide) hchildren
  | subsup base lower upper =>
    have hchildren : ∀ m ∈ [base.markup layout, lower.markup layout, upper.markup layout],
        m.Inner := by
      simpa using ⟨inner_markup layout base, inner_markup layout lower, inner_markup layout upper⟩
    rw [Math.markup]
    split <;> exact inner_plain (by decide) hchildren
  | table leftAligned rows =>
    have hrows := inner_rowMarkups layout rows
    cases leftAligned <;> exact inner_plain (by decide) hrows

theorem inner_markups (layout : Layout) (ms : List Math) : ∀ m ∈ markups layout ms, m.Inner := by
  cases ms with
  | nil => simp [markups]
  | cons m ms => simpa [markups] using ⟨inner_markup layout m, inner_markups layout ms⟩

theorem inner_cellMarkups (layout : Layout) (cells : List (List Math)) :
    ∀ m ∈ cellMarkups layout cells, m.Inner := by
  cases cells with
  | nil => simp [cellMarkups]
  | cons cell cells =>
    have hcell : (Markup.plain "mtd" [] (markups layout cell)).Inner :=
      inner_plain (by decide) (inner_markups layout cell)
    simpa [cellMarkups] using ⟨hcell, inner_cellMarkups layout cells⟩

theorem inner_rowMarkups (layout : Layout) (rows : List (List (List Math))) :
    ∀ m ∈ rowMarkups layout rows, m.Inner := by
  cases rows with
  | nil => simp [rowMarkups]
  | cons cells rows =>
    have hrow : (Markup.plain "mtr" [] (cellMarkups layout cells)).Inner :=
      inner_plain (by decide) (inner_cellMarkups layout cells)
    simpa [rowMarkups] using ⟨hrow, inner_rowMarkups layout rows⟩

end

/-- The whole tree of a formula holds known elements only. -/
theorem inner_wrap (layout : Layout) (body : List Math) (source : List Char) :
    (wrap layout (markups layout body) source).Inner := by
  have hrow : (Markup.plain "mrow" [] (markups layout body)).Inner :=
    inner_plain (by decide) (inner_markups layout body)
  have hannotation : (Markup.plain "annotation" [("encoding", "application/x-tex".toList)]
      [.text source]).Inner :=
    inner_plain (by decide) (by simpa using inner_text source)
  have hsemantics : (Markup.plain "semantics" [] [.plain "mrow" [] (markups layout body),
      .plain "annotation" [("encoding", "application/x-tex".toList)] [.text source]]).Inner :=
    inner_plain (by decide) (by simpa using ⟨hrow, hannotation⟩)
  cases layout <;>
    exact inner_plain (by decide)
      (by simpa using inner_plain (by decide) (by simpa using hsemantics))

end Latex

/-! ### Elements -/

/-- Finished markup that is a single element of the vocabulary. -/
structure Text.IsElement (t : Text) : Prop where
  first : t.compatible.head? = some '<'
  last : t.compatible.getLast? = some '>'
  reads : ∃ m, Xml.Reads (normalizeLines t.compatible) [m] ∧ m.Inner

/-- The written tree of a formula is an element. -/
theorem isElement_write {tag : Tag} {children : List Markup}
    (h : (Markup.element tag children).Inner) :
    Text.IsElement (Text.ofChars (Xml.write (.element tag children))) := by
  have hclear : (Text.ofChars (Xml.write (.element tag children))).compatible =
      (Xml.write (.element tag children)).filter compatibleChar := by
    rw [Text.compatible, Text.chars_ofChars]
  have hplain := h.proper.plainTags
  have hends : ∃ inner, Xml.write (.element tag children) = '<' :: (inner ++ ['>']) := by
    cases children with
    | nil => exact ⟨Xml.writeTag tag ++ ['/'], by simp [Xml.write]⟩
    | cons child children =>
      exact ⟨Xml.writeTag tag ++ '>' :: (Xml.write child ++ Xml.writeAll children) ++
        '<' :: '/' :: tag.name.toList, by simp [Xml.write]⟩
  obtain ⟨inner, hinner⟩ := hends
  have hclear' : (Xml.write (.element tag children)).filter compatibleChar =
      '<' :: (inner.filter compatibleChar ++ ['>']) := by
    rw [hinner, List.filter_cons, List.filter_append]
    rfl
  refine ⟨?_, ?_, _, ?_, h.readBack⟩
  · rw [hclear, hclear']
    rfl
  · rw [hclear, hclear', ← List.cons_append, List.getLast?_concat]
  · rw [hclear, Xml.normalizeLines_write hplain]
    exact Xml.reads_write _ hplain

/-! ### Elements with a style -/

/-- A content inside an element with a style. -/
def styled (style inner : Text) : Text :=
  Text.ofString "<span style=\"" ++ Escape.quoted style ++ Text.ofString "\">" ++ inner ++
    Text.ofString "</span>"

/-- The start tag of an element with a style. -/
def styleTag (value : List Char) : List Char := "<span style=\"".toList ++ value ++ "\">".toList

/-- The end tag of such an element. -/
def spanEnd : List Char := "</span>".toList

theorem compatible_styled (style inner : Text) :
    (styled style inner).compatible =
      styleTag (Escape.quoted style).compatible ++ (inner.compatible ++ spanEnd) := by
  have hopen : (Text.ofString "<span style=\"").compatible = "<span style=\"".toList := by
    decide
  have hmiddle : (Text.ofString "\">").compatible = "\">".toList := by decide
  have hclose : (Text.ofString "</span>").compatible = spanEnd := by decide
  rw [styled]
  simp only [Text.compatible_append]
  rw [hopen, hmiddle, hclose, List.append_assoc]
  rfl

/-- No line end lies across the borders of the style or of the content. -/
theorem normalizeLines_styled (style inner : Text) :
    normalizeLines (styled style inner).compatible =
      styleTag (normalizeLines (Escape.quoted style).compatible) ++
        (normalizeLines inner.compatible ++ spanEnd) := by
  have hopen : '\r' ∉ "<span style=\"".toList := by decide
  have hmiddle : '\r' ∉ "\">".toList := by decide
  have hclose : normalizeLines spanEnd = spanEnd := by decide
  -- `show`, since unfolding `styleTag` by its equation would compute its literals.
  have htag (value : List Char) : styleTag value = "<span style=\"".toList ++ value ++ "\">".toList := by
    show "<span style=\"".toList ++ value ++ "\">".toList = _
    rfl
  have hquote (rest : List Char) : ("\">".toList ++ rest).head? ≠ some '\n' := by
    simp
  have hend : spanEnd.head? ≠ some '\n' := by decide
  rw [compatible_styled, htag, htag, List.append_assoc, List.append_assoc,
    normalizeLines_append_of_not_mem hopen, normalizeLines_append (.inr (hquote _)),
    normalizeLines_append_of_not_mem hmiddle, normalizeLines_append (.inr hend), hclose]
  simp only [List.append_assoc]

/-- An element with a style is read around its content. -/
theorem reads_quoted {value v : List Char} (hquotes : Xml.Quotes ('"' :: (value ++ ['"'])) v)
    {content : List Char} {nodes : List Markup} (hcontent : Xml.Reads content nodes) :
    Xml.Reads (styleTag value ++ (content ++ spanEnd))
      [.element (.plain "span" [("style", v)]) (pushAll [] nodes)] := by
  let style : Xml.Written := ⟨"style", '"' :: (value ++ ['"']), v⟩
  have hword : isWord "style" = true := by decide
  have hnames : plainNames "span" ["style"] = true := by decide
  have hstyle : ∀ a ∈ [style], a.Reads := by
    intro a ha
    rw [List.mem_singleton.mp ha]
    exact ⟨hword, hquotes⟩
  have hspelled : styleTag value ++ (content ++ spanEnd) =
      '<' :: ("span".toList ++ ([style].flatMap Xml.Written.spelled ++
        '>' :: (content ++ '<' :: '/' :: ("span".toList ++ ['>'])))) := by
    show "<span style=\"".toList ++ value ++ "\">".toList ++ (content ++ "</span>".toList) = _
    simp [style, Xml.Written.spelled]
  rw [hspelled]
  exact Xml.reads_element hstyle hnames hcontent

theorem reads_styled (style : Text) {inner : Text} {nodes : List Markup}
    (hinner : Xml.Reads (normalizeLines inner.compatible) nodes) :
    Xml.Reads (normalizeLines (styled style inner).compatible)
      [.element (.plain "span" [("style", Escape.valueRead style)]) (pushAll [] nodes)] := by
  rw [normalizeLines_styled]
  exact reads_quoted (Escape.quotes_quoted style) hinner

/-- A content inside an element with a style is an element. -/
theorem isElement_styled (style : Text) {inner : Text} {nodes : List Markup}
    (hinner : Xml.Reads (normalizeLines inner.compatible) nodes)
    (hnodes : ∀ m ∈ nodes, m.Inner) : (styled style inner).IsElement := by
  have hknows : Html.knowsInner "span" ["style"] = true := by decide
  have hspan : (Markup.plain "span" [("style", Escape.valueRead style)] (pushAll [] nodes)).Inner :=
    inner_plain hknows (forall_pushAll inner_text (by simp) hnodes)
  have hlast : spanEnd = "</span".toList ++ ['>'] := by decide
  refine ⟨?_, ?_, _, reads_styled style hinner, hspan⟩
  · rw [compatible_styled]
    rfl
  · rw [compatible_styled, hlast, ← List.append_assoc, ← List.append_assoc, List.getLast?_concat]

/-! ### Formulas -/

namespace Latex

theorem tree_eq_wrap {layout : Layout} {source : Text} {m : Markup}
    (h : tree layout source = .ok m) : ∃ body annotation, m = wrap layout (markups layout body) annotation := by
  rw [tree_eq] at h
  split at h
  · cases h
  · split at h
    · cases h
    · cases h
      exact ⟨_, _, rfl⟩

/-- The markup of a formula that can be set is an element. -/
theorem isElement_typesetter {layout : Layout} {source markup : Text}
    (h : typesetter source layout = .ok markup) : markup.IsElement := by
  unfold typesetter typeset at h
  cases htree : tree layout source with
  | error fault => simp [htree, Except.map, Except.mapError] at h
  | ok m =>
    obtain ⟨body, annotation, rfl⟩ := tree_eq_wrap htree
    have hmarkup : Text.ofChars (Xml.write (wrap layout (markups layout body) annotation)) = markup := by
      simpa [htree, Except.map, Except.mapError] using h
    rw [← hmarkup]
    exact isElement_write (inner_wrap layout body annotation)

end Latex

namespace Formula

/-- The style of a message. -/
def errorStyle (color : Text) : Text :=
  Text.ofString "color: " ++ color ++ Text.ofString "; font-family: monospace;"

theorem errorFragment_eq (color message : Text) : errorFragment color message none =
    styled (errorStyle color) (Text.ofString "Error: " ++ Escape.text message) := by
  have hopen : Text.ofString "<span style=\"color: " =
      Text.ofString "<span style=\"" ++ Escape.quoted (Text.ofString "color: ") := by decide
  have hclose : Text.ofString "; font-family: monospace;\">Error: " =
      Escape.quoted (Text.ofString "; font-family: monospace;") ++ Text.ofString "\">" ++
        Text.ofString "Error: " := by decide
  have hquoted : Escape.quoted (errorStyle color) = Escape.quoted (Text.ofString "color: ") ++
      Escape.quoted color ++ Escape.quoted (Text.ofString "; font-family: monospace;") := by
    rw [errorStyle, Escape.quoted, Escape.replace_append, Escape.replace_append]
    rfl
  unfold errorFragment
  dsimp only
  rw [hopen, hclose, styled, hquoted]
  simp only [List.append_assoc]

/-- A message is shown after a label. -/
theorem reads_message (message : Text) :
    Xml.Reads (normalizeLines (Text.ofString "Error: " ++ Escape.text message).compatible)
      [.text ("Error: ".toList ++ normalizeLines message.compatible)] := by
  have hlabel : Xml.Reads "Error: ".toList [.text "Error: ".toList] :=
    Xml.reads_text "Error: ".toList
  have hclear : (Text.ofString "Error: ").compatible = "Error: ".toList := by decide
  rw [Text.compatible_append, hclear, normalizeLines_append_of_not_mem (by decide)]
  exact hlabel.append_text (Escape.reads_text message)

/-- The message of a failed formula is an element, whatever its colour is. -/
theorem isElement_errorFragment (color message : Text) : (errorFragment color message none).IsElement := by
  rw [errorFragment_eq]
  exact isElement_styled _ (reads_message message) (by simpa using inner_text _)

/-- The characters of a number are written as they are. -/
theorem quotedReference?_of_numeral {c : Char} (h : Double.isNumeral c = true) :
    Escape.quotedReference? c = none := by
  have hne (d : Char) (hd : Double.isNumeral d = false) : c ≠ d := by
    rintro rfl
    rw [h] at hd
    cases hd
  have hquot := hne '"' (by decide)
  have hsingle := hne '\'' (by decide)
  have hamp := hne '&' (by decide)
  have hlt := hne '<' (by decide)
  have hgt := hne '>' (by decide)
  unfold Escape.quotedReference? Escape.reference?
  split <;> first | contradiction | skip
  split <;> first | contradiction | rfl

section Bundled

variable {r : Renderer} (hr : r.typesetter = Latex.typesetter)

include hr

/-- The markup of a formula is an element, whether the formula can be set or not. -/
theorem isElement_render (layout : Layout) (source : Text) : (render r layout none source).IsElement := by
  unfold render
  rw [hr]
  split
  · rename_i markup hmarkup
    exact Latex.isElement_typesetter hmarkup
  · exact isElement_errorFragment _ _

/-- A formula in a font size is an element, too. -/
theorem isElement_renderSized (size : Option Double) (source : Text) :
    (renderSized r size source).IsElement := by
  have hrender := isElement_render hr .inline source
  unfold renderSized
  cases size with
  | none => exact hrender
  | some x =>
    obtain ⟨m, hreads, hm⟩ := hrender.reads
    have hstyled := isElement_styled (Text.ofString "font-size: " ++ Text.ofChars x.compact ++
      Text.ofString "px !important;") hreads (by simpa using hm)
    dsimp only
    split
    · exact hrender
    · have hnumber : Escape.quoted (Text.ofChars x.compact) = Text.ofChars x.compact :=
        Escape.replace_ofChars fun c hc =>
          quotedReference?_of_numeral (List.all_eq_true.mp (Double.isNumeral_compact x) c hc)
      have hopen : Text.ofString "<span style=\"font-size: " =
          Text.ofString "<span style=\"" ++ Escape.quoted (Text.ofString "font-size: ") := by decide
      have hclose : Text.ofString "px !important;\">" =
          Escape.quoted (Text.ofString "px !important;") ++ Text.ofString "\">" := by decide
      rw [styled, Escape.quoted, Escape.replace_append, Escape.replace_append] at hstyled
      rw [hopen, hclose, ← hnumber]
      simpa only [List.append_assoc, Escape.quoted] using hstyled

theorem isElement_renderSegment {segment : Segment} (h : segment.isLiteral = false) :
    (renderSegment r segment).IsElement := by
  cases segment with
  | literal t => cases h
  | inline source => exact isElement_render hr .inline source
  | block source => exact isElement_render hr .display source

/-- No line end lies across the seam between two segments that stand apart. -/
theorem seam_renderSegment {segment : Segment} {rest : List Segment}
    (h : (segment :: rest).IsChain Segment.Apart) :
    (renderSegment r segment).compatible.getLast? ≠ some '\r' ∨
      (Text.compatible (rest.flatMap (renderSegment r))).head? ≠ some '\n' := by
  cases hliteral : segment.isLiteral with
  | false =>
    left
    rw [(isElement_renderSegment hr hliteral).last]
    decide
  | true =>
    right
    cases rest with
    | nil => simp
    | cons next rest =>
      have hnext : next.isLiteral = false := by
        rcases h.rel with h | h
        · rw [hliteral] at h
          cases h
        · exact h
      rw [List.flatMap_cons, Text.compatible_append, List.head?_append,
        (isElement_renderSegment hr hnext).first]
      simp

/-- Segments that stand apart are well-formed content, one after the other. -/
theorem reads_segments {segments : List Segment} (h : segments.IsChain Segment.Apart) :
    ∃ nodes, Xml.Reads (normalizeLines
        (Text.compatible (segments.flatMap (renderSegment r)))) nodes ∧
      ∀ m ∈ nodes, m.Inner := by
  induction segments with
  | nil => exact ⟨[], Xml.Reads.nil, by simp⟩
  | cons segment rest ih =>
    obtain ⟨nodes, hrest, hnodes⟩ := ih h.tail
    have hone : ∃ m, Xml.Reads
        (normalizeLines (renderSegment r segment).compatible) [m] ∧ m.Inner := by
      cases hliteral : segment.isLiteral with
      | false => exact (isElement_renderSegment hr hliteral).reads
      | true =>
        cases segment with
        | literal t => exact ⟨_, Escape.reads_text t, inner_text _⟩
        | inline source => cases hliteral
        | block source => cases hliteral
    obtain ⟨m, hreads, hm⟩ := hone
    refine ⟨m :: nodes, ?_, by simpa using ⟨hm, hnodes⟩⟩
    rw [List.flatMap_cons, Text.compatible_append, normalizeLines_append (seam_renderSegment hr h)]
    exact hreads.append hrest

/-- A text with formulas in it is well-formed content of known elements. -/
theorem reads_renderText (t : Text) :
    ∃ nodes, Xml.Reads (normalizeLines (renderText r t).compatible) nodes ∧
      ∀ m ∈ nodes, m.Inner :=
  reads_segments hr (Segment.split_apart t)

end Bundled

end Formula

/-! ### The node of finished markup -/

theorem Markup.inner_wrapped {nodes : List Markup} (h : ∀ m ∈ nodes, m.Inner) :
    (wrapped nodes).Inner := by
  have hspan : (plain "span" [] nodes).Inner := inner_plain (by decide) h
  unfold wrapped
  split
  · exact hspan
  · exact h _ List.mem_cons_self
  · exact hspan

/-- Well-formed content of known elements stands for a node of the vocabulary: it is read as XML. -/
theorem Markup.ofText_of_reads {t : Text} {nodes : List Markup}
    (h : Xml.Reads (normalizeLines t.compatible) nodes) (hnodes : ∀ m ∈ nodes, m.Inner) :
    ∃ m, ofText t = .ok m ∧ m.Inner := by
  have hread : nodesOf t.compatible = .ok (pushAll [] nodes) := by
    rw [nodesOf, Xml.content?_of_reads h]
  refine ⟨wrapped (pushAll [] nodes), by rw [ofText, hread]; rfl, inner_wrapped ?_⟩
  exact forall_pushAll inner_text (by simp) hnodes

end DeltaPreview
