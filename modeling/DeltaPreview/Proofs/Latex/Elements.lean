import DeltaPreview.Latex.Typeset
import DeltaPreview.Proofs.Latex.Math
import DeltaPreview.Proofs.Latex.Parametric

/-!
# The elements of a formula

What a formula looks like in a layout can be read off its structure (`Math.markup`).  That is the map from structures
to elements that goes along with building (`markup_hom`), so parsing for the elements of a layout is parsing for the
structure and then reading the elements off (`parseAs_element`), and the tree of a source is made of its formulas
(`tree_eq`).

Two steps of the parser look at elements that are built already.  Both look at leaves only, and a leaf is seen in its
element: whether a base takes limits (`takesLimits_markup`), and where another alphabet goes (`markup_withVariant`).
-/

namespace DeltaPreview

namespace Markup

/-- Only an operator or an identifier takes limits. -/
theorem takesLimits_element {tag : Tag} (hoperator : tag.name ≠ "mo") (hidentifier : tag.name ≠ "mi")
    (children : List Markup) : (element tag children).takesLimits = false := by
  unfold takesLimits
  split
  · rename_i heq
    cases heq
    simp [hoperator, hidentifier]
  · rfl

theorem takesLimits_plain {name : String} (hoperator : name ≠ "mo") (hidentifier : name ≠ "mi")
    (attributes : List (String × List Char)) (children : List Markup) :
    (plain name attributes children).takesLimits = false :=
  takesLimits_element hoperator hidentifier children

end Markup

namespace Latex

/-! ### Reading elements off -/

/-- Whether a leaf is an operator or a function that takes limits. -/
def Leaf.takesLimits (l : Leaf) : Bool :=
  match l.kind with
  | .operator => limitOperators.any fun c => l.text == [c]
  | .identifier => limitFunctions.any fun name => l.text == name.toList
  | _ => false

/-- Whether scripts of a base are set as limits. -/
def takesLimits (layout : Layout) (base : Math) : Bool :=
  match layout, base with
  | .display, .leaf l => l.takesLimits
  | _, _ => false

mutual

/-- The element of a formula. -/
def Math.markup (layout : Layout) : Math → Markup
  | .leaf l => l.markup
  | .space width => .plain "mspace" [("width", width.toList)] []
  | .newline => .plain "mspace" [("linebreak", "newline".toList)] []
  | .row children => .plain "mrow" [] (markups layout children)
  | .fraction line numerator denominator =>
    .plain "mfrac" (if line then [] else [("linethickness", "0".toList)])
      [numerator.markup layout, denominator.markup layout]
  | .sqrt children => .plain "msqrt" [] (markups layout children)
  | .root base index => .plain "mroot" [] [base.markup layout, index.markup layout]
  | .accent base mark => .plain "mover" [("accent", "true".toList)]
      [base.markup layout, mark.markup]
  | .sub base lower =>
    .plain (if takesLimits layout base then "munder" else "msub") []
      [base.markup layout, lower.markup layout]
  | .sup base upper =>
    .plain (if takesLimits layout base then "mover" else "msup") []
      [base.markup layout, upper.markup layout]
  | .subsup base lower upper =>
    .plain (if takesLimits layout base then "munderover" else "msubsup") []
      [base.markup layout, lower.markup layout, upper.markup layout]
  | .table leftAligned rows =>
    .plain "mtable" (if leftAligned then [("columnalign", "left".toList)] else [])
      (rowMarkups layout rows)

/-- The elements of a sequence of formulas. -/
def markups (layout : Layout) : List Math → List Markup
  | [] => []
  | m :: ms => m.markup layout :: markups layout ms

/-- The elements of the cells of a table row. -/
def cellMarkups (layout : Layout) : List (List Math) → List Markup
  | [] => []
  | cell :: cells => .plain "mtd" [] (markups layout cell) :: cellMarkups layout cells

/-- The elements of the rows of a table. -/
def rowMarkups (layout : Layout) : List (List (List Math)) → List Markup
  | [] => []
  | cells :: rows => .plain "mtr" [] (cellMarkups layout cells) :: rowMarkups layout rows

end

theorem markups_eq_map (layout : Layout) (ms : List Math) :
    markups layout ms = ms.map (Math.markup layout) := by
  induction ms with
  | nil => rfl
  | cons m ms ih => rw [markups, ih, List.map_cons]

theorem cellMarkups_eq_map (layout : Layout) (cells : List (List Math)) :
    cellMarkups layout cells = (cells.map (markups layout)).map (.plain "mtd" []) := by
  induction cells with
  | nil => rfl
  | cons cell cells ih => rw [cellMarkups, ih, List.map_cons, List.map_cons]

theorem rowMarkups_eq_map (layout : Layout) (rows : List (List (List Math))) :
    rowMarkups layout rows = (rows.map (List.map (markups layout))).map fun cells =>
      .plain "mtr" [] (cells.map (.plain "mtd" [])) := by
  induction rows with
  | nil => rfl
  | cons cells rows ih => rw [rowMarkups, ih, cellMarkups_eq_map, List.map_cons, List.map_cons]

theorem markups_append (layout : Layout) (ms ns : List Math) :
    markups layout (ms ++ ns) = markups layout ms ++ markups layout ns := by
  simp only [markups_eq_map, List.map_append]

/-! ### Limits -/

theorem takesLimits_leaf (l : Leaf) : l.markup.takesLimits = l.takesLimits := by
  obtain ⟨kind, text, role, variant⟩ := l
  cases kind <;> simp [Leaf.markup, Markup.plain, Markup.takesLimits, Leaf.takesLimits, Tag.plain,
    LeafKind.tagName]

/-- Whether a formula takes limits can be seen in its element, in both layouts. -/
theorem takesLimits_markup (layout : Layout) (m : Math) :
    (m.markup layout).takesLimits = takesLimits .display m := by
  cases m with
  | leaf l => exact takesLimits_leaf l
  | sub | sup | subsup =>
    rw [Math.markup]
    split <;> exact Markup.takesLimits_plain (by decide) (by decide) _ _
  | _ => exact Markup.takesLimits_plain (by decide) (by decide) _ _

/-! ### Alphabets -/

theorem setAttribute_leaf (v : Variant) (l : Leaf) :
    Markup.setAttribute
        (.plain l.kind.tagName (l.role.attributes ++ Variant.attributes l.variant)) "mathvariant"
        v.name.toList =
      .plain l.kind.tagName (l.role.attributes ++ Variant.attributes (some v)) := by
  obtain ⟨kind, text, role, variant⟩ := l
  cases role <;> cases variant <;> rfl

theorem withVariant_leaf (v : Variant) (l : Leaf) :
    l.markup.withVariant v = (l.withVariant v).markup := by
  have hleaf : Markup.isLeaf
      (.plain l.kind.tagName (l.role.attributes ++ Variant.attributes l.variant)) = true := by
    cases hkind : l.kind <;> rfl
  rw [Leaf.markup, Markup.plain, Markup.withVariant, if_pos hleaf, setAttribute_leaf]
  rfl

theorem withVariant_plain {name : String} (h : Markup.isLeaf (.plain name []) = false) (v : Variant)
    (attributes : List (String × List Char)) (children : List Markup) :
    (Markup.plain name attributes children).withVariant v =
      .plain name attributes (Markup.allWithVariant v children) := by
  have hother : Markup.isLeaf (.plain name attributes) = false := h
  rw [Markup.plain, Markup.withVariant, if_neg (Bool.eq_false_iff.mp hother)]
  rfl

theorem takesLimits_withVariant (layout : Layout) (v : Variant) (base : Math) :
    takesLimits layout (base.withVariant v) = takesLimits layout base := by
  cases layout <;> cases base <;> rfl

mutual

/-- Setting a formula in another alphabet is setting its elements in it, in either layout. -/
theorem markup_withVariant (layout : Layout) (v : Variant) (m : Math) :
    (m.withVariant v).markup layout = (m.markup layout).withVariant v := by
  match m with
  | .leaf l => exact (withVariant_leaf v l).symm
  | .space _ => rfl
  | .newline => rfl
  | .row children =>
    rw [Math.withVariant, Math.markup, Math.markup, withVariant_plain rfl,
      markups_withVariants layout v children]
  | .fraction line numerator denominator =>
    rw [Math.withVariant, Math.markup, Math.markup, withVariant_plain rfl,
      markup_withVariant layout v numerator, markup_withVariant layout v denominator]
    rfl
  | .sqrt children =>
    rw [Math.withVariant, Math.markup, Math.markup, withVariant_plain rfl,
      markups_withVariants layout v children]
  | .root base index =>
    rw [Math.withVariant, Math.markup, Math.markup, withVariant_plain rfl,
      markup_withVariant layout v base, markup_withVariant layout v index]
    rfl
  | .accent base mark =>
    rw [Math.withVariant, Math.markup, Math.markup, withVariant_plain rfl,
      markup_withVariant layout v base, ← withVariant_leaf]
    rfl
  | .sub base lower =>
    have hname : Markup.isLeaf (.plain (if takesLimits layout base then "munder" else "msub") []) =
        false := by
      split <;> rfl
    rw [Math.withVariant, Math.markup, Math.markup, withVariant_plain hname,
      takesLimits_withVariant, markup_withVariant layout v base, markup_withVariant layout v lower]
    rfl
  | .sup base upper =>
    have hname : Markup.isLeaf (.plain (if takesLimits layout base then "mover" else "msup") []) =
        false := by
      split <;> rfl
    rw [Math.withVariant, Math.markup, Math.markup, withVariant_plain hname,
      takesLimits_withVariant, markup_withVariant layout v base, markup_withVariant layout v upper]
    rfl
  | .subsup base lower upper =>
    have hname : Markup.isLeaf
        (.plain (if takesLimits layout base then "munderover" else "msubsup") []) = false := by
      split <;> rfl
    rw [Math.withVariant, Math.markup, Math.markup, withVariant_plain hname,
      takesLimits_withVariant, markup_withVariant layout v base, markup_withVariant layout v lower,
      markup_withVariant layout v upper]
    rfl
  | .table leftAligned rows =>
    rw [Math.withVariant, Math.markup, Math.markup, withVariant_plain rfl,
      rowMarkups_withVariant layout v rows]

theorem markups_withVariants (layout : Layout) (v : Variant) (ms : List Math) :
    markups layout (Math.withVariants v ms) = Markup.allWithVariant v (markups layout ms) := by
  match ms with
  | [] => rfl
  | m :: ms =>
    rw [Math.withVariants, markups, markups, Markup.allWithVariant, markup_withVariant layout v m,
      markups_withVariants layout v ms]

theorem cellMarkups_withVariant (layout : Layout) (v : Variant) (cells : List (List Math)) :
    cellMarkups layout (Math.withVariantCells v cells) =
      Markup.allWithVariant v (cellMarkups layout cells) := by
  match cells with
  | [] => rfl
  | cell :: cells =>
    rw [Math.withVariantCells, cellMarkups, cellMarkups, Markup.allWithVariant, withVariant_plain rfl,
      markups_withVariants layout v cell, cellMarkups_withVariant layout v cells]

theorem rowMarkups_withVariant (layout : Layout) (v : Variant) (rows : List (List (List Math))) :
    rowMarkups layout (Math.withVariantRows v rows) =
      Markup.allWithVariant v (rowMarkups layout rows) := by
  match rows with
  | [] => rfl
  | cells :: rows =>
    rw [Math.withVariantRows, rowMarkups, rowMarkups, Markup.allWithVariant, withVariant_plain rfl,
      cellMarkups_withVariant layout v cells, rowMarkups_withVariant layout v rows]

end

/-! ### Building and reading off -/

theorem markup_single (layout : Layout) (ms : List Math) :
    (Math.single ms).markup layout = .single (markups layout ms) := by
  match ms with
  | [] => rfl
  | [m] => rfl
  | m :: n :: ms => rfl

theorem markups_fence (layout : Layout) (text : List Char) :
    markups layout (Math.fence text) = fenceElement text := by
  cases text <;> rfl

theorem markup_radical (layout : Layout) (index : Option (List Math)) (base : List Math) :
    (Math.radical index base).markup layout =
      radicalElement (index.map (markups layout)) (markups layout base) := by
  match index with
  | none | some [] => rfl
  | some (i :: is) =>
    rw [Math.radical, Math.markup, markup_single, markup_single]
    rfl

theorem takesLimits_inline (base : Math) : takesLimits .inline base = false := by
  cases base <;> rfl

/-- Scripts of a formula are set as limits if its elements take them. -/
theorem setsLimits_markups (layout : Layout) (base : List Math) :
    setsLimits layout (markups layout base) = takesLimits layout (Math.single base) := by
  cases layout with
  | inline => exact (takesLimits_inline _).symm
  | display =>
    match base with
    | [] => rfl
    | [m] => exact takesLimits_markup .display m
    | m :: n :: ms => rfl

theorem markups_attach (layout : Layout) (base : List Math) (scripts : Scripts Math) :
    markups layout (scripts.attach base) =
      attachIn layout (markups layout base) ⟨scripts.lower.map (markups layout),
        scripts.upper.map (markups layout)⟩ := by
  obtain ⟨_ | lower, _ | upper⟩ := scripts
  · rfl
  all_goals simp only [Scripts.attach, attachIn, markups, Math.markup, markup_single,
    setsLimits_markups, Option.map_some, Option.map_none]

/-- Reading the elements of a formula off goes along with building it. -/
theorem markup_hom (layout : Layout) :
    Builder.Hom (α := Math) (β := Element layout) (Math.markup layout) where
  leaf _ := rfl
  space _ := rfl
  newline := rfl
  row parts := congrArg (Markup.plain "mrow" []) (markups_eq_map layout parts)
  fraction line numerator denominator := by
    rw [build_fraction, Math.markup, markup_single, markup_single, markups_eq_map, markups_eq_map]
    rfl
  radical index base := by
    rw [build_radical, markup_radical, funext (markups_eq_map layout)]
    rfl
  accent base mark := by
    rw [build_accent, Math.markup, markup_single, markups_eq_map]
    rfl
  attach base scripts := by
    have hscripts : (⟨scripts.lower.map (markups layout), scripts.upper.map (markups layout)⟩ :
        Scripts Markup) = scripts.map (Math.markup layout) := by
      rw [funext (markups_eq_map layout)]
      rfl
    have hattach := markups_attach layout base scripts
    rw [hscripts, markups_eq_map, markups_eq_map] at hattach
    exact hattach
  fenced left content right := by
    rw [build_fenced, Math.fenced, Math.markup, markups_append, markups_append, markups_fence,
      markups_fence, markups_eq_map]
    rfl
  table leftAligned rows := by
    rw [build_table, Math.markup, rowMarkups_eq_map, funext (markups_eq_map layout)]
    rfl
  withVariants v parts := by
    have hvariants := markups_withVariants layout v parts
    rw [markups_eq_map, markups_eq_map] at hvariants
    exact hvariants

/-- Parsing for the elements of a layout is parsing for the structure and then reading the elements off. -/
theorem parseAs_element (layout : Layout) (ts : List Token) :
    (parseAs (Element layout) ts).map Element.nodes = (parse ts).map (markups layout) := by
  rw [parseAs_map (markup_hom layout) ts, parse]
  cases parseAs Math ts with
  | error fault => rfl
  | ok ms => exact congrArg Except.ok (markups_eq_map layout ms).symm

/-- The tree of a source is made of its formulas. -/
theorem tree_eq (layout : Layout) (source : Text) :
    tree layout source =
      match parse (tokenize source.trim) with
      | .error fault => .error fault
      | .ok body =>
        match source.trim.toMarkup with
        | .error refusal => .error (.refused refusal)
        | .ok annotation => .ok (wrap layout (markups layout body) annotation) := by
  have hparse := parseAs_element layout (tokenize source.trim)
  unfold tree
  cases hbody : parseAs (Element layout) (tokenize source.trim) <;>
    cases hms : parse (tokenize source.trim) <;> rw [hbody, hms] at hparse <;> cases hparse
  · rfl
  · rfl

end Latex

end DeltaPreview
