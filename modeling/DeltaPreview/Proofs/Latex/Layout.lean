import DeltaPreview.Proofs.Latex.Concatenation

/-!
# Layouts

A formula is set inline or displayed.  The layout changes where scripts stand and nothing else: one source is
refused in both layouts, with the same message, or set in both, and the trees are the same once limits are read
as scripts beside their base (`typesetter_layouts`).

The elements are built while the formula is parsed, and some of them are looked at again: those of a base, for
whether it takes limits, and all of an argument, for the leaves in it that are meant for another alphabet.  What
is built in one layout becomes what is built in the other one by setting scripts as limits wherever their base
takes them (`withLimits_hom`): neither look sees the difference, since limits have the same bases and the same
leaves as scripts.  So the two runs of the parser go along with each other (`parseAs_display`).
-/

namespace DeltaPreview

/-! ### Trees without their layout -/

namespace Latex

/-- The name of an element of scripts when it stands beside the base. -/
def besideName : String → String
  | "munder" => "msub"
  | "mover" => "msup"
  | "munderover" => "msubsup"
  | name => name

/-- The name of an element of scripts when they are limits. -/
def limitsName : String → String
  | "msub" => "munder"
  | "msup" => "mover"
  | "msubsup" => "munderover"
  | name => name

/-- Whether an attribute of an element tells the layout: those of the formula and of the element around it. -/
def tellsLayout (element name : String) : Bool :=
  (element == "math" && name == "display") || (element == "span" && name == "class")

end Latex

/-- A tag that does not tell the layout. -/
def Tag.withoutLayout (tag : Tag) : Tag :=
  { tag with
    name := Latex.besideName tag.name
    attributes := tag.attributes.filter fun a => !Latex.tellsLayout tag.name a.name }

namespace Markup

mutual

/-- A tree that does not tell the layout: all scripts stand beside their base. -/
def withoutLayout : Markup → Markup
  | element tag children => element tag.withoutLayout (allWithoutLayout children)
  | node => node

/-- The same for a sequence of nodes. -/
def allWithoutLayout : List Markup → List Markup
  | [] => []
  | m :: ms => withoutLayout m :: allWithoutLayout ms

end

/-! ### Decisions on elements -/

/-- The tag of an element, with its scripts as limits if its first child takes them. -/
def limitsTag (tag : Tag) (children : List Markup) : Tag :=
  { tag with name := if children.head?.any takesLimits then Latex.limitsName tag.name else tag.name }

mutual

/-- A tree in which scripts are set as limits wherever their base takes them. -/
def withLimits : Markup → Markup
  | element tag children => element (limitsTag tag children) (allWithLimits children)
  | node => node

/-- The same for a sequence of nodes. -/
def allWithLimits : List Markup → List Markup
  | [] => []
  | m :: ms => withLimits m :: allWithLimits ms

end

end Markup

/-! ### Limits do not matter without the layout -/

namespace Latex

theorem besideName_limitsName (name : String) : besideName (limitsName name) = besideName name := by
  unfold limitsName
  split <;> rfl

theorem tellsLayout_limitsName (element name : String) :
    tellsLayout (limitsName element) name = tellsLayout element name := by
  unfold limitsName
  split <;> rfl

end Latex

namespace Markup

theorem withoutLayout_limitsTag (tag : Tag) (children : List Markup) :
    (limitsTag tag children).withoutLayout = tag.withoutLayout := by
  unfold limitsTag Tag.withoutLayout
  split
  · simp only [Latex.besideName_limitsName, Latex.tellsLayout_limitsName]
  · rfl

mutual

theorem withoutLayout_withLimits (m : Markup) : m.withLimits.withoutLayout = m.withoutLayout := by
  match m with
  | element tag children =>
    rw [withLimits, withoutLayout, withoutLayout, withoutLayout_limitsTag,
      allWithoutLayout_allWithLimits children]
  | text _ | comment _ | instruction _ _ => rfl

theorem allWithoutLayout_allWithLimits (ms : List Markup) :
    allWithoutLayout (allWithLimits ms) = allWithoutLayout ms := by
  match ms with
  | [] => rfl
  | m :: ms =>
    rw [allWithLimits, allWithoutLayout, allWithoutLayout, withoutLayout_withLimits m,
      allWithoutLayout_allWithLimits ms]

end

end Markup

/-! ### What is looked at stays the same -/

namespace Markup

/-- Only scripts have another name as limits. -/
theorem limitsName_cases (name : String) :
    Latex.limitsName name = name ∨
      name ∈ ["msub", "msup", "msubsup"] ∧ Latex.limitsName name ∈ ["munder", "mover", "munderover"] := by
  unfold Latex.limitsName
  split <;> simp

theorem limitsTag_name (tag : Tag) (children : List Markup) :
    (limitsTag tag children).name = tag.name ∨
      tag.name ∈ ["msub", "msup", "msubsup"] ∧
        (limitsTag tag children).name ∈ ["munder", "mover", "munderover"] := by
  unfold limitsTag
  split
  · exact limitsName_cases tag.name
  · exact .inl rfl

theorem takesLimits_of_name {tag other : Tag} (h : tag.name = other.name) (children : List Markup) :
    (element tag children).takesLimits = (element other children).takesLimits := by
  cases children with
  | nil => rfl
  | cons child children => cases child <;> cases children <;> simp [takesLimits, h]

/-- Whether an element takes limits is the same after limits have been set in it. -/
theorem takesLimits_withLimits (m : Markup) : m.withLimits.takesLimits = m.takesLimits := by
  match m with
  | text _ | comment _ | instruction _ _ => rfl
  | element tag children =>
    rcases limitsTag_name tag children with hname | ⟨hscripts, hlimits⟩
    · rw [withLimits, takesLimits_of_name hname]
      cases children with
      | nil => rfl
      | cons child children => cases child <;> cases children <;> rfl
    · rw [takesLimits_element, withLimits, takesLimits_element] <;> rintro h <;>
        simp [h] at hscripts hlimits

theorem isLeaf_limitsTag (tag : Tag) (children : List Markup) :
    isLeaf (limitsTag tag children) = isLeaf tag := by
  rcases limitsTag_name tag children with hname | ⟨hscripts, hlimits⟩
  · rw [isLeaf, hname, isLeaf]
  · simp only [List.mem_cons, List.not_mem_nil, or_false] at hscripts hlimits
    rcases hscripts with h | h | h <;> rcases hlimits with h' | h' | h' <;>
      simp [isLeaf, h, h']

/-- Whether an element takes limits is the same in all alphabets. -/
theorem takesLimits_withVariant (v : Latex.Variant) (m : Markup) :
    (m.withVariant v).takesLimits = m.takesLimits := by
  match m with
  | text _ | comment _ | instruction _ _ => rfl
  | element tag children =>
    rw [withVariant]
    split
    · have hname : (setAttribute tag "mathvariant" v.name.toList).name = tag.name := rfl
      exact takesLimits_of_name hname children
    · rename_i hleaf
      rw [takesLimits_element, takesLimits_element] <;> rintro h <;> simp [isLeaf, h] at hleaf

theorem limitsTag_allWithVariant (v : Latex.Variant) (tag : Tag) (children : List Markup) :
    limitsTag tag (allWithVariant v children) = limitsTag tag children := by
  cases children with
  | nil => rfl
  | cons child children =>
    rw [limitsTag, limitsTag, allWithVariant, List.head?_cons, List.head?_cons, Option.any_some,
      Option.any_some, takesLimits_withVariant]

mutual

/-- Setting limits and setting leaves in another alphabet do not see each other. -/
theorem withVariant_withLimits (v : Latex.Variant) (m : Markup) :
    m.withLimits.withVariant v = (m.withVariant v).withLimits := by
  match m with
  | text _ | comment _ | instruction _ _ => rfl
  | element tag children =>
    rw [withLimits, withVariant, withVariant, isLeaf_limitsTag]
    split
    · rfl
    · rw [withLimits, limitsTag_allWithVariant, allWithVariant_allWithLimits v children]

theorem allWithVariant_allWithLimits (v : Latex.Variant) (ms : List Markup) :
    allWithVariant v (allWithLimits ms) = allWithLimits (allWithVariant v ms) := by
  match ms with
  | [] => rfl
  | m :: ms =>
    rw [allWithLimits, allWithVariant, allWithVariant, allWithLimits, withVariant_withLimits v m,
      allWithVariant_allWithLimits v ms]

end

end Markup

/-! ### Building in the two layouts -/

namespace Latex

theorem withLimits_leaf (l : Leaf) : l.markup.withLimits = l.markup := by
  obtain ⟨kind, text, role, variant⟩ := l
  cases kind <;> rfl

theorem allWithLimits_eq_map (ms : List Markup) :
    Markup.allWithLimits ms = ms.map Markup.withLimits := by
  induction ms with
  | nil => rfl
  | cons m ms ih => rw [Markup.allWithLimits, ih, List.map_cons]

/-- An element whose name is not that of scripts keeps it. -/
theorem withLimits_plain {name : String} (h : limitsName name = name)
    (attributes : List (String × List Char)) (children : List Markup) :
    (Markup.plain name attributes children).withLimits =
      .plain name attributes (children.map Markup.withLimits) := by
  have htag : Markup.limitsTag (Tag.plain name attributes) children = Tag.plain name attributes := by
    simp [Markup.limitsTag, Tag.plain, h]
  rw [Markup.plain, Markup.withLimits, htag, allWithLimits_eq_map]
  rfl

theorem withLimits_single (ms : List Markup) :
    (Markup.single ms).withLimits = .single (ms.map Markup.withLimits) := by
  match ms with
  | [] => rfl
  | [m] => rfl
  | m :: n :: ms => exact withLimits_plain rfl [] (m :: n :: ms)

/-- A base takes limits in the display layout if its elements in the other layout would. -/
theorem setsLimits_display (base : List Markup) :
    setsLimits .display (base.map Markup.withLimits) = (Markup.single base).takesLimits := by
  match base with
  | [] => rfl
  | [m] => exact Markup.takesLimits_withLimits m
  | m :: n :: ms => exact (Markup.takesLimits_plain (by decide) (by decide) [] (m :: n :: ms)).symm

/-- Scripts become limits if their base takes them. -/
theorem withLimits_scripts (name : String) (base : List Markup) (scripts : List Markup) :
    (Markup.plain name [] (.single base :: scripts)).withLimits =
      .plain (if setsLimits .display (base.map Markup.withLimits) then limitsName name else name) []
        (.single (base.map Markup.withLimits) :: scripts.map Markup.withLimits) := by
  have hhead : (Markup.single base :: scripts).head?.any Markup.takesLimits =
      setsLimits .display (base.map Markup.withLimits) := (setsLimits_display base).symm
  rw [Markup.plain, Markup.withLimits, Markup.limitsTag, hhead, allWithLimits_eq_map, List.map_cons,
    withLimits_single]
  rfl

theorem setsLimits_inline (base : List Markup) : setsLimits .inline base = false := by
  cases base <;> rfl

theorem attachIn_display (base : List Markup) (scripts : Scripts Markup) :
    (attachIn .inline base scripts).map Markup.withLimits =
      attachIn .display (base.map Markup.withLimits) (scripts.map Markup.withLimits) := by
  obtain ⟨_ | lower, _ | upper⟩ := scripts
  · rfl
  all_goals
    simp only [attachIn, Scripts.map, Option.map_some, Option.map_none, setsLimits_inline,
      Bool.false_eq_true, if_false, withLimits_scripts, List.map_cons, List.map_nil,
      withLimits_single]
    rfl

theorem withLimits_fraction (line : Bool) (numerator denominator : List Markup) :
    (fractionElement line numerator denominator).withLimits =
      fractionElement line (numerator.map Markup.withLimits) (denominator.map Markup.withLimits) := by
  rw [fractionElement, withLimits_plain rfl, List.map_cons, List.map_singleton, withLimits_single,
    withLimits_single, fractionElement]

theorem withLimits_radical (index : Option (List Markup)) (base : List Markup) :
    (radicalElement index base).withLimits =
      radicalElement (index.map (List.map Markup.withLimits)) (base.map Markup.withLimits) := by
  match index with
  | none | some [] => exact withLimits_plain rfl [] base
  | some (i :: is) =>
    rw [radicalElement, withLimits_plain rfl, List.map_cons, List.map_singleton, withLimits_single,
      withLimits_single]
    rfl

theorem withLimits_accent (base : List Markup) (mark : Char) :
    (accentElement base mark).withLimits = accentElement (base.map Markup.withLimits) mark := by
  rw [accentElement, withLimits_plain rfl, List.map_cons, List.map_singleton, withLimits_single,
    withLimits_leaf, accentElement]

theorem withLimits_fenced (left : List Char) (content : List Markup) (right : List Char) :
    (fencedElement left content right).withLimits =
      fencedElement left (content.map Markup.withLimits) right := by
  have hfence (text : List Char) : (fenceElement text).map Markup.withLimits = fenceElement text := by
    cases text <;> rfl
  rw [fencedElement, withLimits_plain rfl, List.map_append, List.map_append, hfence, hfence,
    fencedElement]

theorem withLimits_table (leftAligned : Bool) (rows : List (List (List Markup))) :
    (tableElement leftAligned rows).withLimits =
      tableElement leftAligned (rows.map (List.map (List.map Markup.withLimits))) := by
  have hrow (cells : List (List Markup)) :
      (Markup.plain "mtr" [] (cells.map (.plain "mtd" []))).withLimits =
        .plain "mtr" [] ((cells.map (List.map Markup.withLimits)).map (.plain "mtd" [])) := by
    rw [withLimits_plain rfl, List.map_map, List.map_map]
    exact congrArg _ (List.map_congr_left fun cell _ => withLimits_plain rfl [] cell)
  rw [tableElement, tableElement, withLimits_plain rfl, List.map_map, List.map_map]
  exact congrArg _ (List.map_congr_left fun cells _ => hrow cells)

theorem allWithVariant_map (v : Variant) (ms : List Markup) :
    (Markup.allWithVariant v ms).map Markup.withLimits =
      Markup.allWithVariant v (ms.map Markup.withLimits) := by
  rw [← allWithLimits_eq_map, ← allWithLimits_eq_map, Markup.allWithVariant_allWithLimits]

/-- Setting limits goes along with building the elements of the two layouts. -/
theorem withLimits_hom :
    Builder.Hom (α := Element .inline) (β := Element .display) Markup.withLimits where
  leaf := withLimits_leaf
  space _ := rfl
  newline := rfl
  row := withLimits_plain rfl []
  fraction := withLimits_fraction
  radical := withLimits_radical
  accent := withLimits_accent
  attach := attachIn_display
  fenced := withLimits_fenced
  table := withLimits_table
  withVariants := allWithVariant_map

/-- The two runs of the parser go along with each other. -/
theorem parseAs_display (ts : List Token) :
    parseAs (Element .display) ts = (parseAs (Element .inline) ts).map (List.map Markup.withLimits) :=
  parseAs_map withLimits_hom ts

/-! ### Sources in the two layouts -/

/-- The trees of a formula in the two layouts are the same without the layout. -/
theorem wrap_withoutLayout (body : List Markup) (source : List Char) :
    (wrap .display (Markup.allWithLimits body) source).withoutLayout =
      (wrap .inline body source).withoutLayout := by
  simp only [wrap, Markup.plain, Markup.withoutLayout, Markup.allWithoutLayout,
    Markup.allWithoutLayout_allWithLimits]
  rfl

/-- A source is refused in both layouts, or set in both with the same elements but for limits. -/
theorem tree_cases (source : Text) :
    (∃ fault, ∀ layout, tree layout source = .error fault) ∨
      ∃ body annotation, tree .inline source = .ok (wrap .inline body annotation) ∧
        tree .display source = .ok (wrap .display (Markup.allWithLimits body) annotation) := by
  have hdisplay := parseAs_display (tokenize source.trim)
  cases hparse : parseAs (Element .inline) (tokenize source.trim) with
  | error fault =>
    rw [hparse] at hdisplay
    refine .inl ⟨fault, fun layout => ?_⟩
    cases layout
    · rw [tree, hparse]
    · rw [tree, hdisplay]
      rfl
  | ok body =>
    rw [hparse] at hdisplay
    cases htext : source.trim.toMarkup with
    | error refusal =>
      refine .inl ⟨.refused refusal, fun layout => ?_⟩
      cases layout
      · rw [tree, hparse, htext]
      · rw [tree, hdisplay, htext]
        rfl
    | ok annotation =>
      refine .inr ⟨Element.nodes body, annotation, ?_, ?_⟩
      · rw [tree, hparse, htext]
      · rw [tree, hdisplay, htext, allWithLimits_eq_map]
        rfl

theorem typesetter_of_tree {layout : Layout} {source : Text} {m : Markup}
    (h : tree layout source = .ok m) :
    typesetter source layout = .ok (Text.ofChars (Xml.write m)) := by
  rw [typesetter, typeset, h]
  rfl

theorem typesetter_of_fault {layout : Layout} {source : Text} {fault : Fault}
    (h : tree layout source = .error fault) :
    typesetter source layout = .error ⟨fault.kind, fault.message⟩ := by
  rw [typesetter, typeset, h]
  rfl

/-- The layout of a formula changes neither whether it can be set, nor what is reported if it cannot, nor
anything in its tree but where scripts stand: the trees are the same without the layout, and the body in the
display layout is the one in the other layout with limits. -/
theorem typesetter_layouts (source : Text) :
    (∃ failure, typesetter source .inline = .error failure ∧
      typesetter source .display = .error failure) ∨
    ∃ m n, tree .inline source = .ok m ∧ tree .display source = .ok n ∧
      typesetter source .inline = .ok (Text.ofChars (Xml.write m)) ∧
      typesetter source .display = .ok (Text.ofChars (Xml.write n)) ∧
      m.withoutLayout = n.withoutLayout ∧
      body? n = (body? m).map Markup.allWithLimits := by
  rcases tree_cases source with ⟨fault, hfault⟩ | ⟨body, annotation, hinline, hdisplay⟩
  · exact .inl ⟨_, typesetter_of_fault (hfault .inline), typesetter_of_fault (hfault .display)⟩
  · refine .inr ⟨_, _, hinline, hdisplay, typesetter_of_tree hinline, typesetter_of_tree hdisplay,
      (wrap_withoutLayout body annotation).symm, ?_⟩
    rw [body?_wrap, body?_wrap, Option.map_some]

end Latex

end DeltaPreview
