import DeltaPreview.Proofs.Latex.Nesting
import DeltaPreview.Proofs.Markup.Tree
import DeltaPreview.Proofs.Text.Trim

/-!
# The shape of presentation markup

The children that an element of presentation markup must have depend on its name (`childShapes`): a fraction
has two of them, a table has rows only, a leaf has none.  The tree of every formula source that is set has
these shapes (`tree_shaped`), whatever is missing or empty in the source, since a builder that needs one child
takes a sequence as one (`Math.single`).

An element with a base and both scripts has three children, and which of them is which is a matter of the
source, where either script may come first.  `Subsup` says which tokens of the source they stand for.
-/

namespace DeltaPreview.Latex

/-! ### Bases with both scripts -/

/-- Tokens that are both scripts of a base, in one order or the other. -/
inductive BothScripts (lower upper : List Math) : List Token → List Token → Prop
  | subscriptFirst {ts after rest : List Token}
      (hlower : (Phrase.argument lower).Takes ts (.superscript :: after))
      (hupper : (Phrase.argument upper).Takes after rest) :
      BothScripts lower upper (.subscript :: ts) rest
  | superscriptFirst {ts after rest : List Token}
      (hupper : (Phrase.argument upper).Takes ts (.subscript :: after))
      (hlower : (Phrase.argument lower).Takes after rest) :
      BothScripts lower upper (.superscript :: ts) rest

/-- A base, a subscript and a superscript that stand together in a source, possibly in another alphabet. -/
inductive Subsup (source : List Token) : Math → Math → Math → Prop
  | element {t : Token} {ts after rest : List Token} {base lower upper : List Math}
      (hsource : t :: ts <:+ source) (hbase : (Phrase.element t base).Takes ts after)
      (hscripts : BothScripts lower upper after rest) :
      Subsup source (.single base) (.single lower) (.single upper)
  /-- Scripts without a base. -/
  | bare {ts rest : List Token} {lower upper : List Math} (hsource : ts <:+ source)
      (hscripts : BothScripts lower upper ts rest) :
      Subsup source (.single []) (.single lower) (.single upper)
  | font {base lower upper : Math} (v : Variant) (h : Subsup source base lower upper) :
      Subsup source (base.withVariant v) (lower.withVariant v) (upper.withVariant v)

mutual

/-- A relation holds between every base in a formula that has both scripts, and the scripts. -/
def Math.Scripted (p : Math → Math → Math → Prop) : Math → Prop
  | .leaf _ => True
  | .space _ => True
  | .newline => True
  | .row children => AllScripted p children
  | .fraction _ numerator denominator => numerator.Scripted p ∧ denominator.Scripted p
  | .sqrt children => AllScripted p children
  | .root base index => base.Scripted p ∧ index.Scripted p
  | .accent base _ => base.Scripted p
  | .sub base lower => base.Scripted p ∧ lower.Scripted p
  | .sup base upper => base.Scripted p ∧ upper.Scripted p
  | .subsup base lower upper =>
    p base lower upper ∧ base.Scripted p ∧ lower.Scripted p ∧ upper.Scripted p
  | .table _ rows => RowsScripted p rows

/-- The same for a sequence of formulas. -/
def AllScripted (p : Math → Math → Math → Prop) : List Math → Prop
  | [] => True
  | m :: ms => m.Scripted p ∧ AllScripted p ms

/-- The same for the cells of a table row. -/
def CellsScripted (p : Math → Math → Math → Prop) : List (List Math) → Prop
  | [] => True
  | cell :: cells => AllScripted p cell ∧ CellsScripted p cells

/-- The same for the rows of a table. -/
def RowsScripted (p : Math → Math → Math → Prop) : List (List (List Math)) → Prop
  | [] => True
  | cells :: rows => CellsScripted p cells ∧ RowsScripted p rows

end

section Scripted

variable {p : Math → Math → Math → Prop}

theorem allScripted_append {ms ns : List Math} :
    AllScripted p (ms ++ ns) ↔ AllScripted p ms ∧ AllScripted p ns := by
  induction ms with
  | nil => simp [AllScripted]
  | cons m ms ih => simp [AllScripted, ih, and_assoc]

theorem scripted_single {ms : List Math} (h : AllScripted p ms) : (Math.single ms).Scripted p := by
  match ms with
  | [] => exact h
  | [m] => exact h.1
  | m :: n :: ms => exact h

theorem allScripted_fence (text : List Char) : AllScripted p (Math.fence text) := by
  cases text <;> simp [Math.fence, AllScripted, Math.Scripted]

theorem scripted_fenced (left right : List Char) {ms : List Math} (h : AllScripted p ms) :
    (Math.fenced left ms right).Scripted p := by
  rw [Math.fenced, Math.Scripted, allScripted_append, allScripted_append]
  exact ⟨⟨allScripted_fence left, h⟩, allScripted_fence right⟩

theorem scripted_radical {index : Option (List Math)} {base : List Math}
    (hindex : ∀ ms ∈ index, AllScripted p ms) (hbase : AllScripted p base) :
    (Math.radical index base).Scripted p := by
  unfold Math.radical
  split
  · exact ⟨scripted_single hbase, scripted_single (hindex _ rfl)⟩
  · exact hbase

theorem rowsScripted_append {rows more : List (List (List Math))} :
    RowsScripted p (rows ++ more) ↔ RowsScripted p rows ∧ RowsScripted p more := by
  induction rows with
  | nil => simp [RowsScripted]
  | cons cells rows ih => simp [RowsScripted, ih, and_assoc]

theorem rowsScripted_dropEmptyRow {rows : List (List (List Math))} (h : RowsScripted p rows) :
    RowsScripted p (dropEmptyRow rows) := by
  unfold dropEmptyRow
  split
  · rename_i hlast
    rw [← List.dropLast_append_getLast? _ hlast, rowsScripted_append] at h
    exact h.1
  · exact h

theorem scripted_formula (e : Environment) {rows : List (List (List Math))}
    (h : RowsScripted p rows) : (e.formula rows).Scripted p := by
  have htable : (Math.table e.leftAligned (dropEmptyRow rows)).Scripted p :=
    rowsScripted_dropEmptyRow h
  unfold Environment.formula
  simp only
  split
  · exact htable
  · exact scripted_fenced e.left e.right ⟨htable, trivial⟩

theorem rowsScripted_consCell {cell : List Math} {rows : List (List (List Math))}
    (hcell : AllScripted p cell) (hrows : RowsScripted p rows) :
    RowsScripted p (consCell cell rows) := by
  cases rows with
  | nil => exact ⟨⟨hcell, trivial⟩, trivial⟩
  | cons row rows => exact ⟨⟨hcell, hrows.1⟩, hrows.2⟩

/-- A relation that holds in other alphabets, too. -/
def KeepsVariants (p : Math → Math → Math → Prop) : Prop :=
  ∀ (v : Variant) (base lower upper : Math), p base lower upper →
    p (base.withVariant v) (lower.withVariant v) (upper.withVariant v)

mutual

theorem scripted_withVariant (v : Variant) (hp : KeepsVariants p) (m : Math)
    (h : m.Scripted p) : (m.withVariant v).Scripted p := by
  match m with
  | .leaf _ | .space _ | .newline => trivial
  | .row children => exact allScripted_withVariants v hp children h
  | .fraction _ numerator denominator =>
    exact ⟨scripted_withVariant v hp numerator h.1, scripted_withVariant v hp denominator h.2⟩
  | .sqrt children => exact allScripted_withVariants v hp children h
  | .root base index => exact ⟨scripted_withVariant v hp base h.1, scripted_withVariant v hp index h.2⟩
  | .accent base _ => exact scripted_withVariant v hp base h
  | .sub base lower => exact ⟨scripted_withVariant v hp base h.1, scripted_withVariant v hp lower h.2⟩
  | .sup base upper => exact ⟨scripted_withVariant v hp base h.1, scripted_withVariant v hp upper h.2⟩
  | .subsup base lower upper =>
    obtain ⟨hsubsup, hbase, hlower, hupper⟩ := h
    exact ⟨hp v _ _ _ hsubsup, scripted_withVariant v hp base hbase,
      scripted_withVariant v hp lower hlower, scripted_withVariant v hp upper hupper⟩
  | .table _ rows => exact rowsScripted_withVariant v hp rows h

theorem allScripted_withVariants (v : Variant) (hp : KeepsVariants p) (ms : List Math)
    (h : AllScripted p ms) : AllScripted p (Math.withVariants v ms) := by
  match ms with
  | [] => trivial
  | m :: ms => exact ⟨scripted_withVariant v hp m h.1, allScripted_withVariants v hp ms h.2⟩

theorem cellsScripted_withVariant (v : Variant) (hp : KeepsVariants p) (cells : List (List Math))
    (h : CellsScripted p cells) : CellsScripted p (Math.withVariantCells v cells) := by
  match cells with
  | [] => trivial
  | cell :: cells =>
    exact ⟨allScripted_withVariants v hp cell h.1, cellsScripted_withVariant v hp cells h.2⟩

theorem rowsScripted_withVariant (v : Variant) (hp : KeepsVariants p)
    (rows : List (List (List Math))) (h : RowsScripted p rows) :
    RowsScripted p (Math.withVariantRows v rows) := by
  match rows with
  | [] => trivial
  | cells :: rows =>
    exact ⟨cellsScripted_withVariant v hp cells h.1, rowsScripted_withVariant v hp rows h.2⟩

end

end Scripted

/-! ### The scripts of an accepted formula -/

/-- A relation holds between the bases and the scripts inside of some scripts. -/
def Scripts.Scripted (p : Math → Math → Math → Prop) (s : Scripts Math) : Prop :=
  (∀ ms ∈ s.lower, AllScripted p ms) ∧ ∀ ms ∈ s.upper, AllScripted p ms

theorem scripted_none {p : Math → Math → Math → Prop} : Scripts.none.Scripted p :=
  ⟨by rintro _ ⟨⟩, by rintro _ ⟨⟩⟩

theorem scripted_add {p : Math → Math → Math → Prop} (t : Token) {found : Scripts Math} {ms : List Math}
    (hms : AllScripted p ms) (hfound : found.Scripted p) : (found.add t ms).Scripted p := by
  unfold Scripts.add
  split
  · refine ⟨?_, hfound.2⟩
    rintro _ ⟨⟩
    exact hms
  · refine ⟨hfound.1, ?_⟩
    rintro _ ⟨⟩
    exact hms

theorem eq_leaf_of_leafOf {kind : LeafKind} {text : Text} {role : LeafRole} {variant : Option Variant}
    {m : Math} (h : leafOf kind text role variant = .ok m) : ∃ l, m = .leaf l := by
  unfold leafOf at h
  split at h
  · cases h
  · cases h
    exact ⟨_, rfl⟩

theorem allScripted_attach {p : Math → Math → Math → Prop} {base : List Math} {both : Scripts Math}
    (hbase : AllScripted p base) (hboth : both.Scripted p)
    (hsubsup : ∀ lower upper, both = ⟨some lower, some upper⟩ →
      p (.single base) (.single lower) (.single upper)) : AllScripted p (both.attach base) := by
  have hsingle := scripted_single hbase
  obtain ⟨hlower, hupper⟩ := hboth
  match both with
  | ⟨some lower, some upper⟩ =>
    exact ⟨⟨hsubsup lower upper rfl, hsingle, scripted_single (hlower lower rfl),
      scripted_single (hupper upper rfl)⟩, trivial⟩
  | ⟨some lower, none⟩ => exact ⟨⟨hsingle, scripted_single (hlower lower rfl)⟩, trivial⟩
  | ⟨none, some upper⟩ => exact ⟨⟨hsingle, scripted_single (hupper upper rfl)⟩, trivial⟩
  | ⟨none, none⟩ => exact hbase

namespace BothScripts

variable {t : Token} {ts after rest : List Token} {ms lower upper : List Math}

theorem eq_of_scripts_full {found : Scripts Math} (hlower : found.lower = some lower)
    (hupper : found.upper = some upper) {all : Scripts Math} (h : (Phrase.scripts found all).Takes ts rest) :
    all = found ∧ rest = ts := by
  cases h with
  | scriptsEnd => exact ⟨rfl, rfl⟩
  | scriptsMore _ hsingle =>
    unfold Scripts.double? at hsingle
    split at hsingle
    · simp [hlower] at hsingle
    · simp [hupper] at hsingle

/-- Both scripts are found after one of them if the other follows it. -/
theorem of_second (hscript : t.isScript = true) (hargument : (Phrase.argument ms).Takes ts after)
    (hmore : (Phrase.scripts (Scripts.none.add t ms) ⟨some lower, some upper⟩).Takes after rest) :
    BothScripts lower upper (t :: ts) rest := by
  rcases Token.eq_of_isScript hscript with rfl | rfl
  · have hfound : Scripts.none.add .superscript ms = ⟨none, some ms⟩ := rfl
    rw [hfound] at hmore
    cases hmore with
    | @scriptsMore _ _ u _ _ _ ns hother hsingle hlower hrest =>
      rcases Token.eq_of_isScript hother with rfl | rfl
      · cases hsingle
      · obtain ⟨hall, rfl⟩ := eq_of_scripts_full rfl rfl hrest
        cases hall
        exact .superscriptFirst hargument hlower
  · have hfound : Scripts.none.add .subscript ms = ⟨some ms, none⟩ := rfl
    rw [hfound] at hmore
    cases hmore with
    | @scriptsMore _ _ u _ _ _ ns hother hsingle hupper hrest =>
      rcases Token.eq_of_isScript hother with rfl | rfl
      · obtain ⟨hall, rfl⟩ := eq_of_scripts_full rfl rfl hrest
        cases hall
        exact .subscriptFirst hargument hupper
      · cases hsingle

theorem of_scripts
    (h : (Phrase.scripts Scripts.none ⟨some lower, some upper⟩).Takes ts rest) :
    BothScripts lower upper ts rest := by
  cases h with
  | scriptsMore hscript _ hargument hmore => exact of_second hscript hargument hmore

end BothScripts

namespace Phrase

/-- The token before a phrase that belongs to it. -/
def first : Phrase → List Token
  | element t _ => [t]
  | _ => []

/-- A relation holds between the bases and the scripts in what a phrase stands for. -/
def Scripted (p : Math → Math → Math → Prop) : Phrase → Prop
  | sequence _ ms => AllScripted p ms
  | scripts found all => found.Scripted p → all.Scripted p
  | argument ms => AllScripted p ms
  | option ms => ∀ l ∈ ms, AllScripted p l
  | rows _ cells => RowsScripted p cells
  | element _ ms => AllScripted p ms
  | columns _ => True

namespace Takes

theorem suffix {p : Phrase} {ts rest : List Token} (h : p.Takes ts rest) : rest <:+ ts := by
  obtain ⟨used, rfl, -⟩ := takes_balanced h
  exact List.suffix_append used rest

theorem scripted {source : List Token} {p : Phrase} {ts rest : List Token} (h : p.Takes ts rest)
    (hsource : p.first ++ ts <:+ source) : p.Scripted (Subsup source) := by
  have hfonts : KeepsVariants (Subsup source) := fun v _ _ _ hsubsup => .font v hsubsup
  induction h with
  | sequenceEnd | sequenceStop => exact trivial
  | @sequenceScripts _ t ts _ _ _ ms _ both _ hscript hargument hscripts hmore iha ihs ihm =>
    have hts : ts <:+ source := (List.suffix_cons t ts).trans hsource
    have hafter := hargument.suffix.trans hts
    have hafter' := hscripts.suffix.trans hafter
    have hboth := ihs hafter (scripted_add t (iha hts) scripted_none)
    refine allScripted_append.mpr ⟨allScripted_attach trivial hboth ?_, ihm hafter'⟩
    rintro lower upper rfl
    exact .bare hsource (.of_second hscript hargument hscripts)
  | @sequenceElement _ t ts _ _ _ base _ both _ _ hbase hscripts hmore ihb ihs ihm =>
    have hts : ts <:+ source := (List.suffix_cons t ts).trans hsource
    have hafter := hbase.suffix.trans hts
    have hafter' := hscripts.suffix.trans hafter
    have hboth := ihs hafter scripted_none
    refine allScripted_append.mpr ⟨allScripted_attach (ihb hsource) hboth ?_, ihm hafter'⟩
    rintro lower upper rfl
    exact .element hsource hbase (.of_scripts hscripts)
  | scriptsEnd => exact id
  | @scriptsMore _ _ t ts _ _ _ hscript _ hargument _ iha ihm =>
    have hts : ts <:+ source := (List.suffix_cons t ts).trans hsource
    intro hfound
    exact ihm (hargument.suffix.trans hts) (scripted_add t (iha hts) hfound)
  | argumentGroup _ ih => exact ih ((List.suffix_cons _ _).trans hsource)
  | argumentElement _ _ _ ih => exact ih hsource
  | optionNone => rintro _ ⟨⟩
  | optionSome _ ih =>
    rintro _ ⟨⟩
    exact ih ((List.suffix_cons _ _).trans hsource)
  | rowsEnd _ ih => exact ⟨⟨ih hsource, trivial⟩, trivial⟩
  | rowsCell hcell _ ihc ihm =>
    have hafter := (List.suffix_cons _ _).trans (hcell.suffix.trans hsource)
    exact rowsScripted_consCell (ihc hsource) (ihm hafter)
  | rowsRow hcell _ ihc ihm =>
    have hafter := (List.suffix_cons _ _).trans (hcell.suffix.trans hsource)
    exact ⟨⟨ihc hsource, trivial⟩, ihm hafter⟩
  | leaf _ hleaf =>
    obtain ⟨l, rfl⟩ := eq_leaf_of_leafOf hleaf
    exact ⟨trivial, trivial⟩
  | space | newline => exact ⟨trivial, trivial⟩
  | group _ _ ih => exact ⟨ih ((List.suffix_cons _ _).trans hsource), trivial⟩
  | fraction _ hn _ ihn ihd =>
    have hts := (List.suffix_cons _ _).trans hsource
    have hnumerator := scripted_single (ihn hts)
    have hdenominator := scripted_single (ihd (hn.suffix.trans hts))
    exact ⟨⟨hnumerator, hdenominator⟩, trivial⟩
  | binomial _ hu _ ihu ihl =>
    have hts := (List.suffix_cons _ _).trans hsource
    have hupper := scripted_single (ihu hts)
    have hlower := scripted_single (ihl (hu.suffix.trans hts))
    exact ⟨scripted_fenced _ _ ⟨⟨hupper, hlower⟩, trivial⟩, trivial⟩
  | radical _ hi _ ihi ihb =>
    have hts := (List.suffix_cons _ _).trans hsource
    exact ⟨scripted_radical (ihi hts) (ihb (hi.suffix.trans hts)), trivial⟩
  | accent _ _ ih => exact ⟨scripted_single (ih ((List.suffix_cons _ _).trans hsource)), trivial⟩
  | font _ _ ih =>
    exact allScripted_withVariants _ hfonts _ (ih ((List.suffix_cons _ _).trans hsource))
  | bigDelimiter => exact ⟨trivial, trivial⟩
  | delimiters _ _ _ _ ih =>
    have hts := (List.suffix_cons _ _).trans hsource
    exact ⟨scripted_fenced _ _ (ih ((List.suffix_cons _ _).trans hts)), trivial⟩
  | environment _ _ hc _ ihc ihr =>
    have hts := (List.suffix_cons _ _).trans hsource
    exact ⟨scripted_formula _ (ihr (hc.suffix.trans hts)), trivial⟩
  | columnsNone | columnsSome => trivial

end Takes

end Phrase

theorem allScripted_of_parse {ts : List Token} {ms : List Math} (h : parse ts = .ok ms) :
    AllScripted (Subsup ts) ms :=
  (takes_of_parse h).scripted List.suffix_rfl

/-! ### The children of elements -/

/-- The names of the elements among some nodes. -/
def elementNames (nodes : List Markup) : List String :=
  nodes.filterMap fun
    | .element tag _ => some tag.name
    | _ => none

/-- What the children of an element must be. -/
inductive ChildShape where
  /-- Two elements. -/
  | pair
  /-- A base, a subscript and a superscript. -/
  | scripted
  /-- Elements of one name. -/
  | onlyOf (name : String)
  /-- Certain elements, in order. -/
  | exactly (names : List String)
  deriving DecidableEq, Repr

/-- The elements of presentation markup whose children are not free. -/
def childShapes : List (String × ChildShape) := [
  ("mfrac", .pair), ("mroot", .pair), ("msub", .pair), ("msup", .pair), ("munder", .pair),
  ("mover", .pair), ("msubsup", .scripted), ("munderover", .scripted), ("mtable", .onlyOf "mtr"),
  ("mtr", .onlyOf "mtd"), ("mi", .exactly []), ("mn", .exactly []), ("mo", .exactly []),
  ("mtext", .exactly []), ("mspace", .exactly []), ("semantics", .exactly ["mrow", "annotation"])]

section Shapes

variable (layout : Layout) (order : Math → Math → Math → Prop)

/-- Children have a shape; a base and its scripts are in the right order. -/
def ChildShape.Fits (children : List Markup) : ChildShape → Prop
  | pair => (elementNames children).length = 2
  | scripted => (elementNames children).length = 3 ∧ ∃ base lower upper, order base lower upper ∧
      children = [base.markup layout, lower.markup layout, upper.markup layout]
  | onlyOf name => ∀ other ∈ elementNames children, other = name
  | exactly names => elementNames children = names

/-- The children of an element have the shape that goes with its name, if there is one. -/
def Shaped (tag : Tag) (children : List Markup) : Prop :=
  ∀ shape, childShapes.lookup tag.name = some shape → shape.Fits layout order children

end Shapes

section Shaped

variable {layout : Layout} {order : Math → Math → Math → Prop}

theorem shaped_of_lookup {tag : Tag} {children : List Markup} {shape : ChildShape}
    (hname : childShapes.lookup tag.name = some shape) (hfits : shape.Fits layout order children) :
    Shaped layout order tag children := by
  intro other hother
  rw [hname] at hother
  cases hother
  exact hfits

theorem shaped_of_free {tag : Tag} {children : List Markup}
    (hname : childShapes.lookup tag.name = none) : Shaped layout order tag children := by
  intro shape hshape
  rw [hname] at hshape
  cases hshape

/-- Formulas become elements, one for each. -/
theorem length_elementNames_markups (ms : List Math) :
    (elementNames (markups layout ms)).length = ms.length := by
  induction ms with
  | nil => rfl
  | cons m ms ih => cases m <;> simpa [elementNames, markups, Math.markup, Leaf.markup, Markup.plain] using ih

/-- An element with certain children. -/
theorem shaped_exactly {tag : Tag} {names : List String} {children : List Markup}
    (hname : childShapes.lookup tag.name = some (.exactly names))
    (hchildren : elementNames children = names) : Shaped layout order tag children :=
  shaped_of_lookup hname hchildren

/-- An element whose children all have one name. -/
theorem shaped_all {tag : Tag} {name : String} {children : List Markup}
    (hname : childShapes.lookup tag.name = some (.onlyOf name))
    (hall : ∀ child ∈ elementNames children, child = name) : Shaped layout order tag children :=
  shaped_of_lookup hname hall

theorem shaped_pair {tag : Tag} (hname : childShapes.lookup tag.name = some .pair) (m n : Math) :
    Shaped layout order tag [m.markup layout, n.markup layout] :=
  shaped_of_lookup hname (length_elementNames_markups [m, n])

theorem shaped_leaf (l : Leaf) : l.markup.MadeOf (Shaped layout order) := by
  have hname : childShapes.lookup l.kind.tagName = some (.exactly []) := by
    cases l.kind <;> rfl
  exact ⟨shaped_exactly hname rfl, trivial, trivial⟩

theorem elementNames_cellMarkups (cells : List (List Math)) :
    ∀ name ∈ elementNames (cellMarkups layout cells), name = "mtd" := by
  induction cells with
  | nil => rintro _ ⟨⟩
  | cons cell cells ih => exact List.forall_mem_cons.mpr ⟨rfl, ih⟩

theorem elementNames_rowMarkups (rows : List (List (List Math))) :
    ∀ name ∈ elementNames (rowMarkups layout rows), name = "mtr" := by
  induction rows with
  | nil => rintro _ ⟨⟩
  | cons cells rows ih => exact List.forall_mem_cons.mpr ⟨rfl, ih⟩

mutual

theorem shaped_markup (m : Math) (h : m.Scripted order) :
    (m.markup layout).MadeOf (Shaped layout order) := by
  match m with
  | .leaf l => exact shaped_leaf l
  | .space _ => exact ⟨shaped_exactly rfl rfl, trivial⟩
  | .newline => exact ⟨shaped_exactly rfl rfl, trivial⟩
  | .row children => exact ⟨shaped_of_free rfl, shaped_markups children h⟩
  | .fraction _ numerator denominator =>
    exact ⟨shaped_pair rfl numerator denominator, shaped_markup numerator h.1,
      shaped_markup denominator h.2, trivial⟩
  | .sqrt children => exact ⟨shaped_of_free rfl, shaped_markups children h⟩
  | .root base index =>
    exact ⟨shaped_pair rfl base index, shaped_markup base h.1, shaped_markup index h.2, trivial⟩
  | .accent base mark =>
    exact ⟨shaped_pair rfl base (.leaf mark), shaped_markup base h, shaped_leaf mark, trivial⟩
  | .sub base lower =>
    have hname : childShapes.lookup (if takesLimits layout base then "munder" else "msub") =
        some .pair := by
      split <;> rfl
    exact ⟨shaped_pair hname base lower, shaped_markup base h.1, shaped_markup lower h.2, trivial⟩
  | .sup base upper =>
    have hname : childShapes.lookup (if takesLimits layout base then "mover" else "msup") =
        some .pair := by
      split <;> rfl
    exact ⟨shaped_pair hname base upper, shaped_markup base h.1, shaped_markup upper h.2, trivial⟩
  | .subsup base lower upper =>
    have hname : childShapes.lookup (if takesLimits layout base then "munderover" else "msubsup") =
        some .scripted := by
      split <;> rfl
    obtain ⟨horder, hbase, hlower, hupper⟩ := h
    have hthree : (elementNames (markups layout [base, lower, upper])).length = 3 :=
      length_elementNames_markups [base, lower, upper]
    exact ⟨shaped_of_lookup hname ⟨hthree, base, lower, upper, horder, rfl⟩,
      shaped_markup base hbase, shaped_markup lower hlower, shaped_markup upper hupper, trivial⟩
  | .table _ rows =>
    exact ⟨shaped_all rfl (elementNames_rowMarkups rows),
      shaped_rowMarkups rows h⟩

theorem shaped_markups (ms : List Math) (h : AllScripted order ms) :
    Markup.AllMadeOf (Shaped layout order) (markups layout ms) := by
  match ms with
  | [] => trivial
  | m :: ms => exact ⟨shaped_markup m h.1, shaped_markups ms h.2⟩

theorem shaped_cellMarkups (cells : List (List Math)) (h : CellsScripted order cells) :
    Markup.AllMadeOf (Shaped layout order) (cellMarkups layout cells) := by
  match cells with
  | [] => trivial
  | cell :: cells =>
    exact ⟨⟨shaped_of_free rfl, shaped_markups cell h.1⟩, shaped_cellMarkups cells h.2⟩

theorem shaped_rowMarkups (rows : List (List (List Math))) (h : RowsScripted order rows) :
    Markup.AllMadeOf (Shaped layout order) (rowMarkups layout rows) := by
  match rows with
  | [] => trivial
  | cells :: rows =>
    exact ⟨⟨shaped_all rfl (elementNames_cellMarkups cells),
      shaped_cellMarkups cells h.1⟩, shaped_rowMarkups rows h.2⟩

end

end Shaped

/-! ### The tree of a source -/

theorem tree_eq_ok_iff {layout : Layout} {source : Text} {m : Markup} :
    tree layout source = .ok m ↔
      ∃ ms, parse (tokenize source.trim) = .ok ms ∧ source.trim.fitsMarkup = true ∧
        wrap layout (markups layout ms) source.trim.chars = m := by
  rw [tree_eq]
  cases hparse : parse (tokenize source.trim) with
  | error fault => simp
  | ok ms =>
    cases hfits : source.trim.toMarkup with
    | error refusal => simp [Text.fitsMarkup_of_toMarkup_eq_error hfits]
    | ok cs =>
      obtain ⟨hall, rfl⟩ := Text.toMarkup_eq_ok_iff.mp hfits
      simpa using fun _ => hall

theorem shaped_wrap {layout : Layout} {order : Math → Math → Math → Prop} {body : List Math}
    (h : AllScripted order body) (source : List Char) :
    (wrap layout (markups layout body) source).MadeOf (Shaped layout order) := by
  have hrow : (Markup.plain "mrow" [] (markups layout body)).MadeOf (Shaped layout order) :=
    ⟨shaped_of_free rfl, shaped_markups body h⟩
  have hsemantics : Shaped layout order (Tag.plain "semantics" [])
      [.plain "mrow" [] (markups layout body),
        .plain "annotation" [("encoding", "application/x-tex".toList)] [.text source]] :=
    shaped_exactly rfl rfl
  cases layout <;>
    exact ⟨shaped_of_free rfl, ⟨shaped_of_free rfl, ⟨hsemantics, hrow,
      ⟨shaped_of_free rfl, trivial, trivial⟩, trivial⟩, trivial⟩, trivial⟩

/-- The tree of a formula source has the shape of presentation markup: every element has the children that
its name asks for, and the children of a base with both scripts are the base, the subscript and the
superscript that stand together in the source. -/
theorem tree_shaped {layout : Layout} {source : Text} {m : Markup} (h : tree layout source = .ok m) :
    m.MadeOf (Shaped layout (Subsup (tokenize source.trim))) := by
  obtain ⟨ms, hms, -, rfl⟩ := tree_eq_ok_iff.mp h
  exact shaped_wrap (allScripted_of_parse hms) _

/-- Scripts without a base, the superscript first, and an empty table. -/
theorem tree_shaped_sample :
    let source := Text.ofString "^2_\\frac\x7b\x7d1 \\begin\x7bmatrix\x7d\\end\x7bmatrix\x7d"
    ∃ m, tree .display source = .ok m ∧
      m.MadeOf (Shaped .display (Subsup (tokenize source.trim))) := by
  intro source
  obtain ⟨m, hm⟩ : ∃ m, tree .display source = .ok m := exists_of_toBool (by decide +kernel)
  exact ⟨m, hm, tree_shaped hm⟩

end DeltaPreview.Latex
