import DeltaPreview.Proofs.Latex.Elements
import DeltaPreview.Proofs.Latex.Symbol

/-!
# Expressions are set as their trees

The spelling of an expression is accepted, and its markup is the tree of the expression, in both
layouts (`Expression.typeset_spelling`).

The formula of an expression stands between the two.  The tokens of an expression stand for its formula
by the rules of the grammar (`readable`), and the elements of the formula are the trees of the
expression (`markups_maths`).  Both proofs follow the structure of expressions.
-/

namespace DeltaPreview.Latex.Expression

/-! ### Formulas of expressions -/

mutual

/-- The formula of an element. -/
def Element.math : Element → Math
  | .symbol s => .leaf s.leaf
  | .group content => .row (maths content)
  | .fraction _ _ numerator denominator =>
    .fraction true (.single (maths numerator)) (.single (maths denominator))
  | .binomial upper lower =>
    .fenced ['('] [.fraction false (.single (maths upper)) (.single (maths lower))] [')']
  | .squareRoot base => .sqrt (maths base)
  | .root first index base => .root (.single (maths base)) (.single (first.math :: maths index))
  | .accent _ mark _ base => .accent (.single (maths base)) (.operator [mark] .fixed)
  | .delimited left content right => .fenced left.text (maths content) right.text
  | .matrix kind rows => kind.style.formula (rowMaths rows)

/-- The formula of an element with its scripts. -/
def Item.math : Item → Math
  | .bare base => base.math
  | .sub base lower => .sub base.math (.single (maths lower))
  | .sup base upper => .sup base.math (.single (maths upper))
  | .subSup base lower upper | .supSub base upper lower =>
    .subsup base.math (.single (maths lower)) (.single (maths upper))

/-- The cells of a row of a matrix. -/
def Row.cells : Row → List (List Math)
  | .row first others => maths first :: cellMaths others

/-- The formulas of cells. -/
def cellMaths : List (List Item) → List (List Math)
  | [] => []
  | cell :: cells => maths cell :: cellMaths cells

/-- The cells of a matrix as they are read: without any row, there is still an empty cell. -/
def rowMaths : List Row → List (List (List Math))
  | [] => [[[]]]
  | [r] => [r.cells]
  | r :: next :: rows => r.cells :: rowMaths (next :: rows)

/-- The formulas of an expression. -/
def maths : List Item → List Math
  | [] => []
  | i :: is => i.math :: maths is

end

/-! ### Expressions are read -/

/-- The spelling of an expression stands for its formula, up to any stop at a boundary. -/
def Readable (is : List Item) : Prop :=
  ∀ stop rest, Bounds stop → (∀ t ∈ rest.head?, stop t = true) →
    (Phrase.sequence stop (maths is)).Takes (tokens is ++ rest) rest

/-- The first token of an element begins it, and the others follow. -/
theorem Element.tokens_cons (e : Element) : ∃ t ts, e.tokens = t :: ts ∧ t.Begins := by
  obtain ⟨⟨hbinom, -⟩, ⟨hsqrt, -⟩, hleft, -⟩ := command_spec
  cases e with
  | symbol s => exact ⟨s.token, [], rfl, s.standsFor.begins⟩
  | group content => exact ⟨.openBrace, _, rfl, rfl, rfl⟩
  | fraction name h =>
    exact ⟨.word name, _, rfl, (spellable_of_isControlWord (fraction_spec name h).1).2⟩
  | binomial => exact ⟨.word "binom", _, rfl, (spellable_of_isControlWord hbinom).2⟩
  | squareRoot => exact ⟨.word "sqrt", _, rfl, (spellable_of_isControlWord hsqrt).2⟩
  | root => exact ⟨.word "sqrt", _, rfl, (spellable_of_isControlWord hsqrt).2⟩
  | accent name mark h =>
    exact ⟨.word name, _, rfl, (spellable_of_isControlWord (accent_spec (name, mark) h).1).2⟩
  | delimited => exact ⟨.word "left", _, rfl, (spellable_of_isControlWord hleft).2⟩
  | matrix kind => exact ⟨.beginning kind.name, _, rfl, rfl, rfl⟩

theorem Item.tokens_cons (i : Item) : ∃ t ts, i.tokens = t :: ts ∧ t.Begins := by
  have hfront (base : Element) (more : List Token) :
      ∃ t ts, base.tokens ++ more = t :: ts ∧ t.Begins := by
    obtain ⟨t, ts, htokens, ht⟩ := base.tokens_cons
    exact ⟨t, ts ++ more, by rw [htokens, List.cons_append], ht⟩
  cases i with
  | bare base => exact base.tokens_cons
  | sub base => exact hfront base _
  | sup base => exact hfront base _
  | subSup base => exact hfront base _
  | supSub base => exact hfront base _

/-- No script follows the items of an expression. -/
theorem isScript_head (is : List Item) {stop : Token → Bool} (hstop : Bounds stop)
    {rest : List Token} (hrest : ∀ t ∈ rest.head?, stop t = true) :
    ∀ t ∈ (tokens is ++ rest).head?, t.isScript = false := by
  cases is with
  | nil => exact fun t ht => Token.isScript_of_isBoundary (hstop t (hrest t ht))
  | cons i is =>
    obtain ⟨t, ts, htokens, hbegins⟩ := i.tokens_cons
    rw [tokens, htokens]
    rintro _ ⟨⟩
    exact hbegins.2

namespace Readable

variable {is : List Item}

/-- An expression in braces is an argument. -/
theorem argument (h : Readable is) (rest : List Token) :
    (Phrase.argument (maths is)).Takes (braced (tokens is) ++ rest) rest := by
  have hbody := h (stopAt .closeBrace) (.closeBrace :: rest) (bounds_stopAt rfl)
    (by rintro _ ⟨⟩; rfl)
  simpa [braced] using Phrase.Takes.argumentGroup hbody

/-- An expression in brackets is an option. -/
theorem option (h : Readable is) (rest : List Token) :
    (Phrase.option (some (maths is))).Takes (.openBracket :: (tokens is ++ .closeBracket :: rest))
      rest :=
  .optionSome (h (stopAt .closeBracket) (.closeBracket :: rest) (bounds_stopAt rfl)
    (by rintro _ ⟨⟩; rfl))

end Readable

/-- The spelling of an element, after its first token, stands for the element. -/
def Element.Readable (e : Element) : Prop :=
  ∀ t ts rest, e.tokens = t :: ts → (Phrase.element t [e.math]).Takes (ts ++ rest) rest

/-- The spelling of an item, before a sequence of formulas, stands for the item. -/
def Item.Readable (i : Item) : Prop :=
  ∀ stop ms after rest, Bounds stop → (∀ t ∈ after.head?, t.isScript = false) →
    (Phrase.sequence stop ms).Takes after rest →
    (Phrase.sequence stop (i.math :: ms)).Takes (i.tokens ++ after) rest

theorem Readable.cons {i : Item} {is : List Item} (hi : i.Readable) (his : Readable is) :
    Readable (i :: is) := by
  intro stop rest hstop hrest
  rw [tokens, List.append_assoc]
  exact hi stop (maths is) _ rest hstop (isScript_head is hstop hrest) (his stop rest hstop hrest)

/-- An element with scripts before a sequence of formulas. -/
theorem Element.Readable.takes {e : Element} (he : e.Readable) {stop : Token → Bool}
    (hstop : Bounds stop) {both : Scripts Math} {ms : List Math} {ts after rest : List Token}
    (hscripts : (Phrase.scripts Scripts.none both).Takes (ts ++ after) after)
    (hmore : (Phrase.sequence stop ms).Takes after rest) :
    (Phrase.sequence stop (both.attach [e.math] ++ ms)).Takes (e.tokens ++ ts ++ after) rest := by
  obtain ⟨t, front, htokens, hbegins⟩ := e.tokens_cons
  rw [htokens, List.append_assoc]
  exact .sequenceElement (hbegins.stop_eq_false hstop) hbegins.2 (he t front _ htokens) hscripts
    hmore

/-- What follows the last cell of a row: the end of the environment or further rows. -/
inductive RowEnds (name : String) (rest : List Token) : List (List (List Math)) → List Token → Prop
  | last : RowEnds name rest [] (.ending name :: rest)
  | more {rows : List (List (List Math))} {after : List Token}
      (hrows : (Phrase.rows name rows).Takes after rest) : RowEnds name rest rows (.newRow :: after)

/-- The last cell of a row. -/
theorem Readable.takes_cell {cell : List Item} (hcell : Readable cell) {name : String}
    {rows : List (List (List Math))} {after rest : List Token} (hends : RowEnds name rest rows after) :
    (Phrase.rows name ([maths cell] :: rows)).Takes (tokens cell ++ after) rest := by
  have hbounds := bounds_stopAtCell name
  cases hends with
  | last => exact .rowsEnd (hcell _ _ hbounds (by rintro _ ⟨⟩; simp [stopAtCell]))
  | more hrows => exact .rowsRow (hcell _ _ hbounds (by rintro _ ⟨⟩; simp [stopAtCell])) hrows

mutual

theorem Element.readable (e : Element) : e.Readable := by
  intro t ts rest h
  obtain ⟨⟨-, hbinom⟩, ⟨-, hsqrt⟩, -, hleft⟩ := command_spec
  match e with
  | .symbol s =>
    cases h
    exact takes_symbol s rest
  | .group content =>
    cases h
    have hbody := readable content (stopAt .closeBrace) (.closeBrace :: rest) (bounds_stopAt rfl)
      (by rintro _ ⟨⟩; rfl)
    rw [List.append_assoc]
    exact .group rfl hbody
  | .fraction name hname numerator denominator =>
    cases h
    rw [List.append_assoc]
    exact .fraction (fraction_spec name hname).2 ((readable numerator).argument _)
      ((readable denominator).argument rest)
  | .binomial upper lower =>
    cases h
    rw [List.append_assoc]
    exact .binomial hbinom ((readable upper).argument _) ((readable lower).argument rest)
  | .squareRoot base =>
    cases h
    have hnone : (braced (tokens base) ++ rest).head? ≠ some .openBracket := by simp [braced]
    exact .radical (t := .word "sqrt") hsqrt (.optionNone hnone) ((readable base).argument rest)
  | .root first index base =>
    cases h
    have hindex :=
      (Readable.cons first.readable (readable index)).option (braced (tokens base) ++ rest)
    rw [tokens, List.append_assoc] at hindex
    simp only [List.cons_append, List.append_assoc]
    exact .radical (t := .word "sqrt") hsqrt hindex ((readable base).argument rest)
  | .accent name mark hname base =>
    cases h
    exact .accent (accent_spec (name, mark) hname).2 ((readable base).argument rest)
  | .delimited left content right =>
    cases h
    have hbody := readable content (stopAt (.word "right")) (.word "right" :: right.token :: rest)
      (bounds_stopAt rfl) (by rintro _ ⟨⟩; rfl)
    simp only [List.cons_append, List.append_assoc, List.nil_append]
    exact .delimiters (t := .word "left") hleft left.known hbody right.known
  | .matrix kind rows =>
    cases h
    have hrows := takes_rows rows kind.name rest
    obtain ⟨-, hknown⟩ := environment_spec (kind.name, kind.style) kind.known
    rw [List.append_assoc]
    exact .environment (t := .beginning kind.name) rfl hknown (.columnsNone (.inl kind.name_ne)) hrows

theorem Item.readable (i : Item) : i.Readable := by
  intro stop ms after rest hstop hafter hmore
  have hend (found : Scripts Math) : (Phrase.scripts found found).Takes after after := .scriptsEnd hafter
  match i with
  | .bare base =>
    have hscripts : (Phrase.scripts Scripts.none Scripts.none).Takes ([] ++ after) after := hend _
    have hbase := base.readable.takes hstop hscripts hmore
    rwa [List.append_nil] at hbase
  | .sub base lower =>
    have hscripts : (Phrase.scripts Scripts.none ⟨some (maths lower), none⟩).Takes
        (.subscript :: braced (tokens lower) ++ after) after :=
      .scriptsMore rfl rfl ((readable lower).argument after) (hend _)
    exact base.readable.takes hstop hscripts hmore
  | .sup base upper =>
    have hscripts : (Phrase.scripts Scripts.none ⟨none, some (maths upper)⟩).Takes
        (.superscript :: braced (tokens upper) ++ after) after :=
      .scriptsMore rfl rfl ((readable upper).argument after) (hend _)
    exact base.readable.takes hstop hscripts hmore
  | .subSup base lower upper =>
    have hsecond : (Phrase.scripts ⟨some (maths lower), none⟩
        ⟨some (maths lower), some (maths upper)⟩).Takes
        (.superscript :: braced (tokens upper) ++ after) after :=
      .scriptsMore rfl rfl ((readable upper).argument after) (hend _)
    have hscripts : (Phrase.scripts Scripts.none ⟨some (maths lower), some (maths upper)⟩).Takes
        (.subscript :: (braced (tokens lower) ++ .superscript :: braced (tokens upper)) ++ after)
        after := by
      rw [List.cons_append, List.append_assoc]
      exact .scriptsMore rfl rfl ((readable lower).argument _) hsecond
    exact base.readable.takes hstop hscripts hmore
  | .supSub base upper lower =>
    have hsecond : (Phrase.scripts ⟨none, some (maths upper)⟩
        ⟨some (maths lower), some (maths upper)⟩).Takes
        (.subscript :: braced (tokens lower) ++ after) after :=
      .scriptsMore rfl rfl ((readable lower).argument after) (hend _)
    have hscripts : (Phrase.scripts Scripts.none ⟨some (maths lower), some (maths upper)⟩).Takes
        (.superscript :: (braced (tokens upper) ++ .subscript :: braced (tokens lower)) ++ after)
        after := by
      rw [List.cons_append, List.append_assoc]
      exact .scriptsMore rfl rfl ((readable upper).argument _) hsecond
    exact base.readable.takes hstop hscripts hmore

/-- The cells of a row, before what ends the row. -/
theorem takes_cells (others : List (List Item)) {first : List Item} (hfirst : Readable first)
    {name : String} {rows : List (List (List Math))} {after rest : List Token}
    (hends : RowEnds name rest rows after) :
    (Phrase.rows name ((maths first :: cellMaths others) :: rows)).Takes
      (tokens first ++ cellTokens others ++ after) rest := by
  match others with
  | [] =>
    rw [cellTokens, List.append_nil]
    exact hfirst.takes_cell hends
  | cell :: cells =>
    have hmore := takes_cells cells (readable cell) hends
    have hcell := hfirst (stopAtCell name) (.separator :: (tokens cell ++ cellTokens cells ++ after))
      (bounds_stopAtCell name) (by rintro _ ⟨⟩; rfl)
    rw [cellTokens, List.append_assoc]
    exact .rowsCell hcell hmore

theorem Row.takes (r : Row) {name : String} {rows : List (List (List Math))}
    {after rest : List Token} (hends : RowEnds name rest rows after) :
    (Phrase.rows name (r.cells :: rows)).Takes (r.tokens ++ after) rest := by
  match r with
  | .row first others => exact takes_cells others (readable first) hends

/-- The rows of a matrix and its end. -/
theorem takes_rows (rows : List Row) (name : String) (rest : List Token) :
    (Phrase.rows name (rowMaths rows)).Takes (rowTokens rows ++ .ending name :: rest) rest := by
  match rows with
  | [] => exact .rowsEnd (.sequenceStop (by simp [stopAtCell]))
  | [r] => exact r.takes .last
  | r :: next :: rows =>
    rw [rowTokens, List.append_assoc]
    exact r.takes (.more (takes_rows (next :: rows) name rest))

/-- Every expression is readable. -/
theorem readable (is : List Item) : Readable is := by
  match is with
  | [] =>
    intro stop rest _ hrest
    cases rest with
    | nil => exact .sequenceEnd
    | cons t rest => exact .sequenceStop (hrest t rfl)
  | i :: is => exact .cons i.readable (readable is)

end

/-! ### Trees of expressions -/

theorem markup_slot (layout : Layout) (ms : List Math) :
    (Math.single ms).markup layout = slot (markups layout ms) := by
  rw [markup_single]
  match markups layout ms with
  | [] => rfl
  | [x] => rfl
  | x :: y :: xs => rfl

theorem markups_fences (layout : Layout) (text : List Char) :
    markups layout (Math.fence text) = fences text := by
  cases text <;> rfl

theorem markup_fenced (layout : Layout) (left right : List Char) (ms : List Math) :
    (Math.fenced left ms right).markup layout =
      .plain "mrow" [] (fences left ++ markups layout ms ++ fences right) := by
  rw [Math.fenced, Math.markup, markups_append, markups_append, markups_fences, markups_fences]

theorem markup_formula (layout : Layout) (style : Environment)
    (rows : List (List (List Math))) :
    (style.formula rows).markup layout = enclosed style (.plain "mtable"
      (if style.leftAligned then [("columnalign", "left".toList)] else [])
      (rowMarkups layout (dropEmptyRow rows))) := by
  unfold Environment.formula enclosed
  cases hleft : style.left <;> cases hright : style.right <;>
    simp [Math.markup, markup_fenced, markups]

theorem dropEmptyRow_cons (row : List (List Math)) {rows : List (List (List Math))}
    (h : rows ≠ []) : dropEmptyRow (row :: rows) = row :: dropEmptyRow rows := by
  obtain ⟨next, others, rfl⟩ := List.exists_cons_of_ne_nil h
  unfold dropEmptyRow
  rw [List.getLast?_cons_cons]
  split <;> rfl

theorem rowMaths_ne_nil (rows : List Row) : rowMaths rows ≠ [] := by
  match rows with
  | [] => simp [rowMaths]
  | [r] => simp [rowMaths]
  | r :: next :: rows => simp [rowMaths]

theorem limits_spec : (∀ p ∈ signs, p.2 ∉ limitOperators) ∧
    (∀ p ∈ operators, p.2 ∉ limitOperators) ∧ (∀ name ∈ limitFunctions, 2 ≤ name.toList.length) := by
  decide

theorem takesLimits_operator (c : Char) (role : LeafRole) :
    (⟨.operator, [c], role, none⟩ : Leaf).takesLimits = limitOperators.contains c := by
  rw [Bool.eq_iff_iff]
  simp [Leaf.takesLimits]

theorem takesLimits_identifier (text : List Char) :
    (⟨.identifier, text, .plain, none⟩ : Leaf).takesLimits = true ↔
      ∃ name ∈ limitFunctions, text = name.toList := by
  simp [Leaf.takesLimits]

theorem takesLimits_single (c : Char) :
    (⟨.identifier, [c], .plain, none⟩ : Leaf).takesLimits = false := by
  refine Bool.eq_false_iff.mpr fun h => ?_
  obtain ⟨name, hname, hsame⟩ := (takesLimits_identifier [c]).mp h
  have hlength := limits_spec.2.2 name hname
  rw [← hsame] at hlength
  simp at hlength

/-- The limits among symbols: the limit operators among the large ones, and the limit functions. -/
theorem takesLimits_leaf (s : Symbol) :
    s.leaf.takesLimits = (Element.symbol s).takesLimits .display := by
  obtain ⟨hsign, hoperator, -⟩ := limits_spec
  cases s with
  | letter c => exact takesLimits_single c
  | number => rfl
  | sign c shown h =>
    rw [Symbol.leaf, takesLimits_operator]
    simpa [Element.takesLimits] using hsign (c, shown) h
  | greek name c => exact takesLimits_single c
  | operator name c h =>
    rw [Symbol.leaf, takesLimits_operator]
    simpa [Element.takesLimits] using hoperator (name, c) h
  | function name =>
    rw [Bool.eq_iff_iff, Symbol.leaf, takesLimits_identifier]
    simp [Element.takesLimits, String.toList_inj]
  | large name c => exact takesLimits_operator c .large

theorem takesLimits_math (layout : Layout) (e : Element) :
    takesLimits layout e.math = e.takesLimits layout := by
  cases layout with
  | inline => cases e <;> rfl
  | display =>
    cases e with
    | symbol s => exact takesLimits_leaf s
    | matrix kind rows =>
      change takesLimits .display (kind.style.formula _) = false
      unfold Environment.formula
      simp only
      split <;> rfl
    | _ => rfl

theorem symbol_tree (s : Symbol) : s.leaf.markup = s.tree := by
  cases s <;> rfl

mutual

theorem Element.markup_math (layout : Layout) (e : Element) :
    e.math.markup layout = e.tree layout := by
  match e with
  | .symbol s => exact symbol_tree s
  | .group content => rw [Element.math, Math.markup, markups_maths, Element.tree]
  | .fraction _ _ numerator denominator =>
    rw [Element.math, Math.markup, markup_slot, markup_slot, markups_maths, markups_maths]
    rfl
  | .binomial upper lower =>
    rw [Element.math, markup_fenced, markups, markups, Math.markup, markup_slot, markup_slot,
      markups_maths, markups_maths]
    rfl
  | .squareRoot base => rw [Element.math, Math.markup, markups_maths, Element.tree]
  | .root first index base =>
    rw [Element.math, Math.markup, markup_slot, markup_slot, markups, first.markup_math,
      markups_maths, markups_maths, Element.tree]
  | .accent _ mark _ base =>
    rw [Element.math, Math.markup, markup_slot, markups_maths]
    rfl
  | .delimited left content right =>
    rw [Element.math, markup_fenced, markups_maths, Element.tree]
  | .matrix kind rows =>
    rw [Element.math, markup_formula, rowMarkups_rowMaths, Element.tree]

theorem Item.markup_math (layout : Layout) (i : Item) : i.math.markup layout = i.tree layout := by
  match i with
  | .bare base => exact base.markup_math layout
  | .sub base lower =>
    rw [Item.math, Math.markup, takesLimits_math, markup_slot, base.markup_math, markups_maths]
    rfl
  | .sup base upper =>
    rw [Item.math, Math.markup, takesLimits_math, markup_slot, base.markup_math, markups_maths]
    rfl
  | .subSup base lower upper | .supSub base upper lower =>
    rw [Item.math, Math.markup, takesLimits_math, markup_slot, markup_slot, base.markup_math,
      markups_maths, markups_maths]
    rfl

theorem Row.markup_cells (layout : Layout) (r : Row) :
    .plain "mtr" [] (cellMarkups layout r.cells) = r.tree layout := by
  match r with
  | .row first others =>
    rw [Row.cells, cellMarkups, markups_maths, cellMarkups_cellMaths, Row.tree]

theorem cellMarkups_cellMaths (layout : Layout) (cells : List (List Item)) :
    cellMarkups layout (cellMaths cells) = cellTrees layout cells := by
  match cells with
  | [] => rfl
  | cell :: cells =>
    rw [cellMaths, cellMarkups, markups_maths, cellMarkups_cellMaths, cellTrees]

/-- The rows of a matrix, without an empty cell at the end. -/
theorem rowMarkups_rowMaths (layout : Layout) (rows : List Row) :
    rowMarkups layout (dropEmptyRow (rowMaths rows)) = rowTrees layout rows := by
  match rows with
  | [] => rfl
  | [.row [] []] => rfl
  | [.row (i :: is) others] =>
    have hrow := (Row.row (i :: is) others).markup_cells layout
    have hdrop : dropEmptyRow [(Row.row (i :: is) others).cells] =
        [(Row.row (i :: is) others).cells] := rfl
    rw [rowMaths, hdrop, rowMarkups, hrow]
    rfl
  | [.row [] (cell :: cells)] =>
    have hrow := (Row.row [] (cell :: cells)).markup_cells layout
    have hdrop : dropEmptyRow [(Row.row [] (cell :: cells)).cells] =
        [(Row.row [] (cell :: cells)).cells] := rfl
    rw [rowMaths, hdrop, rowMarkups, hrow]
    rfl
  | r :: next :: rows =>
    rw [rowMaths, dropEmptyRow_cons _ (rowMaths_ne_nil _), rowMarkups, r.markup_cells,
      rowMarkups_rowMaths layout (next :: rows)]
    simp [rowTrees]

theorem markups_maths (layout : Layout) (is : List Item) :
    markups layout (maths is) = trees layout is := by
  match is with
  | [] => rfl
  | i :: is => rw [maths, markups, i.markup_math, markups_maths, trees]

end

/-! ### Setting expressions -/

/-- Tokens that are read back from their spelling. -/
def Spellable (ts : List Token) : Prop := ∀ t ∈ ts, t.Spellable

namespace Spellable

variable {t : Token} {ts us : List Token}

theorem nil : Spellable [] := by simp [Spellable]

theorem cons (ht : t.Spellable) (hts : Spellable ts) : Spellable (t :: ts) :=
  List.forall_mem_cons.mpr ⟨ht, hts⟩

theorem append (hts : Spellable ts) (hus : Spellable us) : Spellable (ts ++ us) :=
  List.forall_mem_append.mpr ⟨hts, hus⟩

/-- A visible character that is no letter, digit or backslash. -/
theorem consGlyph {c : Char} (h : (isVisible c && c != '\\' && !c.isDigit) = true)
    (hts : Spellable ts) : Spellable (.glyph (.char c) :: ts) := by
  obtain ⟨⟨hvisible, hslash⟩, hdigit⟩ : (isVisible c = true ∧ c ≠ '\\') ∧ c.isDigit = false := by
    simpa using h
  exact cons (.glyph hvisible hslash hdigit) hts

theorem consWord {name : String} (h : isControlWord name = true) (hts : Spellable ts) :
    Spellable (.word name :: ts) := cons (spellable_of_isControlWord h).1 hts

theorem inBraces (h : Spellable ts) : Spellable (braced ts) :=
  consGlyph (by decide) (h.append (consGlyph (by decide) nil))

end Spellable

mutual

theorem Element.spellable (e : Element) : Spellable e.tokens := by
  obtain ⟨⟨hbinom, -⟩, ⟨hsqrt, -⟩, hleft, -⟩ := command_spec
  match e with
  | .symbol s => exact .cons s.standsFor.spellable .nil
  | .group content => exact (spellable content).inBraces
  | .fraction name h numerator denominator =>
    exact .consWord (fraction_spec name h).1
      ((spellable numerator).inBraces.append (spellable denominator).inBraces)
  | .binomial upper lower =>
    exact .consWord hbinom ((spellable upper).inBraces.append (spellable lower).inBraces)
  | .squareRoot base => exact .consWord hsqrt (spellable base).inBraces
  | .root first index base =>
    have hindex := first.spellable.append (spellable index)
    exact .consWord hsqrt (.consGlyph (by decide)
      (hindex.append (.consGlyph (by decide) (spellable base).inBraces)))
  | .accent name mark h base =>
    exact .consWord (accent_spec (name, mark) h).1 (spellable base).inBraces
  | .delimited left content right =>
    have hright : (Token.word "right").Spellable := .word (by decide) (by decide)
    exact .consWord hleft (.cons left.spellable ((spellable content).append
      (.cons hright (.cons right.spellable .nil))))
  | .matrix kind rows =>
    have hword := (environment_spec (kind.name, kind.style) kind.known).1
    exact .cons (.beginning hword) ((spellable_rows rows).append (.cons (.ending hword) .nil))

theorem Item.spellable (i : Item) : Spellable i.tokens := by
  match i with
  | .bare base => exact base.spellable
  | .sub base lower =>
    exact base.spellable.append (.consGlyph (by decide) (spellable lower).inBraces)
  | .sup base upper =>
    exact base.spellable.append (.consGlyph (by decide) (spellable upper).inBraces)
  | .subSup base lower upper =>
    exact base.spellable.append (.consGlyph (by decide)
      ((spellable lower).inBraces.append (.consGlyph (by decide) (spellable upper).inBraces)))
  | .supSub base upper lower =>
    exact base.spellable.append (.consGlyph (by decide)
      ((spellable upper).inBraces.append (.consGlyph (by decide) (spellable lower).inBraces)))

theorem Row.spellable (r : Row) : Spellable r.tokens := by
  match r with
  | .row first others => exact (spellable first).append (spellable_cells others)

theorem spellable_cells (cells : List (List Item)) : Spellable (cellTokens cells) := by
  match cells with
  | [] => exact .nil
  | cell :: cells =>
    exact .consGlyph (by decide) ((spellable cell).append (spellable_cells cells))

theorem spellable_rows (rows : List Row) : Spellable (rowTokens rows) := by
  match rows with
  | [] => exact .nil
  | [r] => exact r.spellable
  | r :: next :: rows =>
    exact r.spellable.append (.cons (.symbol (by decide) (by decide))
      (spellable_rows (next :: rows)))

theorem spellable (is : List Item) : Spellable (tokens is) := by
  match is with
  | [] => exact .nil
  | i :: is => exact i.spellable.append (spellable is)

end

theorem parse_tokens (f : Expression) : parse (tokens f) = .ok (maths f) := by
  have htakes := readable f stopNever [] bounds_stopNever (by simp)
  rw [List.append_nil] at htakes
  obtain ⟨_, hsequence⟩ := htakes.accepted
  rw [parse, parseAs, hsequence]

/-- The spelling of an expression is set as the tree of the expression. -/
theorem typeset_spelling (f : Expression) (layout : Layout) :
    typeset f.spelling layout = .ok (Text.ofChars (Xml.write (f.page layout))) := by
  have hspellable := spellable f
  have htrim : f.spelling.trim = f.spelling := trim_spaced hspellable
  have htokens : tokenize f.spelling = tokens f := tokenize_spaced hspellable
  have hannotation : f.spelling.toMarkup = .ok f.spelling.chars := toMarkup_spaced hspellable
  have htree : tree layout f.spelling = .ok (f.page layout) := by
    rw [tree_eq, htrim, htokens, parse_tokens, hannotation]
    simp only [wrap, markups_maths]
    cases layout <;> rfl
  rw [typeset, htree]
  rfl

end DeltaPreview.Latex.Expression
