import DeltaPreview.Proofs.Latex.Concatenation
import DeltaPreview.Proofs.Latex.Nest

/-!
# The cells of environments

The body of an environment is cut into rows and cells at its line ends and separators, except those that stand
inside of something: a group, delimiters, the index of a root, or another environment.  `cut` does this with the
tokens alone.  The table of an environment that is accepted has exactly these rows and cells, and a cell holds
what its own tokens stand for (`table_of_environment`); only a last row that is a single empty cell is left out.

A cell ends before the first border since no phrase in it has one (`piece_of_cell`), and what it stands for does
not depend on the tokens after it (`Phrase.Takes.before`).
-/

namespace DeltaPreview.Latex

/-! ### Cutting at the borders -/

/-- Whether a token is a certain mark that stands inside of nothing. -/
def isBorder (mark : Token) (x : Token × List (Token × Nat)) : Bool := x.1 == mark && x.2.isEmpty

/-- The rows and cells of the body of an environment. -/
def cut (body : List Token) : List (List (List Token)) :=
  ((Nest.start.levels body).splitOnP (isBorder .newRow)).map fun row =>
    (row.splitOnP (isBorder .separator)).map fun cell => cell.map Prod.fst

/-- What comes before the first border goes in front of the first part. -/
theorem splitOnP_append {α : Type} {p : α → Bool} {xs : List α} (h : ∀ x ∈ xs, p x = false)
    (ys : List α) : (xs ++ ys).splitOnP p = (ys.splitOnP p).modifyHead (xs ++ ·) := by
  induction xs with
  | nil =>
    rw [List.nil_append]
    cases ys.splitOnP p <;> rfl
  | cons x xs ih =>
    obtain ⟨hx, hxs⟩ := List.forall_mem_cons.mp h
    rw [List.cons_append, List.splitOnP_cons_eq_if_modifyHead, hx, ih hxs,
      List.modifyHead_modifyHead]
    rfl

section Cut

variable {piece : List Token} {s : Nest} {mark : Token}

theorem isBorder_inner (h : Inner .start s piece) (hmark : mark.isMark = true) :
    ∀ x ∈ Nest.start.levels piece, isBorder mark x = false := by
  intro x hx
  refine Bool.eq_false_iff.mpr fun hborder => ?_
  obtain ⟨hx', hlevel⟩ := Bool.and_eq_true_iff.mp hborder
  refine h.marked x hx (List.isEmpty_iff.mp hlevel) ?_
  rwa [beq_iff_eq.mp hx']

theorem splitOnP_inner (h : Inner .start s piece) (hmark : mark.isMark = true) :
    (Nest.start.levels piece).splitOnP (isBorder mark) = [Nest.start.levels piece] :=
  List.splitOnP_eq_singleton (isBorder_inner h hmark)

/-- After a cell and its end, nothing is open. -/
theorem levels_mark (h : Inner .start .start piece) (hmark : mark.isMark = true)
    (more : List Token) : Nest.start.levels (piece ++ mark :: more) =
      Nest.start.levels piece ++ (mark, []) :: Nest.start.levels more := by
  have hstep : Nest.start.step mark = .start := Nest.step_mark hmark
  rw [Nest.levels_append, h.after, Nest.levels_cons, hstep]
  rfl

theorem cut_ne_nil (body : List Token) : cut body ≠ [] := by
  simp [cut, List.splitOnP_ne_nil]

theorem cut_piece (h : Inner .start .start piece) : cut piece = [[piece]] := by
  rw [cut, splitOnP_inner h rfl, List.map_singleton, splitOnP_inner h rfl, List.map_singleton,
    Nest.map_fst_levels]

theorem cut_newRow (h : Inner .start .start piece) (more : List Token) :
    cut (piece ++ .newRow :: more) = [piece] :: cut more := by
  rw [cut, levels_mark h rfl, List.splitOnP_append_cons _ _ rfl, splitOnP_inner h rfl,
    List.map_append, List.map_singleton, splitOnP_inner h rfl, List.map_singleton,
    Nest.map_fst_levels]
  rfl

theorem cut_separator (h : Inner .start .start piece) (more : List Token) :
    cut (piece ++ .separator :: more) = (cut more).modifyHead (piece :: ·) := by
  obtain ⟨row, rows, hrows⟩ := List.exists_cons_of_ne_nil
    (List.splitOnP_ne_nil (isBorder .newRow) (Nest.start.levels more))
  -- A separator is no row end: the cell and its separator belong to the first row of the rest.
  have hfirst : ∀ x ∈ Nest.start.levels piece ++ [(Token.separator, [])],
      isBorder .newRow x = false := by
    intro x hx
    rcases List.mem_append.mp hx with hx | hx
    · exact isBorder_inner h rfl x hx
    · rw [List.mem_singleton.mp hx]
      rfl
  have hlevels : Nest.start.levels (piece ++ .separator :: more) =
      (Nest.start.levels piece ++ [(.separator, [])]) ++ Nest.start.levels more := by
    rw [levels_mark h rfl, List.append_assoc, List.singleton_append]
  have hcells : ((Nest.start.levels piece ++ [(Token.separator, [])]) ++ row).splitOnP
      (isBorder .separator) = Nest.start.levels piece :: row.splitOnP (isBorder .separator) := by
    rw [List.append_assoc, List.singleton_append, List.splitOnP_append_cons _ _ rfl,
      splitOnP_inner h rfl, List.singleton_append]
  rw [cut, cut, hlevels, splitOnP_append hfirst, hrows, List.modifyHead_cons, List.map_cons,
    hcells, List.map_cons, Nest.map_fst_levels, List.map_cons, List.modifyHead_cons]

end Cut

/-! ### Tables -/

/-- A cell of an environment, and what its own tokens stand for. -/
theorem piece_of_cell {environment : String} {t : Token} {cell : List Math} {ts after : List Token}
    (h : (Phrase.sequence (stopAtCell environment) cell).Takes ts (t :: after)) :
    ∃ piece, ts = piece ++ t :: after ∧ Inner .start .start piece ∧ parse piece = .ok cell := by
  have hsplit : (Phrase.sequence (stopAtCell environment) cell).Takes ts ([] ++ t :: after) := h
  obtain ⟨piece, hts, hpiece⟩ := hsplit.before
  obtain ⟨used, hused, hleveled⟩ := hpiece.leveled
  obtain rfl : piece = used := by rw [hused, List.append_nil]
  refine ⟨piece, hts, ?_, parse_of_takes hpiece.unstopped⟩
  have hpasses := hleveled [] fun _ hcloses => by simp [Nest.closes] at hcloses
  refine hpasses.mono fun t hmark hstop => ?_
  have hstop : (t.isMark || t == .ending environment) = false := hstop
  rw [hmark] at hstop
  cases hstop

theorem cells_of_rows {environment : String} {cells : List (List (List Math))}
    {ts rest : List Token} (h : (Phrase.rows environment cells).Takes ts rest) :
    ∃ body, ts = body ++ .ending environment :: rest ∧
      List.Forall₂ (List.Forall₂ fun piece cell => parse piece = .ok cell) (cut body) cells := by
  -- The rules take one cell after the other from the front, as `cut_separator` and `cut_newRow` do.
  generalize hp : Phrase.rows environment cells = p at h
  induction h generalizing cells with
  | rowsEnd hcell =>
    cases hp
    obtain ⟨piece, rfl, hinner, hparse⟩ := piece_of_cell hcell
    refine ⟨piece, rfl, ?_⟩
    rw [cut_piece hinner]
    exact .cons (.cons hparse .nil) .nil
  | rowsCell hcell _ _ ih =>
    cases hp
    obtain ⟨piece, rfl, hinner, hparse⟩ := piece_of_cell hcell
    obtain ⟨body, rfl, hcells⟩ := ih rfl
    refine ⟨piece ++ .separator :: body, by simp, ?_⟩
    obtain ⟨row, rows, hcut⟩ := List.exists_cons_of_ne_nil (cut_ne_nil body)
    rw [cut_separator hinner, hcut]
    rw [hcut] at hcells
    cases hcells with
    | cons hrow hrows => exact .cons (.cons hparse hrow) hrows
  | rowsRow hcell _ _ ih =>
    cases hp
    obtain ⟨piece, rfl, hinner, hparse⟩ := piece_of_cell hcell
    obtain ⟨body, rfl, hcells⟩ := ih rfl
    refine ⟨piece ++ .newRow :: body, by simp, ?_⟩
    rw [cut_newRow hinner]
    exact .cons (.cons hparse .nil) hcells
  | _ => cases hp


/-- The first bracket that closes is the numerator of a fraction; the second one ends the index. -/
example : (cut (tokenize (Text.ofString "\\sqrt[\\frac]2 \\\\]x & y"))).map (·.map List.length) =
    [[8, 1]] := by
  decide +kernel

/-- The group that may begin the body of an array. -/
def IsSpecification (name : String) (ts spec : List Token) : Prop :=
  if name = "array" ∧ ts.head? = some .openBrace then
    ∃ inner, spec = .openBrace :: (inner ++ [.closeBrace]) ∧ Balanced inner
  else spec = []

theorem specification_of_columns {name : String} {ts rest : List Token}
    (h : (Phrase.columns name).Takes ts rest) :
    ∃ spec, ts = spec ++ rest ∧ IsSpecification name ts spec := by
  cases h with
  | columnsNone hnone =>
    refine ⟨[], rfl, ?_⟩
    rw [IsSpecification, if_neg fun ⟨hname, hopen⟩ => hnone.elim (· hname) (· hopen)]
  | columnsSome hbody =>
    obtain ⟨inner, rfl, hinner⟩ := takes_balanced hbody
    refine ⟨.openBrace :: (inner ++ [.closeBrace]), by simp, ?_⟩
    rw [IsSpecification, if_pos ⟨rfl, rfl⟩]
    exact ⟨inner, rfl, hinner⟩

/-- The element of a table with the given cells. -/
def tableTree (leftAligned : Bool) (rows : List (List (List Markup))) : Markup :=
  .plain "mtable" (if leftAligned then [("columnalign", "left".toList)] else [])
    (rows.map fun cells => .plain "mtr" [] (cells.map fun cell => .plain "mtd" [] cell))

/-- Only a last row that is a single empty cell is left out. -/
theorem dropEmptyRow_cases (rows : List (List (List Math))) :
    rows = dropEmptyRow rows ++ [[[]]] ∨
      rows = dropEmptyRow rows ∧ rows.getLast? ≠ some [[]] := by
  unfold dropEmptyRow
  split
  · rename_i hlast
    exact .inl (List.dropLast_append_getLast? _ hlast).symm
  · rename_i hlast
    exact .inr ⟨rfl, hlast⟩

/-- The table of an environment has the rows and cells into which the separators and line ends of its body cut
it, apart from a last row that is a single empty cell, and a cell holds what its own tokens stand for.  (A font
command around the environment then sets the leaves of the whole table.) -/
theorem table_of_environment {name : String} {ts : List Token}
    {p : Parsed (List Math) (ts.length + 1)} (h : element (.beginning name) ts = .ok p) :
    ∃ style spec body cells shown, environments.lookup name = some style ∧
      ts = spec ++ body ++ .ending name :: p.rest ∧ IsSpecification name ts spec ∧
      Balanced body ∧ (cut body).mapM (·.mapM parse) = .ok cells ∧
      (cells = shown ++ [[[]]] ∨ cells = shown ∧ cells.getLast? ≠ some [[]]) ∧
      ∀ layout, markups layout p.value = [Expression.enclosed style
          (tableTree style.leftAligned (shown.map (·.map (markups layout))))] ∧
        element (α := Element layout) (.beginning name) ts =
          .ok ⟨markups layout p.value, p.rest, p.bounded⟩ := by
  obtain ⟨ms, rest, hbound⟩ := p
  have htakes : (Phrase.element (.beginning name) ms).Takes ts rest :=
    Phrase.takes_iff.mpr ⟨hbound, h⟩
  cases htakes with
  | @environment _ _ style cells _ _ _ hmeaning hknown hcolumns hrows =>
    cases hmeaning
    obtain ⟨spec, rfl, hspec⟩ := specification_of_columns hcolumns
    obtain ⟨body, rfl, hcells⟩ := cells_of_rows hrows
    refine ⟨style, spec, body, cells, dropEmptyRow cells, hknown, by simp, hspec, ?_, ?_,
      dropEmptyRow_cases cells, ?_⟩
    · -- What was cut and what is balanced end at the same token.
      obtain ⟨-, htokens, inner, rfl, hinner⟩ := takes_balanced hrows
      have hsame : body = inner := by simpa using htokens
      rwa [hsame]
    · exact mapM_eq_ok.mpr (hcells.imp fun _ _ => mapM_eq_ok.mpr)
    · refine fun layout => ⟨?_, ?_⟩
      · rw [markups, markups, Expression.markup_formula, rowMarkups_eq_map]
        rfl
      · rw [element_map (markup_hom layout), h, markups_eq_map]
        rfl
  | leaf hmeaning | space hmeaning | newline hmeaning | group hmeaning | fraction hmeaning
  | binomial hmeaning | radical hmeaning | accent hmeaning | font hmeaning | bigDelimiter hmeaning
  | delimiters hmeaning => cases hmeaning

/-- An array with a line end in a group, a matrix in the index of a root, and nothing in its last row. -/
theorem table_of_environment_sample :
    let ts := tokenize (Text.ofString ("\x7bcc\x7d a & \x7bb \\\\ c\x7d \\\\" ++
      "\\sqrt[\\begin\x7bmatrix\x7d x & y \\end\x7bmatrix\x7d]z \\\\ \\end\x7barray\x7d"))
    ∃ p, element (.beginning "array") ts = .ok p ∧
      ∃ style spec body cells shown, environments.lookup "array" = some style ∧
        ts = spec ++ body ++ .ending "array" :: p.rest ∧ IsSpecification "array" ts spec ∧
        Balanced body ∧ (cut body).mapM (·.mapM parse) = .ok cells ∧
        (cells = shown ++ [[[]]] ∨ cells = shown ∧ cells.getLast? ≠ some [[]]) ∧
        ∀ layout, markups layout p.value = [Expression.enclosed style
            (tableTree style.leftAligned (shown.map (·.map (markups layout))))] ∧
          element (α := Element layout) (.beginning "array") ts =
            .ok ⟨markups layout p.value, p.rest, p.bounded⟩ := by
  intro ts
  obtain ⟨p, hp⟩ : ∃ p, element (α := Math) (.beginning "array") ts = .ok p :=
    exists_of_toBool (by decide +kernel)
  exact ⟨p, hp, table_of_environment hp⟩

end DeltaPreview.Latex
