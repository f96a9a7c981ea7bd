import DeltaPreview.Proofs.Compile.Grouping

/-!
# The lines of a text

A text in a block is cut at its line ends.  The cut is determined by two equations: a text without a line
end is one line (`lineRuns_line`), and what precedes a line end is cut apart from what follows it
(`lineRuns_break`).  They and the induction over lines (`Text.lines_induction`) stand in for the list of
lines in all that follows.
-/

namespace DeltaPreview

/-- A line end. -/
def Text.lineEnd : CodePoint := .char '\n'

/-- Every text is a line, or a line, its line end and a shorter text. -/
@[elab_as_elim]
theorem Text.lines_induction {motive : Text → Prop}
    (line : ∀ l : Text, lineEnd ∉ l → motive l)
    (cons : ∀ l t : Text, lineEnd ∉ l → motive t → motive (l ++ lineEnd :: t)) (t : Text) :
    motive t := by
  induction h : t.length using Nat.strongRecOn generalizing t with
  | ind n ih =>
    by_cases hend : lineEnd ∈ t
    · obtain ⟨l, rest, rfl, hl⟩ := List.eq_append_cons_of_mem hend
      have hshorter : rest.length < n := by
        rw [← h, List.length_append, List.length_cons]
        omega
      exact cons l rest hl (ih _ hshorter rest rfl)
    · exact line t hend

namespace Compiler

variable (a : Attributes)

theorem lineRuns_line {l : Text} (h : Text.lineEnd ∉ l) : lineRuns a l = lineRun a l := by
  have hsplit : l.splitOn (.char '\n') = [l] := List.splitOn_eq_singleton h
  unfold lineRuns
  rw [hsplit]
  exact List.append_nil _

/-- What precedes a line end is cut apart from what follows it. -/
theorem lineRuns_break (t u : Text) :
    lineRuns a (t ++ Text.lineEnd :: u) = lineRuns a t ++ .lineBreak :: lineRuns a u := by
  have hsplit : (t ++ Text.lineEnd :: u).splitOn (.char '\n') =
      t.splitOn (.char '\n') ++ u.splitOn (.char '\n') := List.splitOn_append_cons_self t u
  unfold lineRuns
  rw [hsplit]
  cases ht : t.splitOn (.char '\n') with
  | nil => exact absurd ht (List.splitOn_ne_nil _ _)
  | cons first rest =>
    cases hu : u.splitOn (.char '\n') with
    | nil => exact absurd hu (List.splitOn_ne_nil _ _)
    | cons next others => simp

/-- The runs of a text are line breaks, and the lines that are not empty. -/
theorem mem_lineRuns {t : Text} {i : Inline} (h : i ∈ lineRuns a t) :
    i = .lineBreak ∨ ∃ l : Text, l ≠ [] ∧ Text.lineEnd ∉ l ∧ i = textRun l a := by
  have hline {l : Text} (hl : Text.lineEnd ∉ l) (hi : i ∈ lineRuns a l) :
      ∃ l : Text, l ≠ [] ∧ Text.lineEnd ∉ l ∧ i = textRun l a := by
    rw [lineRuns_line a hl] at hi
    cases l with
    | nil => exact absurd hi List.not_mem_nil
    | cons g l => exact ⟨g :: l, List.cons_ne_nil g l, hl, List.mem_singleton.mp hi⟩
  induction t using Text.lines_induction with
  | line l hl => exact .inr (hline hl h)
  | cons l t hl ih =>
    rw [lineRuns_break] at h
    rcases List.mem_append.mp h with h | h
    · exact .inr (hline hl h)
    · rcases List.mem_cons.mp h with rfl | h
      · exact .inl rfl
      · exact ih h

/-- Only the empty text has no runs. -/
theorem lineRuns_eq_nil_iff {t : Text} : lineRuns a t = [] ↔ t = [] := by
  constructor
  · intro h
    induction t using Text.lines_induction with
    | line l hl =>
      rw [lineRuns_line a hl] at h
      cases l with
      | nil => rfl
      | cons g l => cases h
    | cons l t hl ih =>
      rw [lineRuns_break] at h
      exact absurd h (List.append_ne_nil_of_right_ne_nil _ (List.cons_ne_nil _ _))
  · rintro rfl
    rfl

/-- A text has no content exactly if it is empty and no formula. -/
theorem content_eq_nil_iff {c : Compiler} {t : Text} :
    c.content t a = [] ↔ c.isFormulaText t a = false ∧ t = [] := by
  unfold content
  cases c.isFormulaText t a with
  | true => simp
  | false => simp [lineRuns_eq_nil_iff]

end Compiler

/-- An operation that inserts a text which belongs to no list and no block of its own, and is no formula. -/
structure Operation.InsertsPlain (op : Operation) (t : Text) (a : Attributes) : Prop where
  insert : op.insert = some (.text t)
  attributes : Compiler.attributes op = .ok a
  plain : (⟨.text t, a⟩ : Insertion).isPlain = true
  formula : a.formula = false

end DeltaPreview
