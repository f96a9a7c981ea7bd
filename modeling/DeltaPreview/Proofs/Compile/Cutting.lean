import DeltaPreview.Proofs.Compile.Lines
import DeltaPreview.Proofs.Result

/-!
# Cutting a plain text

A plain text can be inserted by one operation or, cut anywhere, by two operations with the same
attributes.  The nodes are the same, but for the run of text at the cut, which is then two runs with the
same marks and link (`compile_cut`).

The argument compares two passes over the same operations whose open runs differ in this way
(`Run.Cut`).  An operation keeps the difference (`step_cut`), and so does the whole pass
(`compileFrom_cut`).  The cut itself is the beginning: the lines of a text are those of its two parts,
with the last line of one and the first line of the other in one (`lineRuns_cut`).
-/

namespace DeltaPreview

/-! ### Runs of text that are cut -/

/-- The second content is the first, or it is the first with one of its runs cut in two. -/
inductive Inline.Cut (marks : List Mark) (link : Option Text) : List Inline → List Inline → Prop
  | same (children) : Cut marks link children children
  | cut (before after t u) :
    Cut marks link (before ++ .text (t ++ u) marks link :: after)
      (before ++ .text t marks link :: .text u marks link :: after)

/-- The second node is the first, or it is the same paragraph with one of its runs cut in two. -/
inductive Node.Cut (marks : List Mark) (link : Option Text) : Node → Node → Prop
  | same (node) : Cut marks link node node
  | paragraph {children others} : Inline.Cut marks link children others →
    Cut marks link (.paragraph children) (.paragraph others)

/-- The second open run is the first, or it is the same paragraph with one of its runs cut in two. -/
inductive Run.Cut (marks : List Mark) (link : Option Text) : Run → Run → Prop
  | same (run) : Cut marks link run run
  | paragraph {children others} : Inline.Cut marks link children others →
    Cut marks link (.paragraph children) (.paragraph others)

variable {marks : List Mark} {link : Option Text}

namespace Inline.Cut

variable {children others : List Inline}

theorem append_left (h : Cut marks link children others) (before : List Inline) :
    Cut marks link (before ++ children) (before ++ others) := by
  cases h with
  | same => exact .same _
  | cut first after t u =>
    rw [← List.append_assoc, ← List.append_assoc]
    exact .cut (before ++ first) after t u

theorem append_right (h : Cut marks link children others) (after : List Inline) :
    Cut marks link (children ++ after) (others ++ after) := by
  cases h with
  | same => exact .same _
  | cut before rest t u =>
    rw [List.append_assoc, List.append_assoc]
    exact .cut before (rest ++ after) t u

theorem eq_nil_iff (h : Cut marks link children others) : children = [] ↔ others = [] := by
  cases h with
  | same => exact Iff.rfl
  | cut => simp

end Inline.Cut

/-- Nodes of which each is the same or cut. -/
theorem Node.Cut.all_same (nodes : List Node) : List.Forall₂ (Node.Cut marks link) nodes nodes :=
  List.forall₂_same.mpr fun node _ => .same node

namespace Run.Cut

variable {run other : Run}

theorem flush (h : Run.Cut marks link run other) :
    List.Forall₂ (Node.Cut marks link) run.flush other.flush := by
  cases h with
  | same => exact Node.Cut.all_same _
  | @paragraph children others hcut =>
    cases children with
    | nil =>
      obtain rfl := hcut.eq_nil_iff.mp rfl
      exact .nil
    | cons i is =>
      cases others with
      | nil => exact absurd (hcut.eq_nil_iff.mpr rfl) (List.cons_ne_nil i is)
      | cons j js => exact .cons (.paragraph hcut) .nil

theorem openChildren (h : Run.Cut marks link run other) :
    Inline.Cut marks link run.openChildren other.openChildren := by
  cases h with
  | same => exact .same _
  | paragraph hcut => exact hcut

theorem openItems?_eq (h : Run.Cut marks link run other) (kind : ListKind) :
    run.openItems? kind = other.openItems? kind := by
  cases h <;> rfl

theorem isList_eq (h : Run.Cut marks link run other) : run.isList = other.isList := by
  cases h <;> rfl

end Run.Cut

namespace Compiler

variable {c : Compiler} {run other : Run}

/-! ### One operation -/

/-- Steps that leave runs and emit nodes of which the second are the first, apart from the cut. -/
def CutStep (marks : List Mark) (link : Option Text) (x y : Run × List Node) : Prop :=
  x.1.Cut marks link y.1 ∧ List.Forall₂ (Node.Cut marks link) x.2 y.2

theorem listStep_cut (h : run.Cut marks link other) (kind : ListKind) (t : Text) (a : Attributes) :
    CutStep marks link (c.listStep run kind t a) (c.listStep other kind t a) := by
  unfold listStep
  rw [h.openItems?_eq kind]
  cases other.openItems? kind with
  | none => exact ⟨.same _, h.flush⟩
  | some items => exact ⟨.same _, .nil⟩

theorem textStep_cut (h : run.Cut marks link other) {t : Text} {a : Attributes}
    (hkind : a.listKind = none) :
    CutStep marks link (c.textStep run t a) (c.textStep other t a) := by
  cases hplain : (⟨.text t, a⟩ : Insertion).isPlain with
  | false =>
    rw [textStep_own hkind hplain, textStep_own hkind hplain]
    exact ⟨.same _, List.rel_append h.flush (Node.Cut.all_same _)⟩
  | true =>
    rw [textStep_plain hplain, textStep_plain hplain, h.isList_eq]
    refine ⟨.paragraph (h.openChildren.append_right _), ?_⟩
    by_cases hlist : other.isList = true
    · rw [if_pos hlist, if_pos hlist]
      exact h.flush
    · rw [if_neg hlist, if_neg hlist]
      exact .nil

/-- An operation fails from both runs, or from neither, and keeps the difference. -/
theorem step_cut (h : run.Cut marks link other) (op : Operation) :
    Agree (CutStep marks link) (c.step run op) (c.step other op) := by
  cases hinsert : op.insert with
  | none =>
    rw [step_nothing hinsert, step_nothing hinsert]
    exact .ok ⟨h, .nil⟩
  | some insert =>
    cases ha : attributes op with
    | error misfit =>
      rw [step_misfit hinsert ha, step_misfit hinsert ha]
      exact .error misfit
    | ok a =>
      cases insert with
      | text t =>
        cases hkind : a.listKind with
        | none =>
          rw [step_text hinsert ha hkind, step_text hinsert ha hkind]
          exact .ok (textStep_cut h hkind)
        | some kind =>
          rw [step_item hinsert ha hkind, step_item hinsert ha hkind]
          exact .ok (listStep_cut h kind t a)
      | embed members =>
        cases hnode : c.embed? members a with
        | none =>
          rw [step_skipped hinsert ha hnode, step_skipped hinsert ha hnode]
          exact .ok ⟨h, .nil⟩
        | some node =>
          rw [step_displayed hinsert ha hnode, step_displayed hinsert ha hnode]
          exact .ok ⟨.same _, List.rel_append h.flush (Node.Cut.all_same [node])⟩

/-! ### The whole pass -/

/-- Nodes, or a fault, that are those of another pass, apart from the cut. -/
def CutResult (marks : List Mark) (link : Option Text) (x y : Except Misfit (List Node)) : Prop :=
  Agree (List.Forall₂ (Node.Cut marks link)) x y

/-- Two passes over the same operations keep the difference. -/
theorem compileFrom_cut (ops : List Operation) (h : run.Cut marks link other) :
    CutResult marks link (c.compileFrom run ops) (c.compileFrom other ops) := by
  induction ops generalizing run other with
  | nil => exact .ok h.flush
  | cons op ops ih =>
    refine (step_cut h op).bind fun p q hstep => ?_
    obtain ⟨hnext, hemitted⟩ := hstep
    refine (ih hnext).bind fun nodes others hnodes => ?_
    exact .ok (List.rel_append hemitted hnodes)

/-- Two ways to go on that differ by the cut do so after any operations. -/
theorem compileFrom_append_cut {ops others : List Operation}
    (h : ∀ run, CutResult marks link (c.compileFrom run ops) (c.compileFrom run others))
    (before : List Operation) (run : Run) :
    CutResult marks link (c.compileFrom run (before ++ ops)) (c.compileFrom run (before ++ others)) := by
  induction before generalizing run with
  | nil => exact h run
  | cons op before ih =>
    cases hstep : c.step run op with
    | error misfit =>
      rw [List.cons_append, List.cons_append, compileFrom_of_misfit hstep, compileFrom_of_misfit hstep]
      exact .error misfit
    | ok result =>
      rw [List.cons_append, List.cons_append, compileFrom_of_step hstep, compileFrom_of_step hstep]
      exact (ih result.1).map fun _ _ hnodes => List.rel_append (Node.Cut.all_same result.2) hnodes

/-! ### The cut -/

variable (a : Attributes)

/-- A line that is cut. -/
theorem lineRun_cut (l m : Text) :
    Inline.Cut (Mark.active Mark.all a) a.link (lineRun a (l ++ m)) (lineRun a l ++ lineRun a m) := by
  cases l with
  | nil => exact .same _
  | cons g l =>
    cases m with
    | nil =>
      rw [List.append_nil]
      exact .same _
    | cons g' m => exact .cut [] [] (g :: l) (g' :: m)

/-- The lines of a text are those of its parts, but for the line that is cut. -/
theorem lineRuns_cut (t u : Text) :
    Inline.Cut (Mark.active Mark.all a) a.link (lineRuns a (t ++ u)) (lineRuns a t ++ lineRuns a u) := by
  induction t using Text.lines_induction with
  | line l hl =>
    rw [lineRuns_line a hl]
    induction u using Text.lines_induction with
    | line m hm =>
      have hlm : Text.lineEnd ∉ l ++ m := by simp [hl, hm]
      rw [lineRuns_line a hm, lineRuns_line a hlm]
      exact lineRun_cut a l m
    | cons m u hm _ =>
      have hlm : Text.lineEnd ∉ l ++ m := by simp [hl, hm]
      rw [← List.append_assoc, lineRuns_break, lineRuns_break, lineRuns_line a hm, lineRuns_line a hlm,
        ← List.append_assoc]
      exact (lineRun_cut a l m).append_right _
  | cons l t hl ih =>
    rw [List.append_assoc, List.cons_append, lineRuns_break, lineRuns_break, List.append_assoc,
      List.cons_append]
    exact (ih.append_left [.lineBreak]).append_left _

variable {a}

/-- A plain text joins the open paragraph with its lines. -/
theorem step_plain (hc : c.expandInlineMath = false) {op : Operation} {t : Text}
    (h : op.InsertsPlain t a) (run : Run) :
    c.step run op =
      .ok (.paragraph (run.openChildren ++ lineRuns a t), if run.isList then run.flush else []) := by
  have hkind : a.listKind = none := Insertion.listKind?_of_isPlain h.plain
  have hformula : c.isFormulaText t a = false := by
    simp [isFormulaText, hc, h.formula]
  have hcontent : c.content t a = lineRuns a t := by
    unfold content
    rw [hformula]
    rfl
  rw [step_text h.insert h.attributes hkind, textStep_plain h.plain, hcontent]

/-- A plain text and its two parts leave runs that differ by the cut. -/
theorem compileFrom_cut_text (hc : c.expandInlineMath = false) {op first second : Operation}
    {t u : Text} (hop : op.InsertsPlain (t ++ u) a) (hfirst : first.InsertsPlain t a)
    (hsecond : second.InsertsPlain u a) (after : List Operation) (run : Run) :
    CutResult (Mark.active Mark.all a) a.link (c.compileFrom run (op :: after))
      (c.compileFrom run (first :: second :: after)) := by
  have hnext : Run.Cut (Mark.active Mark.all a) a.link
      (.paragraph (run.openChildren ++ lineRuns a (t ++ u)))
      (.paragraph (run.openChildren ++ lineRuns a t ++ lineRuns a u)) := by
    rw [List.append_assoc]
    exact .paragraph ((lineRuns_cut a t u).append_left _)
  -- The second part finds the paragraph of the first part open, so nothing is flushed.
  have hjoin : c.compileFrom (.paragraph (run.openChildren ++ lineRuns a t)) (second :: after) =
      c.compileFrom (.paragraph (run.openChildren ++ lineRuns a t ++ lineRuns a u)) after := by
    rw [compileFrom_of_step (step_plain hc hsecond _)]
    show (c.compileFrom (.paragraph (run.openChildren ++ lineRuns a t ++ lineRuns a u)) after).map
      ([] ++ ·) = _
    cases c.compileFrom (.paragraph (run.openChildren ++ lineRuns a t ++ lineRuns a u)) after <;> rfl
  rw [compileFrom_of_step (step_plain hc hop run), compileFrom_of_step (step_plain hc hfirst run), hjoin]
  exact (compileFrom_cut after hnext).map fun _ _ hnodes =>
    List.rel_append (Node.Cut.all_same _) hnodes

/-- Cutting a plain text changes the nodes of a document at most by cutting one run of a paragraph, and
faults stay the same. -/
theorem compile_cut (hc : c.expandInlineMath = false) {op first second : Operation} {t u : Text}
    (hop : op.InsertsPlain (t ++ u) a) (hfirst : first.InsertsPlain t a)
    (hsecond : second.InsertsPlain u a) (before after : List Operation) (extra : List (Text × Json)) :
    CutResult (Mark.active Mark.all a) a.link (c.compile ⟨before ++ op :: after, extra⟩)
      (c.compile ⟨before ++ first :: second :: after, extra⟩) :=
  compileFrom_append_cut (compileFrom_cut_text hc hop hfirst hsecond after) before .idle

end Compiler

end DeltaPreview
