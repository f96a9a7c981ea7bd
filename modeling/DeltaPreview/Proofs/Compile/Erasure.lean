import DeltaPreview.Compile.Step
import Mathlib.Tactic.SplitIfs

/-!
# What a typesetter can affect

Two compilers that differ in their typesetter only give the same nodes, up to the finished markup of
formulas (`compile_erased`).  So a formula that fails is contained: no other node, run, item or mark
depends on it.

Both compilers pass over the same operations.  Their open runs stay equal once the markup in them is
erased (`step_erased`), and the whole pass follows by induction on the operations
(`compileFrom_erased`).
-/

namespace DeltaPreview

/-! ### Erasing the markup of formulas -/

/-- A run of text or markup, without the markup. -/
def Inline.erased : Inline → Inline
  | .markup _ marks => .markup [] marks
  | i => i

/-- A node without the markup of its formulas. -/
def Node.erased : Node → Node
  | .paragraph children => .paragraph (children.map Inline.erased)
  | .heading level children => .heading level (children.map Inline.erased)
  | .blockquote children => .blockquote (children.map Inline.erased)
  | .codeBlock children => .codeBlock (children.map Inline.erased)
  | .list kind items => .list kind (items.map (List.map Inline.erased))
  | .formula _ size marks => .formula [] size marks
  | .align alignment child => .align alignment child.erased
  | node => node

namespace Run

/-- An open run without the markup of its formulas. -/
def erased : Run → Run
  | idle => idle
  | list kind items => list kind (items.map (List.map Inline.erased))
  | paragraph children => paragraph (children.map Inline.erased)

theorem flush_erased (run : Run) : run.erased.flush = run.flush.map Node.erased := by
  cases run with
  | idle => rfl
  | list kind items => cases items <;> rfl
  | paragraph children => cases children <;> rfl

theorem openChildren_erased (run : Run) :
    run.erased.openChildren = run.openChildren.map Inline.erased := by
  cases run <;> rfl

theorem openItems?_erased (kind : ListKind) (run : Run) :
    run.erased.openItems? kind =
      (run.openItems? kind).map (List.map (List.map Inline.erased)) := by
  cases run with
  | idle => rfl
  | list k items =>
    show (if k = kind then some (items.map (List.map Inline.erased)) else none) =
      (if k = kind then some items else none).map (List.map (List.map Inline.erased))
    split_ifs <;> rfl
  | paragraph children => rfl

theorem isList_erased (run : Run) : run.erased.isList = run.isList := by
  cases run <;> rfl

end Run

namespace Compiler

/-- The outcome of a step without the markup of formulas. -/
def erasedStep (result : Run × List Node) : Run × List Node :=
  (result.1.erased, result.2.map Node.erased)

/-- The block that attributes ask for does not look into its content. -/
theorem block?_erased (a : Attributes) (children : List Inline) :
    block? a (children.map Inline.erased) = (block? a children).map Node.erased := by
  unfold block?
  cases a.header with
  | some level => rfl
  | none => split_ifs <;> rfl

/-! ### Two compilers -/

section Two

variable {c₁ c₂ : Compiler} (hexpand : c₁.expandInlineMath = c₂.expandInlineMath)

include hexpand

/-- Which texts are formulas does not depend on the typesetter. -/
theorem isFormulaText_congr (t : Text) (a : Attributes) :
    c₁.isFormulaText t a = c₂.isFormulaText t a := by
  rw [isFormulaText, isFormulaText, hexpand]

theorem inlineRun_erased (t : Text) (a : Attributes) :
    (c₁.inlineRun t a).erased = (c₂.inlineRun t a).erased := by
  unfold inlineRun
  rw [isFormulaText_congr hexpand]
  split <;> rfl

theorem content_erased (t : Text) (a : Attributes) :
    (c₁.content t a).map Inline.erased = (c₂.content t a).map Inline.erased := by
  unfold content
  rw [isFormulaText_congr hexpand]
  split <;> rfl

omit hexpand in
variable (c₁ c₂) in
theorem embed?_erased (members : List (Text × Json)) (a : Attributes) :
    (c₁.embed? members a).map Node.erased = (c₂.embed? members a).map Node.erased := by
  unfold embed?
  dsimp only
  split_ifs <;> rfl

variable {run₁ run₂ : Run} (hrun : run₁.erased = run₂.erased)

include hrun

omit hexpand in
/-- Runs that agree are flushed to nodes that agree. -/
theorem flush_congr : run₁.flush.map Node.erased = run₂.flush.map Node.erased := by
  rw [← Run.flush_erased, hrun, Run.flush_erased]

theorem listStep_erased (kind : ListKind) (t : Text) (a : Attributes) :
    erasedStep (c₁.listStep run₁ kind t a) = erasedStep (c₂.listStep run₂ kind t a) := by
  have hitem := inlineRun_erased hexpand t a
  have hopen : (run₁.openItems? kind).map (List.map (List.map Inline.erased)) =
      (run₂.openItems? kind).map (List.map (List.map Inline.erased)) := by
    rw [← Run.openItems?_erased, hrun, Run.openItems?_erased]
  unfold listStep
  -- A list of this kind is open in both runs, or in neither.
  cases h₁ : run₁.openItems? kind with
  | none =>
    cases h₂ : run₂.openItems? kind with
    | none => simp [erasedStep, Run.erased, hitem, flush_congr hrun]
    | some items => simp [h₁, h₂] at hopen
  | some items =>
    cases h₂ : run₂.openItems? kind with
    | none => simp [h₁, h₂] at hopen
    | some others =>
      have hitems : items.map (List.map Inline.erased) = others.map (List.map Inline.erased) := by
        simpa [h₁, h₂] using hopen
      simp [erasedStep, Run.erased, hitem, hitems]

theorem textStep_erased (t : Text) (a : Attributes) :
    erasedStep (c₁.textStep run₁ t a) = erasedStep (c₂.textStep run₂ t a) := by
  have hcontent := content_erased hexpand t a
  have hflush := flush_congr hrun
  have hopen : run₁.openChildren.map Inline.erased = run₂.openChildren.map Inline.erased := by
    rw [← Run.openChildren_erased, hrun, Run.openChildren_erased]
  have hlist : run₁.isList = run₂.isList := by
    rw [← Run.isList_erased, hrun, Run.isList_erased]
  have hblock : (block? a (c₁.content t a)).map Node.erased =
      (block? a (c₂.content t a)).map Node.erased := by
    rw [← block?_erased, hcontent, block?_erased]
  -- The same block is asked for in both, or in neither.
  cases h₁ : block? a (c₁.content t a) with
  | none =>
    cases h₂ : block? a (c₂.content t a) with
    | some block => simp [h₁, h₂] at hblock
    | none =>
      simp only [textStep, h₁, h₂, hlist]
      cases a.align with
      | none => split_ifs <;> simp [erasedStep, Run.erased, hopen, hcontent, hflush]
      | some alignment => simp [erasedStep, Run.erased, Node.erased, hcontent, hflush]
  | some block =>
    cases h₂ : block? a (c₂.content t a) with
    | none => simp [h₁, h₂] at hblock
    | some other =>
      have hother : block.erased = other.erased := by simpa [h₁, h₂] using hblock
      simp only [textStep, h₁, h₂]
      cases a.align <;> simp [erasedStep, Run.erased, Node.erased, hother, hflush]

/-- An operation keeps the open runs of two compilers equal up to markup, and what it emits is equal
up to markup. -/
theorem step_erased (op : Operation) :
    (c₁.step run₁ op).map erasedStep = (c₂.step run₂ op).map erasedStep := by
  cases hinsert : op.insert with
  | none =>
    rw [step_nothing hinsert, step_nothing hinsert]
    simp [Except.map, erasedStep, hrun]
  | some insert =>
    cases ha : attributes op with
    | error misfit => rw [step_misfit hinsert ha, step_misfit hinsert ha]
    | ok a =>
      cases insert with
      | text t =>
        cases hkind : a.listKind with
        | none =>
          rw [step_text hinsert ha hkind, step_text hinsert ha hkind]
          exact congrArg Except.ok (textStep_erased hexpand hrun t a)
        | some kind =>
          rw [step_item hinsert ha hkind, step_item hinsert ha hkind]
          exact congrArg Except.ok (listStep_erased hexpand hrun kind t a)
      | embed members =>
        have hembed := embed?_erased c₁ c₂ members a
        cases h₁ : c₁.embed? members a with
        | none =>
          rw [h₁] at hembed
          have h₂ : c₂.embed? members a = none := Option.map_eq_none_iff.mp hembed.symm
          rw [step_skipped hinsert ha h₁, step_skipped hinsert ha h₂]
          simp [Except.map, erasedStep, hrun]
        | some node =>
          rw [h₁] at hembed
          obtain ⟨other, h₂, hother⟩ := Option.map_eq_some_iff.mp hembed.symm
          rw [step_displayed hinsert ha h₁, step_displayed hinsert ha h₂]
          simp [Except.map, erasedStep, Run.erased, hother, flush_congr hrun]

end Two

/-! ### Whole documents -/

/-- A result without the markup of formulas. -/
def erasedNodes (result : Except Misfit (List Node)) : Except Misfit (List Node) :=
  result.map (List.map Node.erased)

/-- Nodes before a result stay before it, with or without markup. -/
theorem erasedNodes_append (emitted : List Node) (result : Except Misfit (List Node)) :
    erasedNodes (result.map (emitted ++ ·)) =
      (erasedNodes result).map (emitted.map Node.erased ++ ·) := by
  cases result with
  | error misfit => rfl
  | ok nodes => exact congrArg Except.ok List.map_append

variable {c₁ c₂ : Compiler} (hexpand : c₁.expandInlineMath = c₂.expandInlineMath)

include hexpand

/-- From runs that agree, two compilers get to nodes that agree, or both fail. -/
theorem compileFrom_erased (ops : List Operation) {run₁ run₂ : Run}
    (hrun : run₁.erased = run₂.erased) :
    erasedNodes (c₁.compileFrom run₁ ops) = erasedNodes (c₂.compileFrom run₂ ops) := by
  induction ops generalizing run₁ run₂ with
  | nil =>
    have hflush := flush_congr hrun
    simp [compileFrom, erasedNodes, Except.map, hflush]
  | cons op ops ih =>
    have hstep := step_erased hexpand hrun op
    -- Both operations fail with the same fault, or both leave runs that agree.
    cases h₁ : c₁.step run₁ op with
    | error misfit =>
      cases h₂ : c₂.step run₂ op with
      | error other =>
        obtain rfl : misfit = other := by simpa [h₁, h₂, Except.map] using hstep
        rw [compileFrom_of_misfit h₁, compileFrom_of_misfit h₂]
      | ok result => simp [h₁, h₂, Except.map] at hstep
    | ok result =>
      cases h₂ : c₂.step run₂ op with
      | error misfit => simp [h₁, h₂, Except.map] at hstep
      | ok other =>
        obtain ⟨hnext, hemitted⟩ : result.1.erased = other.1.erased ∧
            result.2.map Node.erased = other.2.map Node.erased := by
          simpa [h₁, h₂, Except.map, erasedStep] using hstep
        rw [compileFrom_of_step h₁, compileFrom_of_step h₂, erasedNodes_append, erasedNodes_append,
          ih hnext, hemitted]

omit hexpand in
/-- The typesetter affects nothing but the markup of formulas: with any two, a document gives the same
nodes up to that markup, or the same fault; and so does a value that may be a document. -/
theorem compile_erased (r₁ r₂ : Formula.Renderer) (expand : Bool) :
    (∀ doc : Document, erasedNodes (compile ⟨r₁, expand⟩ doc) =
      erasedNodes (compile ⟨r₂, expand⟩ doc)) ∧
    ∀ v : Json, erasedNodes (compileJson ⟨r₁, expand⟩ v) =
      erasedNodes (compileJson ⟨r₂, expand⟩ v) := by
  have hdocument (doc : Document) : erasedNodes (compile ⟨r₁, expand⟩ doc) =
      erasedNodes (compile ⟨r₂, expand⟩ doc) := by
    have hexpand : (⟨r₁, expand⟩ : Compiler).expandInlineMath =
        (⟨r₂, expand⟩ : Compiler).expandInlineMath := rfl
    exact compileFrom_erased hexpand doc.ops rfl
  refine ⟨hdocument, fun v => ?_⟩
  unfold compileJson
  split
  · rename_i members ops hops
    -- The document is read without the typesetter.
    cases Document.ofOps ops members with
    | error misfit => rfl
    | ok doc => exact hdocument doc
  · rfl

end Compiler

end DeltaPreview
