import DeltaPreview.Compile.Step

/-!
# Looking for formulas in texts

Where formulas are looked for in every text, a text that contains one is treated as if its attributes
asked for formulas: compiling a document in this way is compiling it without looking, after the texts
that contain formulas have been marked (`compile_expanded`).

A mark sets one attribute and keeps the others (`Attributes.ofJson_marked`), so an operation and its
marked form take the open run to the same run and emit the same nodes (`step_expanded`), whether the text
is a list item, plain, or a block of its own.
-/

namespace DeltaPreview

/-! ### Marking texts -/

/-- An attribute bag with a formula attribute.  What is no object holds nothing, so it is replaced. -/
def Json.marked : Json → Json
  | .object bag => .object (insert (Text.ofString "formula") (.bool true) bag)
  | _ => .object [(Text.ofString "formula", .bool true)]

/-- Whether an operation inserts a text that contains a formula. -/
def Operation.containsFormula (op : Operation) : Bool :=
  match op.insert with
  | some (.text t) => Segment.contains t
  | _ => false

/-- An operation, with a formula attribute if it inserts a text that contains a formula. -/
def Operation.marked (op : Operation) : Operation :=
  if op.containsFormula then { op with attributes := some (op.attributes.getD .null).marked } else op

/-- A document with a formula attribute on every text that contains a formula. -/
def Document.marked (doc : Document) : Document := { doc with ops := doc.ops.map Operation.marked }

/-- Attributes with the formula attribute set if `b` is true. -/
def Attributes.markedIf (a : Attributes) (b : Bool) : Attributes := { a with formula := a.formula || b }

namespace Attributes

theorem markedIf_false (a : Attributes) : a.markedIf false = a := by
  show { a with formula := a.formula || false } = a
  rw [Bool.or_false]

/-- The mark is no member of another name. -/
theorem member_insert_of_notMem {names : List String} {name : String} (h : name ∉ names) (v : Json)
    (bag : List (Text × Json)) :
    member names (Json.insert (Text.ofString name) v bag) = member names bag := by
  unfold member
  induction names with
  | nil => rfl
  | cons n names ih =>
    rw [List.mem_cons, not_or] at h
    have hkey : Text.ofString n ≠ Text.ofString name := fun heq => h.1 (Text.ofString_inj.mp heq).symm
    rw [List.findSome?_cons, List.findSome?_cons, Json.lookup_insert_of_ne hkey]
    cases Json.lookup (Text.ofString n) bag with
    | none => exact ih h.2
    | some found => rfl

theorem member_insert_self (name : String) (v : Json) (bag : List (Text × Json)) :
    member [name] (Json.insert (Text.ofString name) v bag) = v := by
  unfold member
  rw [List.findSome?_cons, Json.lookup_insert_self]
  rfl

/-- A marked bag is read as the bag is, apart from the mark. -/
theorem ofJson_marked (v : Json) : ofJson v.marked = (ofJson v).map (·.markedIf true) := by
  cases v with
  | object bag =>
    have hother (names : List String) (h : "formula" ∉ names) :
        member names (Json.insert (Text.ofString "formula") (.bool true) bag) = member names bag :=
      member_insert_of_notMem h _ bag
    rw [Json.marked, ofJson, ofJson, hother ["size"] (by decide)]
    cases readSize (member ["size"] bag) with
    | error misfit => rfl
    | ok size =>
      simp [hother, member_insert_self, Except.map, bind, Except.bind, pure, Except.pure, markedIf,
        Json.truthy]
  | _ => rfl

end Attributes

namespace Compiler

/-- The attributes of a marked operation are those of the operation, apart from the mark. -/
theorem attributes_marked (op : Operation) :
    attributes op.marked = (attributes op).map (·.markedIf op.containsFormula) := by
  unfold Operation.marked
  by_cases h : op.containsFormula = true
  · rw [if_pos h, h]
    exact Attributes.ofJson_marked _
  · rw [if_neg h, Bool.eq_false_iff.mpr h]
    cases attributes op with
    | error misfit => rfl
    | ok a => exact congrArg Except.ok a.markedIf_false.symm

/-- The mark does not change what is inserted. -/
theorem insert_marked (op : Operation) : op.marked.insert = op.insert := by
  unfold Operation.marked
  split <;> rfl

end Compiler

/-- No style depends on the formula attribute. -/
theorem Mark.active_markedIf (marks : List Mark) (a : Attributes) (b : Bool) :
    active marks (a.markedIf b) = active marks a := by
  have happlies : applies (a.markedIf b) = applies a := by
    funext m
    cases m <;> rfl
  unfold active
  rw [happlies]

namespace Compiler

variable (r : Formula.Renderer) (run : Run) (t : Text) (a : Attributes)

/-- A text is rendered as markup if its attributes ask for it or it contains a formula; so is a marked
text if formulas are not looked for. -/
theorem isFormulaText_expanded : isFormulaText ⟨r, true⟩ t a =
    isFormulaText ⟨r, false⟩ t (a.markedIf (Segment.contains t)) := by
  show (a.formula || (true && Segment.contains t)) =
    ((a.formula || Segment.contains t) || (false && Segment.contains t))
  rw [Bool.true_and, Bool.false_and, Bool.or_false]

theorem textRun_markedIf (b : Bool) : textRun t (a.markedIf b) = textRun t a := by
  unfold textRun
  rw [Mark.active_markedIf]
  rfl

theorem lineRuns_markedIf (b : Bool) : lineRuns (a.markedIf b) t = lineRuns a t := by
  have hline : lineRun (a.markedIf b) = lineRun a := by
    funext line
    cases line with
    | nil => rfl
    | cons g line => exact congrArg (fun i => [i]) (textRun_markedIf (g :: line) a b)
  unfold lineRuns
  rw [hline]

theorem inlineRun_expanded : inlineRun ⟨r, true⟩ t a =
    inlineRun ⟨r, false⟩ t (a.markedIf (Segment.contains t)) := by
  unfold inlineRun
  rw [isFormulaText_expanded, textRun_markedIf]
  rfl

theorem content_expanded : content ⟨r, true⟩ t a =
    content ⟨r, false⟩ t (a.markedIf (Segment.contains t)) := by
  unfold content
  rw [isFormulaText_expanded, lineRuns_markedIf]
  rfl

/-! ### One operation -/

theorem listStep_expanded (kind : ListKind) : listStep ⟨r, true⟩ run kind t a =
    listStep ⟨r, false⟩ run kind t (a.markedIf (Segment.contains t)) := by
  unfold listStep
  rw [inlineRun_expanded]

/-- Neither the block nor the alignment of a text depends on the mark. -/
theorem textStep_expanded : textStep ⟨r, true⟩ run t a =
    textStep ⟨r, false⟩ run t (a.markedIf (Segment.contains t)) := by
  unfold textStep
  rw [content_expanded]
  rfl

/-- An operation and its marked form do the same. -/
theorem step_expanded (op : Operation) :
    step ⟨r, true⟩ run op = step ⟨r, false⟩ run op.marked := by
  have hmarked := insert_marked op
  cases hinsert : op.insert with
  | none => rw [step_nothing hinsert, step_nothing (hmarked.trans hinsert)]
  | some insert =>
    cases insert with
    | embed members =>
      -- An object is never marked.
      have hcontains : op.containsFormula = false := by
        unfold Operation.containsFormula
        rw [hinsert]
      have hsame : op.marked = op := by
        unfold Operation.marked
        rw [hcontains]
        rfl
      rw [hsame]
      unfold step
      rw [hinsert]
      rfl
    | text t =>
      have hcontains : op.containsFormula = Segment.contains t := by
        unfold Operation.containsFormula
        rw [hinsert]
      have hattributes := attributes_marked op
      rw [hcontains] at hattributes
      cases ha : attributes op with
      | error misfit =>
        rw [ha] at hattributes
        rw [step_misfit hinsert ha, step_misfit (hmarked.trans hinsert) hattributes]
      | ok a =>
        rw [ha] at hattributes
        cases hkind : a.listKind with
        | none =>
          rw [step_text hinsert ha hkind, step_text (hmarked.trans hinsert) hattributes hkind,
            textStep_expanded]
        | some kind =>
          rw [step_item hinsert ha hkind, step_item (hmarked.trans hinsert) hattributes hkind,
            listStep_expanded]

/-! ### Whole documents -/

theorem compileFrom_expanded (ops : List Operation) : compileFrom ⟨r, true⟩ run ops =
    compileFrom ⟨r, false⟩ run (ops.map Operation.marked) := by
  induction ops generalizing run with
  | nil => rfl
  | cons op ops ih =>
    have hsame := step_expanded r run op
    cases hstep : step ⟨r, false⟩ run op.marked with
    | error misfit =>
      rw [List.map_cons, compileFrom_of_misfit (hsame.trans hstep), compileFrom_of_misfit hstep]
    | ok result =>
      rw [List.map_cons, compileFrom_of_step (hsame.trans hstep), compileFrom_of_step hstep, ih]

/-- Looking for formulas in all texts gives the nodes of the document that has a formula attribute on
every text that contains one, or the same fault. -/
theorem compile_expanded (doc : Document) :
    compile ⟨r, true⟩ doc = compile ⟨r, false⟩ doc.marked :=
  compileFrom_expanded r .idle doc.ops

end Compiler

end DeltaPreview
