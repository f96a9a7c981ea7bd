import DeltaPreview.Compile.Run
import DeltaPreview.Formula.Render
import DeltaPreview.Json.Display

/-!
# Compiling documents

A document becomes a flat sequence of render nodes in one pass.  Each operation turns the open run
into the next one and may emit finished nodes; at the end the open run is flushed.
-/

namespace DeltaPreview

/-- What the compilation of a document depends on. -/
structure Compiler extends Formula.Renderer where
  /-- Whether formulas are also looked for in texts without a formula attribute. -/
  expandInlineMath : Bool

namespace Compiler

/-- Whether a text is rendered as markup. -/
def isFormulaText (c : Compiler) (t : Text) (a : Attributes) : Bool :=
  a.formula || (c.expandInlineMath && Segment.contains t)

/-- The markup of a text: of the formulas in it, or of the whole as one formula. -/
def formulaRun (c : Compiler) (t : Text) : Inline :=
  .markup (if Segment.contains t then Formula.renderText c.toRenderer t
    else Formula.renderSized c.toRenderer none t) []

/-- A text with the marks of its attributes. -/
def textRun (t : Text) (a : Attributes) : Inline := .text t (Mark.active Mark.all a) a.link

/-- A text as a single run. -/
def inlineRun (c : Compiler) (t : Text) (a : Attributes) : Inline :=
  if c.isFormulaText t a then c.formulaRun t else textRun t a

/-- A run, unless its text is empty. -/
def lineRun (a : Attributes) : Text → List Inline
  | [] => []
  | t => [textRun t a]

/-- The runs of a text, with a line break for every line end. -/
def lineRuns (a : Attributes) (t : Text) : List Inline :=
  match t.splitOn (.char '\n') with
  | [] => []
  | first :: rest => lineRun a first ++ rest.flatMap fun line => .lineBreak :: lineRun a line

/-- The content of a text in a block. -/
def content (c : Compiler) (t : Text) (a : Attributes) : List Inline :=
  if c.isFormulaText t a then [c.formulaRun t] else lineRuns a t

/-- The block that attributes ask for, if they ask for one. -/
def block? (a : Attributes) (children : List Inline) : Option Node :=
  match a.header with
  | some level => some (.heading level children)
  | none =>
    if a.blockquote then some (.blockquote children)
    else if a.codeBlock then some (.codeBlock children)
    else none

/-- Adds a text to the open list of its kind, or opens one. -/
def listStep (c : Compiler) (run : Run) (kind : ListKind) (t : Text) (a : Attributes) :
    Run × List Node :=
  let item := [c.inlineRun t a]
  match run.openItems? kind with
  | some items => (.list kind (items ++ [item]), [])
  | none => (.list kind [item], run.flush)

/-- Adds a text to the open paragraph, or emits it as a block of its own. -/
def textStep (c : Compiler) (run : Run) (t : Text) (a : Attributes) : Run × List Node :=
  let children := c.content t a
  match block? a children, a.align with
  | none, none =>
    (.paragraph (run.openChildren ++ children), if run.isList then run.flush else [])
  | block, none => (.idle, run.flush ++ block.toList)
  | block, some alignment =>
    (.idle, run.flush ++ [.align alignment (block.getD (.paragraph children))])

/-- The node of an embedded object: an image or a formula. -/
def embed? (c : Compiler) (members : List (Text × Json)) (a : Attributes) : Option Node :=
  let member (name : String) : Json := (Json.lookup (Text.ofString name) members).getD .null
  let image := member "image"
  let formula := member "formula"
  if image.truthy then some (.image image.display)
  else if formula.truthy then
    some (.formula (Formula.renderSized c.toRenderer a.size formula.display) a.size
      (Mark.active Mark.styling a))
  else none

/-- The attributes of an operation. -/
def attributes (op : Operation) : Except Misfit Attributes :=
  Attributes.ofJson (op.attributes.getD .null)

/-- Applies an operation to the open run. -/
def step (c : Compiler) (run : Run) (op : Operation) : Except Misfit (Run × List Node) :=
  match op.insert with
  | none => .ok (run, [])
  | some (.text t) => (attributes op).map fun a =>
    match a.listKind with
    | some kind => c.listStep run kind t a
    | none => c.textStep run t a
  | some (.embed members) => (attributes op).map fun a =>
    match c.embed? members a with
    | some node => (.idle, run.flush ++ [node])
    | none => (run, [])

/-! What an operation does to the open run is determined by what it inserts and by its attributes. -/

section Step

variable {c : Compiler} {run : Run} {op : Operation} {a : Attributes} {t : Text} {kind : ListKind}
  {members : List (Text × Json)} {node : Node}

theorem step_nothing (hinsert : op.insert = none) : c.step run op = .ok (run, []) := by
  simp only [step, hinsert]

theorem step_misfit {insert : Insert} {misfit : Misfit} (hinsert : op.insert = some insert)
    (ha : attributes op = .error misfit) : c.step run op = .error misfit := by
  cases insert <;> simp only [step, hinsert, ha, Except.map]

theorem step_item (hinsert : op.insert = some (.text t)) (ha : attributes op = .ok a)
    (hkind : a.listKind = some kind) : c.step run op = .ok (c.listStep run kind t a) := by
  simp only [step, hinsert, ha, Except.map, hkind]

theorem step_text (hinsert : op.insert = some (.text t)) (ha : attributes op = .ok a)
    (hkind : a.listKind = none) : c.step run op = .ok (c.textStep run t a) := by
  simp only [step, hinsert, ha, Except.map, hkind]

theorem step_displayed (hinsert : op.insert = some (.embed members)) (ha : attributes op = .ok a)
    (hnode : c.embed? members a = some node) : c.step run op = .ok (.idle, run.flush ++ [node]) := by
  simp only [step, hinsert, ha, Except.map, hnode]

theorem step_skipped (hinsert : op.insert = some (.embed members)) (ha : attributes op = .ok a)
    (hnode : c.embed? members a = none) : c.step run op = .ok (run, []) := by
  simp only [step, hinsert, ha, Except.map, hnode]

end Step

/-- The nodes that operations add to the open run. -/
def compileFrom (c : Compiler) (run : Run) : List Operation → Except Misfit (List Node)
  | [] => .ok run.flush
  | op :: ops => do
    let (next, emitted) ← c.step run op
    let nodes ← c.compileFrom next ops
    return emitted ++ nodes

/-- An operation that fails makes the whole pass fail. -/
theorem compileFrom_of_misfit {c : Compiler} {run : Run} {op : Operation} {misfit : Misfit}
    (hstep : c.step run op = .error misfit) (ops : List Operation) :
    c.compileFrom run (op :: ops) = .error misfit := by
  rw [compileFrom, hstep]
  rfl

/-- One operation and then the others. -/
theorem compileFrom_of_step {c : Compiler} {run next : Run} {op : Operation} {emitted : List Node}
    (hstep : c.step run op = .ok (next, emitted)) (ops : List Operation) :
    c.compileFrom run (op :: ops) = (c.compileFrom next ops).map (emitted ++ ·) := by
  rw [compileFrom, hstep]
  show (c.compileFrom next ops >>= fun nodes => pure (emitted ++ nodes)) = _
  cases c.compileFrom next ops <;> rfl

/-- The nodes of a document. -/
def compile (c : Compiler) (doc : Document) : Except Misfit (List Node) :=
  c.compileFrom .idle doc.ops

/-- The nodes of a value that may be a document; without operations there is no content. -/
def compileJson (c : Compiler) (v : Json) : Except Misfit (List Node) :=
  match v, v.get? "ops" with
  | .object members, some (.array ops) => Document.ofOps ops members >>= c.compile
  | _, _ => .ok [Node.noContent]

end Compiler

end DeltaPreview
