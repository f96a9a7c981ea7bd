import DeltaPreview.Preview.Html
import DeltaPreview.Proofs.Markup.Fragment

/-!
# Blocks filled run by run

A block is filled with its runs one after the other (`Inline.fill`).  What it holds then is what the runs
stand for on their own (`Inline.parts`), in the order of the runs and behind all that it held before: a
text in the elements of its marks, a `br` for a line break, the child that finished markup stands for.
No run changes, drops or moves anything of the runs before it.

The children of a block, as they are computed, are those of a block that was filled in this way, so they
have the same parts, and neighbouring texts are joined in them (`Inline.markupNodes_filled`).
-/

namespace DeltaPreview

open Markup (Part Slots)

/-! ### Marks -/

namespace Mark

/-- Parts inside the elements of marks, the first mark innermost. -/
def around (link : Option Text) : List Mark → List Part → List Part
  | [], ps => ps
  | m :: marks, ps => around link marks [.element (m.tag link) ps]

theorem parts_wrap (marks : List Mark) (link : Option Text) (node : Markup) :
    (wrap marks link node).parts = around link marks node.parts := by
  induction marks generalizing node with
  | nil => rfl
  | cons m marks ih =>
    have hinner : (Markup.element (m.tag link) (Markup.push [] node)).parts =
        [.element (m.tag link) node.parts] := by
      rw [Markup.parts, Markup.partsAll_push_nil]
    rw [around, ← hinner]
    exact ih _

end Mark

namespace Inline

/-! ### Runs -/

/-- The parts that a run stands for. -/
def parts : Inline → Except Markup.Unreadable (List Part)
  | text t marks link => .ok (Mark.around link marks (t.compatible.map .char))
  | markup m marks => (Markup.nodesOf m.compatible).map fun nodes =>
      Mark.around none marks [Part.asChild (Markup.partsAll nodes)]
  | lineBreak => .ok [.element (.plain "br" []) []]

/-- Fills an element with some runs, behind what it holds already. -/
def fill (s : Slots) (children : List Inline) : Except Markup.Unreadable Slots :=
  children.foldlM (fun s run => run.markupNode.map s.add) s

theorem fill_cons (s : Slots) (run : Inline) (children : List Inline) :
    fill s (run :: children) = run.markupNode >>= fun node => fill (s.add node) children := by
  rw [fill, List.foldlM_cons]
  cases run.markupNode <;> rfl

/-- The node of a run has the parts of the run. -/
theorem agree_markupNode (run : Inline) :
    Agree (fun node ps => node.parts = ps) run.markupNode run.parts := by
  cases run with
  | text t marks link =>
    refine .ok ?_
    rw [Mark.parts_wrap, Markup.parts_text]
  | markup m marks =>
    rw [markupNode, parts, Markup.ofText]
    cases hread : Markup.nodesOf m.compatible with
    | error fault => exact .error fault
    | ok nodes =>
      refine .ok ?_
      rw [Mark.parts_wrap, Markup.parts_wrapped (Markup.allSolid_nodesOf hread)]
  | lineBreak => exact .ok rfl

/-! ### Filling -/

/-- The parts of the runs follow what was there, in the order of the runs. -/
theorem agree_fill (s : Slots) (children : List Inline) :
    Agree (fun filled ps => filled.parts = s.parts ++ ps.flatten) (fill s children)
      (children.mapM parts) := by
  induction children generalizing s with
  | nil => exact .ok (by simp)
  | cons run children ih =>
    rw [fill_cons, List.mapM_cons]
    refine (agree_markupNode run).bind fun node ps hnode => ?_
    refine (ih (s.add node)).map_right fun filled pss hfilled => ?_
    rw [hfilled, Slots.parts_add, hnode, List.flatten_cons, List.append_assoc]

/-- Filling adds the nodes of the runs to siblings. -/
theorem map_nodes_fill (s : Slots) (children : List Inline) :
    (fill s children).map Slots.nodes = (children.mapM markupNode).map (Markup.pushAll s.nodes) := by
  induction children generalizing s with
  | nil => rfl
  | cons run children ih =>
    rw [fill_cons, List.mapM_cons]
    cases run.markupNode with
    | error fault => rfl
    | ok node =>
      -- What is added to the slots is added to the siblings that they stand for.
      have hrest := ih (s.add node)
      rw [Slots.nodes_add] at hrest
      refine hrest.trans ?_
      cases children.mapM markupNode <;> rfl

theorem markupNodes_eq_fill (children : List Inline) :
    markupNodes children = (fill .empty children).map Slots.nodes :=
  (map_nodes_fill .empty children).symm

/-- Filling an element with runs fails only with the first run that stands for nothing.  Otherwise the
element holds what it held before and then the parts of the runs, in their order.  The children that runs
give an element are those of an empty element that is filled with them, with one node for the text of a
slot, so they have the parts of the runs and nothing else. -/
theorem markupNodes_filled (s : Slots) (children : List Inline) :
    Agree (fun filled ps => filled.parts = s.parts ++ ps.flatten) (fill s children)
        (children.mapM parts) ∧
      markupNodes children = (fill .empty children).map Slots.nodes ∧
      Agree (fun nodes ps => Markup.partsAll nodes = ps.flatten) (markupNodes children)
        (children.mapM parts) := by
  refine ⟨agree_fill s children, markupNodes_eq_fill children, ?_⟩
  rw [markupNodes_eq_fill]
  refine (agree_fill .empty children).map_left fun filled ps hfilled => ?_
  rw [Slots.partsAll_nodes, hfilled]
  rfl

/-- An empty text adds nothing, an empty text with marks adds empty elements. -/
example :
    (markupNodes [text "a" [] none, text "" [] none, text "b" [] none, text "" [.bold, .italic] none,
      text "c" [] none, lineBreak, text "d" [.code] none]).map (Html.writeAll false) =
    .ok "ab<em><strong></strong></em>c<br><code>d</code>".toList := rfl

end Inline

end DeltaPreview
