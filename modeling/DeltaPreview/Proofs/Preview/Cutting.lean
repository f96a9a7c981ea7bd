import DeltaPreview.Preview.Html
import DeltaPreview.Proofs.Compile.Cutting
import DeltaPreview.Proofs.Markup.Tree

/-!
# The page of a cut text

Where a plain text without marks and without a link is cut, the runs on both sides of the cut are texts
that are children of the same element, so they are joined again when the page is built.  Cutting such a
text leaves the page as it is; cutting any other plain text leaves the nodes as they are, apart from the
run that is cut (`renderHtml_cut`).
-/

namespace DeltaPreview

/-- A run of text without marks that is cut gives the same children. -/
theorem Inline.Cut.markupNodes_eq {children others : List Inline} (h : Inline.Cut [] none children others) :
    markupNodes children = markupNodes others := by
  cases h with
  | same => rfl
  | cut before after t u =>
    unfold markupNodes
    rw [List.mapM_append, List.mapM_append]
    cases before.mapM markupNode with
    | error e => rfl
    | ok ms =>
      have hwhole : (text (t ++ u) [] none :: after).mapM markupNode =
          (after.mapM markupNode).map (.text (t ++ u).compatible :: ·) := by
        rw [List.mapM_cons]
        show (after.mapM markupNode >>= fun ns => pure (.text (t ++ u).compatible :: ns)) = _
        cases after.mapM markupNode <;> rfl
      have hparts : (text t [] none :: text u [] none :: after).mapM markupNode =
          (after.mapM markupNode).map (.text t.compatible :: .text u.compatible :: ·) := by
        rw [List.mapM_cons, List.mapM_cons]
        show (after.mapM markupNode >>= fun ns => pure (.text u.compatible :: ns)) >>=
          (fun ns => pure (.text t.compatible :: ns)) = _
        cases after.mapM markupNode <;> rfl
      rw [hwhole, hparts]
      cases after.mapM markupNode with
      | error e => rfl
      | ok ns =>
        apply congrArg Except.ok
        show Markup.pushAll [] (ms ++ .text (t ++ u).compatible :: ns) =
          Markup.pushAll [] (ms ++ .text t.compatible :: .text u.compatible :: ns)
        rw [Markup.pushAll_append, Markup.pushAll_append]
        -- The texts of both parts are added one after the other.
        show Markup.pushAll (Markup.pushText (Markup.pushAll [] ms) (t ++ u).compatible) ns =
          Markup.pushAll (Markup.pushText (Markup.pushText (Markup.pushAll [] ms) t.compatible)
            u.compatible) ns
        rw [Markup.pushText_pushText, Text.compatible_append]

theorem Node.Cut.element_eq {node other : Node} (h : Node.Cut [] none node other) (settings : Settings) :
    element settings node = element settings other := by
  cases h with
  | same => rfl
  | paragraph hcut =>
    show block "p" _ = block "p" _
    unfold block
    rw [hcut.markupNodes_eq]

/-- Nodes that differ by the cut of a text without marks have the same page, or the same fault. -/
theorem renderHtml_cut_eq {nodes others : List Node} (h : List.Forall₂ (Node.Cut [] none) nodes others)
    (settings : Settings) : renderHtml settings nodes = renderHtml settings others := by
  have helements : nodes.mapM (Node.element settings) = others.mapM (Node.element settings) := by
    induction h with
    | nil => rfl
    | cons hnode _ ih => rw [List.mapM_cons, List.mapM_cons, hnode.element_eq settings, ih]
  unfold renderHtml previewElement
  rw [helements]

/-- Where a document inserts a plain text, the text can be cut into two insertions with the same
attributes.  The document is compiled to the same nodes, up to one run of text in a paragraph that is cut
in two runs with the same marks and link, or to the same fault; and if the text has neither marks nor a
link, the page is the same character for character. -/
theorem renderHtml_cut {c : Compiler} (hc : c.expandInlineMath = false) {op first second : Operation}
    {t u : Text} {a : Attributes} (hop : op.InsertsPlain (t ++ u) a) (hfirst : first.InsertsPlain t a)
    (hsecond : second.InsertsPlain u a) (before after : List Operation) (extra : List (Text × Json)) :
    Agree (List.Forall₂ (Node.Cut (Mark.active Mark.all a) a.link))
        (c.compile ⟨before ++ op :: after, extra⟩)
        (c.compile ⟨before ++ first :: second :: after, extra⟩) ∧
      (Mark.active Mark.all a = [] → a.link = none →
        Agree (fun nodes others => ∀ settings, renderHtml settings nodes = renderHtml settings others)
          (c.compile ⟨before ++ op :: after, extra⟩)
          (c.compile ⟨before ++ first :: second :: after, extra⟩)) := by
  have hcut := Compiler.compile_cut hc hop hfirst hsecond before after extra
  refine ⟨hcut, fun hmarks hlink => ?_⟩
  rw [hmarks, hlink] at hcut
  exact hcut.mono fun nodes others hnodes settings => renderHtml_cut_eq hnodes settings

/-- A text of two lines between a bold text and a list item, cut in its second line. -/
theorem renderHtml_cut_sample :
    let insert (t : Text) (a : Option Json) : Operation := ⟨some (.text t), none, none, a, []⟩
    let before := [insert "a" (Json.ofMembers [("bold", .bool true)])]
    let after := [insert "e" (Json.ofMembers [("list", Json.ofString "bullet")])]
    let c : Compiler := ⟨⟨fun source _ => .ok source, Text.ofString "#f00"⟩, false⟩
    (insert "b\ncd" none).InsertsPlain "b\ncd" .plain ∧ (insert "b\nc" none).InsertsPlain "b\nc" .plain ∧
      (insert "d" none).InsertsPlain "d" .plain ∧
      ∃ nodes others, c.compile ⟨before ++ insert "b\ncd" none :: after, []⟩ = .ok nodes ∧
        c.compile ⟨before ++ insert "b\nc" none :: insert "d" none :: after, []⟩ = .ok others ∧
        nodes ≠ others ∧ List.Forall₂ (Node.Cut [] none) nodes others ∧
        renderHtml Settings.default nodes = renderHtml Settings.default others := by
  intro insert before after c
  have hop : (insert "b\ncd" none).InsertsPlain ("b\nc" ++ "d") .plain := ⟨rfl, rfl, rfl, rfl⟩
  have hfirst : (insert "b\nc" none).InsertsPlain "b\nc" .plain := ⟨rfl, rfl, rfl, rfl⟩
  have hsecond : (insert "d" none).InsertsPlain "d" .plain := ⟨rfl, rfl, rfl, rfl⟩
  obtain ⟨hcut, hpage⟩ := renderHtml_cut (c := c) rfl hop hfirst hsecond before after []
  have hpages := hpage rfl rfl
  generalize hnodes : c.compile ⟨before ++ insert "b\ncd" none :: after, []⟩ = x at hcut hpages
  generalize hothers : c.compile ⟨before ++ insert "b\nc" none :: insert "d" none :: after, []⟩ = y
    at hcut hpages
  cases hcut with
  | error misfit => cases hnodes
  | @ok nodes others hcut =>
    cases hpages with
    | ok hpages =>
      refine ⟨hop, hfirst, hsecond, nodes, others, rfl, rfl, ?_, hcut, hpages _⟩
      rintro rfl
      have hsame := hnodes.trans hothers.symm
      exact absurd hsame (by decide)

end DeltaPreview
