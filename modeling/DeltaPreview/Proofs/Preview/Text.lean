import DeltaPreview.Proofs.Preview.Compiled

/-!
# The text of a preview

A document that inserts texts only, none of them a formula, has a page that shows exactly these texts
in their order, without the characters that no markup can hold: `shownText_renderHtml`.  Nothing is
lost, repeated or moved where texts are cut at line ends, gathered in paragraphs and lists, and put
inside the elements of their marks.
-/

namespace DeltaPreview

/-- The text that an operation inserts. -/
def Operation.insertedText (op : Operation) : Text :=
  match op.insert with
  | some (.text t) => t
  | _ => []

/-- The texts that a document inserts, one after the other. -/
def Document.insertedText (doc : Document) : Text := doc.ops.flatMap Operation.insertedText

/-- Whether an operation inserts nothing, or a text with readable attributes that is no formula. -/
def Operation.IsText (op : Operation) : Prop :=
  ∀ insert, op.insert = some insert →
    ∃ t a, insert = .text t ∧ Compiler.attributes op = .ok a ∧ a.formula = false

/-- A document that inserts texts only, none of them a formula. -/
def Document.IsText (doc : Document) : Prop := ∀ op ∈ doc.ops, op.IsText

namespace Insertion

/-- The text of an insertion. -/
def text : Insertion → Text
  | ⟨.text t, _⟩ => t
  | ⟨.embed _, _⟩ => []

/-- An inserted text that is no formula. -/
def IsText (d : Insertion) : Prop := ∃ t a, d = ⟨.text t, a⟩ ∧ a.formula = false

/-! ### Contents -/

theorem shown_lineRun (a : Attributes) (t : Text) :
    (Compiler.lineRun a t).flatMap Inline.shown = t.compatible := by
  cases t with
  | nil => rfl
  | cons g t =>
    show [Compiler.textRun (g :: t) a].flatMap Inline.shown = Text.compatible (g :: t)
    simp [Compiler.textRun, Inline.shown_text]

/-- The lines of a text show the text. -/
theorem shown_lineRuns (a : Attributes) (t : Text) :
    (Compiler.lineRuns a t).flatMap Inline.shown = t.compatible := by
  induction t using Text.lines_induction with
  | line l hl => rw [Compiler.lineRuns_line a hl, shown_lineRun]
  | cons l t hl ih =>
    have hbreak : Inline.lineBreak.shown = Text.compatible [Text.lineEnd] := by
      rw [Inline.shown_lineBreak]
      decide
    rw [Compiler.lineRuns_break, Compiler.lineRuns_line a hl, List.flatMap_append, List.flatMap_cons,
      shown_lineRun, ih, hbreak, ← Text.compatible_append, ← Text.compatible_append]
    rfl

variable {c : Compiler}

theorem not_isFormulaText (hc : c.expandInlineMath = false) {a : Attributes}
    (ha : a.formula = false) (t : Text) : c.isFormulaText t a = false := by
  simp [Compiler.isFormulaText, hc, ha]

theorem IsText.legible {d : Insertion} (h : d.IsText) (hc : c.expandInlineMath = false) :
    d.Legible c := by
  obtain ⟨t, a, rfl, ha⟩ := h
  refine legible_text fun hformula => ?_
  rw [not_isFormulaText hc ha] at hformula
  cases hformula

theorem IsText.showsImage {d : Insertion} (h : d.IsText) : d.showsImage = false := by
  obtain ⟨t, a, rfl, -⟩ := h
  rfl

theorem shown_item {d : Insertion} (h : d.IsText) (hc : c.expandInlineMath = false) :
    (item c d).flatMap Inline.shown = d.text.compatible := by
  obtain ⟨t, a, rfl, ha⟩ := h
  rw [item, Compiler.inlineRun, not_isFormulaText hc ha]
  simp [Compiler.textRun, Inline.shown_text, text]

theorem shown_flow {d : Insertion} (h : d.IsText) (hc : c.expandInlineMath = false) :
    (flow c d).flatMap Inline.shown = d.text.compatible := by
  obtain ⟨t, a, rfl, ha⟩ := h
  rw [flow, Compiler.content, not_isFormulaText hc ha]
  exact shown_lineRuns a t

/-- Neither a block nor an alignment changes what is shown. -/
theorem shown_blockNode (t : Text) (a : Attributes) :
    (blockNode c t a).shown = (c.content t a).flatMap Inline.shown := by
  have hblock : ((Compiler.block? a (c.content t a)).getD (.paragraph (c.content t a))).shown =
      (c.content t a).flatMap Inline.shown := by
    unfold Compiler.block?
    split
    · rfl
    · split_ifs <;> rfl
  unfold blockNode
  cases a.align with
  | none => exact hblock
  | some alignment => exact hblock

theorem shown_ownNodes {d : Insertion} (h : d.IsText) (hc : c.expandInlineMath = false) :
    (ownNodes c d).flatMap Node.shown = d.text.compatible := by
  have hflow := shown_flow h hc
  obtain ⟨t, a, rfl, -⟩ := h
  rw [ownNodes, List.flatMap_singleton, shown_blockNode]
  exact hflow

/-! ### Runs -/

theorem shown_paragraphOf (children : List Inline) :
    (paragraphOf children).flatMap Node.shown = children.flatMap Inline.shown := by
  cases children with
  | nil => rfl
  | cons i is => simp [paragraphOf, Node.shown]

/-- A run of texts shows the texts, whether it is a list, a paragraph or a block of its own. -/
theorem shown_runNodes (hc : c.expandInlineMath = false) {run : List Insertion} (hrun : IsRun run)
    (h : ∀ d ∈ run, d.IsText) :
    (runNodes c run).flatMap Node.shown = run.flatMap fun d => d.text.compatible := by
  cases hrun with
  | items hne hkind =>
    rw [runNodes_items hne hkind, List.flatMap_singleton, Node.shown, List.flatMap_map]
    exact List.flatMap_congr fun d hd => shown_item (h d hd) hc
  | plain hne hplain =>
    rw [runNodes_plain hplain, shown_paragraphOf, List.flatMap_assoc]
    exact List.flatMap_congr fun d hd => shown_flow (h d hd) hc
  | own hkind hplain =>
    rw [runNodes_own hkind hplain, List.flatMap_singleton]
    exact shown_ownNodes (h _ List.mem_cons_self) hc

/-- However texts are gathered in runs, their nodes show them in order. -/
theorem shown_grouped (hc : c.expandInlineMath = false) {ds : List Insertion}
    (h : ∀ d ∈ ds, d.IsText) :
    (grouped c ds).flatMap Node.shown = ds.flatMap fun d => d.text.compatible := by
  have hflat := List.flatten_splitBy sameRun ds
  calc (grouped c ds).flatMap Node.shown
      = (ds.splitBy sameRun).flatMap fun run => (runNodes c run).flatMap Node.shown :=
        List.flatMap_assoc
    _ = (ds.splitBy sameRun).flatMap fun run => run.flatMap fun d => d.text.compatible := by
        apply List.flatMap_congr
        intro run hrun
        have htexts : ∀ d ∈ run, d.IsText := fun d hd => h d (mem_of_mem_splitBy hrun hd)
        exact shown_runNodes hc (isRun_of_mem_splitBy hrun) htexts
    _ = (ds.splitBy sameRun).flatten.flatMap fun d => d.text.compatible := by
        rw [List.flatten_eq_flatMap, List.flatMap_assoc]
        rfl
    _ = ds.flatMap fun d => d.text.compatible := by rw [hflat]

/-! ### Documents -/

/-- What a text operation displays is the text that it inserts. -/
theorem shown_operation {op : Operation} (h : op.IsText) :
    (∀ d ∈ shown [op], d.IsText) ∧
      (shown [op]).flatMap (fun d => d.text.compatible) = op.insertedText.compatible := by
  cases hinsert : op.insert with
  | none =>
    have hshown : shown [op] = [] := by simp [shown, ofOperation?, hinsert]
    simp [hshown, Operation.insertedText, hinsert]
  | some insert =>
    obtain ⟨t, a, rfl, ha, hformula⟩ := h insert hinsert
    have hshown : shown [op] = [⟨.text t, a⟩] := by
      simp [shown, ofOperation?, hinsert, ha, displays]
    rw [hshown]
    refine ⟨?_, by simp [Operation.insertedText, hinsert, text]⟩
    intro d hd
    exact ⟨t, a, List.mem_singleton.mp hd, hformula⟩

theorem shown_operations {ops : List Operation} (h : ∀ op ∈ ops, op.IsText) :
    (∀ d ∈ shown ops, d.IsText) ∧ (shown ops).flatMap (fun d => d.text.compatible) =
      Text.compatible (ops.flatMap Operation.insertedText) := by
  induction ops with
  | nil => exact ⟨by simp [shown], rfl⟩
  | cons op ops ih =>
    obtain ⟨hops, htext⟩ := ih fun op hop => h op (List.mem_cons_of_mem _ hop)
    obtain ⟨hop, hinserted⟩ := shown_operation (h op List.mem_cons_self)
    rw [Compiler.shown_cons]
    constructor
    · intro d hd
      rcases List.mem_append.mp hd with hd | hd
      · exact hop d hd
      · exact hops d hd
    · rw [List.flatMap_append, htext, hinserted, List.flatMap_cons, Text.compatible_append]

end Insertion

theorem Document.IsText.convertible {doc : Document} (h : doc.IsText) : doc.Convertible := by
  intro op hop hinsert
  obtain ⟨insert, hinsert⟩ := Option.isSome_iff_exists.mp hinsert
  obtain ⟨t, a, -, ha, -⟩ := h op hop insert hinsert
  exact ⟨a, ha⟩

/-- The page of a document of texts shows the inserted texts one after the other, without the
characters that no markup can hold: nothing is lost, repeated or moved. -/
theorem shownText_renderHtml (settings : Settings) (c : Compiler)
    (hc : c.expandInlineMath = false) (doc : Document) (h : doc.IsText) :
    ∃ nodes html, c.compile doc = .ok nodes ∧ renderHtml settings nodes = .ok html ∧
      (Html.pieces? html).map Html.shownText =
        some doc.insertedText.compatible := by
  obtain ⟨htexts, hshown⟩ := Insertion.shown_operations h
  obtain ⟨nodes, hcompile, -, himages, hpage⟩ :=
    h.convertible.exists_page (fun d hd => (htexts d hd).legible hc) settings
  have hnone : nodes.any Node.showsImage = false :=
    himages.trans (List.any_eq_false.mpr fun d hd => by simp [(htexts d hd).showsImage])
  obtain ⟨page, hpage, hinner, htext⟩ := hpage fun himage => by simp [hnone] at himage
  refine ⟨nodes, _, hcompile, renderHtml_eq_ok hpage, ?_⟩
  rw [Html.pieces?_page hinner.proper.plainTags, Option.map_some]
  show some page.shown = some doc.insertedText.compatible
  rw [htext, Insertion.shown_grouped hc htexts, hshown]
  rfl

/-- A list item with a line end and an angle bracket, a deletion, and two marked texts, one of them with
a control character. -/
theorem shownText_renderHtml_sample :
    let insert (t : Text) (names : List String) : Operation :=
      ⟨some (.text t), none, none, some (Json.ofMembers (names.map fun n => (n, .bool true))), []⟩
    let bullet := Json.ofMembers [("list", Json.ofString "bullet")]
    let doc : Document := ⟨[⟨some (.text "a\n<"), none, none, some bullet, []⟩,
      ⟨none, some (.int 1), none, none, []⟩, insert "b\n\nc" ["bold", "blockquote"],
      insert "d\x01&amp;" ["italic"]], []⟩
    let c : Compiler := ⟨⟨fun source _ => .ok source, Text.ofString "#f00"⟩, false⟩
    doc.IsText ∧ ∃ nodes html, c.compile doc = .ok nodes ∧
      renderHtml Settings.default nodes = .ok html ∧
      (Html.pieces? html).map Html.shownText = some "a\n<b\n\ncd&amp;".toList := by
  intro insert bullet doc c
  have texts : doc.IsText := by
    intro op hop i hi
    simp only [doc, List.mem_cons, List.not_mem_nil, or_false] at hop
    rcases hop with rfl | rfl | rfl | rfl
    · cases hi
      exact ⟨_, _, rfl, rfl, by decide⟩
    · cases hi
    · cases hi
      exact ⟨_, _, rfl, rfl, by decide⟩
    · cases hi
      exact ⟨_, _, rfl, rfl, by decide⟩
  exact ⟨texts, shownText_renderHtml _ c rfl doc texts⟩

end DeltaPreview
