import DeltaPreview.Proofs.Compile.Lines
import DeltaPreview.Proofs.Compile.Runs
import DeltaPreview.Proofs.Formula.Markup
import DeltaPreview.Proofs.Preview.Rendering

/-!
# Compiled documents are legible

Texts that are no formulas are legible whatever their attributes are, and so are images; only the
finished markup of formulas has to be looked at.  With the typesetter of this library that is legible,
too (`Insertion.legible`).  The nodes of legible insertions are legible (`legible_grouped`), so a document
of such insertions has a page, as far as the sizes of images fit where it shows one
(`Document.Convertible.exists_page`, `showsImage_grouped`).
-/

namespace DeltaPreview

/-- The lines of a text are legible. -/
theorem Inline.legible_lineRuns (a : Attributes) (t : Text) :
    ∀ i ∈ Compiler.lineRuns a t, i.Legible := by
  intro i hi
  rcases Compiler.mem_lineRuns a hi with rfl | ⟨l, -, -, rfl⟩
  · exact legible_lineBreak
  · exact legible_text _ _ _

namespace Insertion

variable {c : Compiler}

/-- An insertion with a legible content. -/
def Legible (c : Compiler) : Insertion → Prop
  | ⟨.text t, a⟩ => (c.inlineRun t a).Legible ∧ ∀ i ∈ c.content t a, i.Legible
  | ⟨.embed members, a⟩ => ∀ node ∈ c.embed? members a, node.Legible

/-- A text is legible if it is no formula or its formula is. -/
theorem legible_text {t : Text} {a : Attributes}
    (h : c.isFormulaText t a = true → (c.formulaRun t).Legible) :
    Legible c ⟨.text t, a⟩ := by
  cases hformula : c.isFormulaText t a with
  | true =>
    have hrun := h hformula
    simpa [Legible, Compiler.inlineRun, Compiler.content, hformula] using hrun
  | false =>
    constructor
    · rw [Compiler.inlineRun, hformula]
      exact Inline.legible_text t (Mark.active Mark.all a) a.link
    · simpa [Compiler.content, hformula] using Inline.legible_lineRuns a t

/-- An object is legible if it is no formula or its formula is. -/
theorem legible_embed {members : List (Text × Json)} {a : Attributes}
    (h : ∀ source, (Inline.markup (Formula.renderSized c.toRenderer a.size source)
      (Mark.active Mark.styling a)).Legible) : Legible c ⟨.embed members, a⟩ := by
  intro node hnode
  unfold Compiler.embed? at hnode
  dsimp only at hnode
  split_ifs at hnode
  · cases hnode
    trivial
  · cases hnode
    exact h _
  · simp at hnode

theorem legible_item {d : Insertion} (h : d.Legible c) : ∀ i ∈ item c d, i.Legible := by
  obtain ⟨insert, a⟩ := d
  cases insert with
  | text t => simpa [item] using h.1
  | embed members => simp [item]

theorem legible_flow {d : Insertion} (h : d.Legible c) : ∀ i ∈ flow c d, i.Legible := by
  obtain ⟨insert, a⟩ := d
  cases insert with
  | text t => exact h.2
  | embed members => simp [flow]

/-- The block of a text is legible if its content is. -/
theorem legible_blockNode {t : Text} {a : Attributes} (h : ∀ i ∈ c.content t a, i.Legible) :
    (blockNode c t a).Legible := by
  have hblock : ((Compiler.block? a (c.content t a)).getD (.paragraph (c.content t a))).Legible := by
    unfold Compiler.block?
    split
    · exact h
    · split_ifs <;> exact h
  unfold blockNode
  cases a.align with
  | none => exact hblock
  | some alignment => exact hblock

theorem legible_ownNodes {d : Insertion} (h : d.Legible c) :
    ∀ node ∈ ownNodes c d, node.Legible := by
  obtain ⟨insert, a⟩ := d
  cases insert with
  | text t => simpa [ownNodes] using legible_blockNode h.2
  | embed members =>
    intro node hnode
    exact h node (by simpa [ownNodes] using hnode)

theorem legible_paragraphOf {children : List Inline} (h : ∀ i ∈ children, i.Legible) :
    ∀ node ∈ paragraphOf children, node.Legible := by
  cases children with
  | nil => simp [paragraphOf]
  | cons i is => simpa [paragraphOf, Node.Legible] using h

/-- The nodes of a run of legible insertions are legible. -/
theorem legible_runNodes {run : List Insertion} (hrun : IsRun run) (h : ∀ d ∈ run, d.Legible c) :
    ∀ node ∈ runNodes c run, node.Legible := by
  cases hrun with
  | items hne hkind =>
    rw [runNodes_items hne hkind]
    intro node hnode
    rw [List.mem_singleton.mp hnode]
    intro children hchildren
    obtain ⟨d, hd, rfl⟩ := List.mem_map.mp hchildren
    exact legible_item (h d hd)
  | plain hne hplain =>
    rw [runNodes_plain hplain]
    apply legible_paragraphOf
    intro i hi
    obtain ⟨d, hd, hi⟩ := List.mem_flatMap.mp hi
    exact legible_flow (h d hd) i hi
  | own hkind hplain =>
    rw [runNodes_own hkind hplain]
    exact legible_ownNodes (h _ List.mem_cons_self)

/-- The nodes of legible insertions are legible. -/
theorem legible_grouped {ds : List Insertion} (h : ∀ d ∈ ds, d.Legible c) :
    ∀ node ∈ grouped c ds, node.Legible := by
  intro node hnode
  obtain ⟨run, hrun, hnode⟩ := List.mem_flatMap.mp hnode
  have hlegible : ∀ d ∈ run, d.Legible c := fun d hd => h d (mem_of_mem_splitBy hrun hd)
  exact legible_runNodes (isRun_of_mem_splitBy hrun) hlegible node hnode

/-! ### Formulas -/

section Bundled

variable {r : Formula.Renderer} (hr : r.typesetter = Latex.typesetter)

include hr

/-- A formula in a font size is legible. -/
theorem legible_renderSized (size : Option Double) (source : Text) (marks : List Mark) :
    (Inline.markup (Formula.renderSized r size source) marks).Legible := by
  obtain ⟨m, hreads, hm⟩ := (Formula.isElement_renderSized hr size source).reads
  obtain ⟨node, hnode, hinner⟩ := Markup.ofText_of_reads hreads (by simpa using hm)
  exact Inline.legible_markup hnode hinner marks

/-- A text with formulas in it is legible. -/
theorem legible_renderText (t : Text) (marks : List Mark) :
    (Inline.markup (Formula.renderText r t) marks).Legible := by
  obtain ⟨nodes, hreads, hnodes⟩ := Formula.reads_renderText hr t
  obtain ⟨node, hnode, hinner⟩ := Markup.ofText_of_reads hreads hnodes
  exact Inline.legible_markup hnode hinner marks

end Bundled

/-- With the typesetter of this library, every insertion is legible. -/
theorem legible (hc : c.typesetter = Latex.typesetter) (d : Insertion) : d.Legible c := by
  obtain ⟨insert, a⟩ := d
  cases insert with
  | text t =>
    refine legible_text fun _ => ?_
    unfold Compiler.formulaRun
    split
    · exact legible_renderText hc t []
    · exact legible_renderSized hc none t []
  | embed members => exact legible_embed fun source => legible_renderSized hc a.size source _

/-! ### Images -/

/-- Whether an insertion shows an image. -/
def showsImage : Insertion → Bool
  | ⟨.text _, _⟩ => false
  | ⟨.embed members, _⟩ => hasMember "image" members

theorem showsImage_of_isPlain {d : Insertion} (h : d.isPlain = true) : d.showsImage = false := by
  obtain ⟨insert, a⟩ := d
  cases insert with
  | text t => rfl
  | embed members => cases h

theorem showsImage_of_listKind? {d : Insertion} {kind : ListKind} (h : d.listKind? = some kind) :
    d.showsImage = false := by
  obtain ⟨insert, a⟩ := d
  cases insert with
  | text t => rfl
  | embed members => cases h

theorem showsImage_blockNode (t : Text) (a : Attributes) :
    (blockNode c t a).showsImage = false := by
  have hblock : ((Compiler.block? a (c.content t a)).getD
      (.paragraph (c.content t a))).showsImage = false := by
    unfold Compiler.block?
    split
    · rfl
    · split_ifs <;> rfl
  unfold blockNode
  cases a.align with
  | none => exact hblock
  | some alignment => exact hblock

theorem showsImage_ownNodes (c : Compiler) (d : Insertion) :
    (ownNodes c d).any Node.showsImage = d.showsImage := by
  obtain ⟨insert, a⟩ := d
  cases insert with
  | text t => rw [ownNodes, List.any_cons, showsImage_blockNode]; rfl
  | embed members =>
    unfold ownNodes Compiler.embed? showsImage hasMember
    dsimp only
    split_ifs with himage hformula
    · simp [Node.showsImage, himage]
    · simp [Node.showsImage, himage]
    · simp [himage]

theorem showsImage_runNodes {run : List Insertion} (hrun : IsRun run) :
    (runNodes c run).any Node.showsImage = run.any showsImage := by
  cases hrun with
  | items hne hkind =>
    have hnone : run.any showsImage = false :=
      List.any_eq_false.mpr fun d hd => by simp [showsImage_of_listKind? (hkind d hd)]
    rw [runNodes_items hne hkind, hnone]
    rfl
  | plain hne hplain =>
    have hnone : run.any showsImage = false :=
      List.any_eq_false.mpr fun d hd => by simp [showsImage_of_isPlain (hplain d hd)]
    rw [runNodes_plain hplain, hnone]
    cases run.flatMap (flow c) <;> rfl
  | own hkind hplain =>
    rw [runNodes_own hkind hplain, showsImage_ownNodes]
    simp

/-- Compiled nodes show an image exactly if an insertion does. -/
theorem showsImage_grouped (c : Compiler) (ds : List Insertion) :
    (grouped c ds).any Node.showsImage = ds.any showsImage := by
  have hflat := List.flatten_splitBy sameRun ds
  calc (grouped c ds).any Node.showsImage
      = (ds.splitBy sameRun).any fun run => (runNodes c run).any Node.showsImage := List.any_flatMap
    _ = (ds.splitBy sameRun).any fun run => run.any showsImage := by
        rw [Bool.eq_iff_iff, List.any_eq_true, List.any_eq_true]
        refine exists_congr fun run => and_congr_right fun hrun => ?_
        rw [showsImage_runNodes (isRun_of_mem_splitBy hrun)]
    _ = (ds.splitBy sameRun).flatten.any showsImage := List.any_flatten.symm
    _ = ds.any showsImage := by rw [hflat]

end Insertion

/-! ### Documents -/

/-- A document of legible insertions is compiled, and its nodes are legible.  They show an image exactly
if the document does, and have a tree of the vocabulary that shows their texts as far as the sizes of
images fit. -/
theorem Document.Convertible.exists_page {c : Compiler} {doc : Document} (h : doc.Convertible)
    (hlegible : ∀ d ∈ Insertion.shown doc.ops, d.Legible c) (settings : Settings) :
    ∃ nodes, c.compile doc = .ok nodes ∧ (∀ node ∈ nodes, node.Legible) ∧
      nodes.any Node.showsImage = (Insertion.shown doc.ops).any Insertion.showsImage ∧
      ((nodes.any Node.showsImage = true → settings.image.Fits) →
        ∃ page, previewElement settings nodes = .ok page ∧ page.Inner ∧
          page.shown = (Insertion.grouped c (Insertion.shown doc.ops)).flatMap Node.shown) := by
  have hcompile : c.compile doc = .ok (Insertion.grouped c (Insertion.shown doc.ops)) :=
    Compiler.compileFrom_grouped .idle h
  have hnodes := Insertion.legible_grouped hlegible
  exact ⟨_, hcompile, hnodes, Insertion.showsImage_grouped c _,
    previewElement_legible settings hnodes⟩

end DeltaPreview
