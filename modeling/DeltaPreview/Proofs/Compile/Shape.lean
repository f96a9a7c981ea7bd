import DeltaPreview.Proofs.Compile.Lines
import DeltaPreview.Proofs.Compile.Runs

/-!
# The shape of compiled documents

What the compiler gives has one shape for every document (`Document.Shaped`).  Each node is canonical by
itself (`Node.Canonical`): the marks of its runs are in order, its texts are cut into lines, its lists
have one run for every item.  And the nodes are put together as they should be: paragraphs are not empty
and not next to each other, and a list goes on in the next node only if an empty text ended it.

The nodes of a run are canonical (`canonical_runNodes`), and the rest follows from what stands between
two neighbouring nodes (`Insertion.paragraphs_apart`, `Insertion.lists_apart`).
-/

namespace DeltaPreview

namespace Inline

/-- A run whose marks are in order, none twice, with a link exactly if there is a target.  Markup has no
marks. -/
def Styled : Inline → Prop
  | text _ marks link => marks.Sublist Mark.all ∧ (Mark.link ∈ marks ↔ link.isSome = true)
  | markup _ marks => marks = []
  | lineBreak => True

/-- A run that is no text, or a part of one line. -/
def InLine : Inline → Prop
  | text t _ _ => t ≠ [] ∧ Text.lineEnd ∉ t
  | markup _ _ => True
  | lineBreak => True

end Inline

namespace Node

/-- A node that holds runs. -/
def IsBlock : Node → Prop
  | paragraph _ => True
  | heading _ _ => True
  | blockquote _ => True
  | codeBlock _ => True
  | _ => False

/-- A node of the shape that the compiler gives. -/
def Canonical : Node → Prop
  | paragraph children => ∀ i ∈ children, i.Styled ∧ i.InLine
  | heading _ children => ∀ i ∈ children, i.Styled ∧ i.InLine
  | blockquote children => ∀ i ∈ children, i.Styled ∧ i.InLine
  | codeBlock children => ∀ i ∈ children, i.Styled ∧ i.InLine
  | list _ items => items ≠ [] ∧ ∀ item ∈ items, ∃ i, item = [i] ∧ i ≠ .lineBreak ∧ i.Styled
  | image _ => True
  | formula _ _ marks => marks.Sublist Mark.styling
  | align _ child => child.IsBlock ∧ child.Canonical
  | empty _ _ => False

end Node

/-- The shape of the nodes that a document is compiled to. -/
structure Document.Shaped (c : Compiler) (doc : Document) (nodes : List Node) : Prop where
  canonical : ∀ node ∈ nodes, node.Canonical
  noEmptyParagraph : Node.paragraph [] ∉ nodes
  paragraphsApart : ∀ before after children others,
    nodes ≠ before ++ .paragraph children :: .paragraph others :: after
  /-- Two neighbouring lists of one kind are those of two parts of the document, and the operations
  between these parts display nothing, apart from at least one empty plain text. -/
  listsApart : ∀ before after kind items others,
    nodes = before ++ .list kind items :: .list kind others :: after →
      ∃ first between last, doc.ops = first ++ (between ++ last) ∧
        c.compileFrom .idle first = .ok (before ++ [.list kind items]) ∧
        c.compileFrom .idle last = .ok (.list kind others :: after) ∧
        (∃ op ∈ between, ∃ a, op.InsertsPlain [] a) ∧
        ∀ op ∈ between, (∃ a, op.InsertsPlain [] a) ∨ Insertion.shown [op] = []

/-! ### Runs of text -/

namespace Mark

theorem active_sublist (marks : List Mark) (a : Attributes) : (active marks a).Sublist marks :=
  List.filter_sublist

theorem link_mem_active (a : Attributes) : Mark.link ∈ active all a ↔ a.link.isSome = true := by
  have hall : Mark.link ∈ all := by decide
  unfold active
  rw [List.mem_filter]
  exact and_iff_right hall

end Mark

namespace Compiler

variable (c : Compiler) (t : Text) (a : Attributes)

theorem styled_textRun : (textRun t a).Styled := ⟨Mark.active_sublist _ _, Mark.link_mem_active a⟩

/-- The run of a list item is a text or markup. -/
theorem styled_inlineRun : c.inlineRun t a ≠ .lineBreak ∧ (c.inlineRun t a).Styled := by
  unfold inlineRun
  split
  · exact ⟨Inline.noConfusion, rfl⟩
  · exact ⟨Inline.noConfusion, styled_textRun t a⟩

/-- The content of a text in a block is cut into lines. -/
theorem inLine_content : ∀ i ∈ c.content t a, i.Styled ∧ i.InLine := by
  intro i hi
  unfold content at hi
  split at hi
  · rw [List.mem_singleton.mp hi]
    exact ⟨rfl, trivial⟩
  · rcases mem_lineRuns a hi with rfl | ⟨l, hne, hline, rfl⟩
    · exact ⟨trivial, trivial⟩
    · exact ⟨styled_textRun l a, hne, hline⟩

end Compiler

/-! ### Nodes -/

namespace Insertion

variable {c : Compiler}

theorem inLine_flow (d : Insertion) : ∀ i ∈ flow c d, i.Styled ∧ i.InLine := by
  obtain ⟨insert, a⟩ := d
  cases insert with
  | text t => exact c.inLine_content t a
  | embed members => exact fun _ hi => absurd hi List.not_mem_nil

theorem canonical_block? {t : Text} {a : Attributes} {block : Node}
    (h : Compiler.block? a (c.content t a) = some block) : block.IsBlock ∧ block.Canonical := by
  have hcontent := c.inLine_content t a
  rcases Compiler.block?_eq_some h with ⟨level, rfl⟩ | rfl | rfl <;> exact ⟨trivial, hcontent⟩

theorem canonical_ownNodes {d : Insertion} (hkind : d.listKind? = none) (hplain : d.isPlain = false) :
    ∀ node ∈ ownNodes c d, node.Canonical := by
  obtain ⟨insert, a⟩ := d
  intro node hnode
  cases insert with
  | embed members =>
    rw [ownNodes, Option.mem_toList] at hnode
    rcases Compiler.embed?_eq_some hnode with ⟨src, rfl⟩ | ⟨markup, rfl⟩
    · trivial
    · exact Mark.active_sublist _ _
  | text t =>
    rw [ownNodes, List.mem_singleton] at hnode
    subst hnode
    rcases blockNode_cases (c := c) hkind hplain with hblock | ⟨alignment, haligned⟩
    · exact (canonical_block? hblock).2
    · rw [haligned]
      cases hblock : Compiler.block? a (c.content t a) with
      | some block => exact canonical_block? hblock
      | none => exact ⟨trivial, c.inLine_content t a⟩

/-- A list has an item, and every item one run. -/
theorem canonical_items {ds : List Insertion} {kind : ListKind} (hne : ds ≠ [])
    (hkind : ∀ d ∈ ds, d.listKind? = some kind) : (Node.list kind (ds.map (item c))).Canonical := by
  refine ⟨mt List.map_eq_nil_iff.mp hne, fun children hchildren => ?_⟩
  obtain ⟨⟨insert, a⟩, hd, rfl⟩ := List.mem_map.mp hchildren
  cases insert with
  | text t => exact ⟨c.inlineRun t a, rfl, c.styled_inlineRun t a⟩
  | embed members => cases hkind _ hd

/-- The node of a run is canonical, and no empty paragraph. -/
theorem canonical_runNodes {run : List Insertion} (h : IsRun run) :
    ∀ node ∈ runNodes c run, node.Canonical ∧ node ≠ .paragraph [] := by
  intro node hnode
  cases h with
  | items hne hkind =>
    rw [runNodes_items hne hkind, List.mem_singleton] at hnode
    subst hnode
    exact ⟨canonical_items hne hkind, Node.noConfusion⟩
  | plain hne hplain =>
    rw [runNodes_plain hplain] at hnode
    cases hchildren : run.flatMap (flow c) with
    | nil =>
      rw [hchildren] at hnode
      exact absurd hnode List.not_mem_nil
    | cons i is =>
      rw [hchildren] at hnode
      obtain rfl : node = .paragraph (i :: is) := List.mem_singleton.mp hnode
      refine ⟨fun j hj => ?_, fun heq => List.cons_ne_nil i is (Node.paragraph.inj heq)⟩
      rw [← hchildren] at hj
      obtain ⟨d, -, hj⟩ := List.mem_flatMap.mp hj
      exact inLine_flow d j hj
  | own hkind hplain =>
    rw [runNodes_own hkind hplain] at hnode
    refine ⟨canonical_ownNodes hkind hplain node hnode, ?_⟩
    rintro rfl
    exact standsAlone_of_own hkind hplain _ hnode

theorem canonical_grouped (ds : List Insertion) :
    ∀ node ∈ grouped c ds, node.Canonical ∧ node ≠ .paragraph [] := by
  intro node hnode
  obtain ⟨run, hrun, hnode⟩ := List.mem_flatMap.mp hnode
  exact canonical_runNodes (isRun_of_mem_splitBy hrun) node hnode

/-! ### Operations between lists -/

theorem displays_of_mem_shown {ops : List Operation} : ∀ d ∈ shown ops, d.displays = true :=
  fun _ hd => (List.mem_filter.mp hd).2

/-- A cut through what a document displays is a cut through its operations. -/
theorem exists_of_shown_eq_append {ops : List Operation} {ds es : List Insertion}
    (h : shown ops = ds ++ es) :
    ∃ first last, ops = first ++ last ∧ shown first = ds ∧ shown last = es := by
  unfold shown at h
  obtain ⟨_, _, hinsertions, rfl, rfl⟩ := List.filter_eq_append_iff.mp h
  obtain ⟨first, last, hops, rfl, rfl⟩ := List.filterMap_eq_append_iff.mp hinsertions
  exact ⟨first, last, hops, rfl, rfl⟩

theorem ofOperation?_eq_some {op : Operation} {d : Insertion} (h : ofOperation? op = some d) :
    op.insert = some d.insert ∧ Compiler.attributes op = .ok d.attributes := by
  unfold ofOperation? at h
  split at h
  next insert a hinsert ha =>
    cases h
    exact ⟨hinsert, ha⟩
  next => cases h

/-- An operation displays at most what it inserts. -/
theorem mem_shown_singleton {op : Operation} {d : Insertion} :
    d ∈ shown [op] ↔ ofOperation? op = some d ∧ d.displays = true := by
  simp [shown]

/-- A plain insertion without content is an empty text. -/
theorem insertsPlain_of_flow {op : Operation} {d : Insertion} (h : d ∈ shown [op])
    (hplain : d.isPlain = true) (hflow : flow c d = []) : ∃ a, op.InsertsPlain [] a := by
  obtain ⟨hinsert, ha⟩ := ofOperation?_eq_some (mem_shown_singleton.mp h).1
  obtain ⟨insert, a⟩ := d
  cases insert with
  | embed members => cases hplain
  | text t =>
    obtain ⟨hformula, rfl⟩ := (Compiler.content_eq_nil_iff a).mp hflow
    have hnot : a.formula = false := (Bool.or_eq_false_iff.mp hformula).1
    exact ⟨a, hinsert, ha, hplain, hnot⟩

/-- What a document displays is displayed by its operations. -/
theorem mem_shown {ops : List Operation} {d : Insertion} :
    d ∈ shown ops ↔ ∃ op ∈ ops, d ∈ shown [op] := by
  rw [shown, List.mem_filter, List.mem_filterMap]
  constructor
  · rintro ⟨⟨op, hop, hd⟩, hdisplays⟩
    exact ⟨op, hop, mem_shown_singleton.mpr ⟨hd, hdisplays⟩⟩
  · rintro ⟨op, hop, hd⟩
    obtain ⟨hinsertion, hdisplays⟩ := mem_shown_singleton.mp hd
    exact ⟨⟨op, hop, hinsertion⟩, hdisplays⟩

/-- Operations that display plain texts without content are empty texts, as far as they display
something. -/
theorem insertsPlain_of_shown {ops : List Operation} (hne : shown ops ≠ [])
    (h : ∀ d ∈ shown ops, d.isPlain = true ∧ flow c d = []) :
    (∃ op ∈ ops, ∃ a, op.InsertsPlain [] a) ∧
      ∀ op ∈ ops, (∃ a, op.InsertsPlain [] a) ∨ shown [op] = [] := by
  have hplain {op : Operation} {d : Insertion} (hop : op ∈ ops) (hd : d ∈ shown [op]) :
      ∃ a, op.InsertsPlain [] a := by
    obtain ⟨hplain, hflow⟩ := h d (mem_shown.mpr ⟨op, hop, hd⟩)
    exact insertsPlain_of_flow hd hplain hflow
  constructor
  · obtain ⟨d, hd⟩ := List.exists_mem_of_ne_nil _ hne
    obtain ⟨op, hop, hd⟩ := mem_shown.mp hd
    exact ⟨op, hop, hplain hop hd⟩
  · intro op hop
    by_cases hshown : shown [op] = []
    · exact .inr hshown
    · obtain ⟨d, hd⟩ := List.exists_mem_of_ne_nil _ hshown
      exact .inl (hplain hop hd)

end Insertion

/-! ### Documents -/

namespace Compiler

open Insertion

/-- What is compiled has the shape, whatever the typesetter is and whether or not formulas are looked
for. -/
theorem compile_shaped (c : Compiler) (doc : Document) (h : doc.Convertible) :
    ∃ nodes, c.compile doc = .ok nodes ∧ doc.Shaped c nodes := by
  have hpart {ops : List Operation} (hops : ∀ op ∈ ops, op ∈ doc.ops) :
      c.compileFrom .idle ops = .ok (grouped c (shown ops)) :=
    compileFrom_grouped .idle fun op hop => h op (hops op hop)
  refine ⟨grouped c (shown doc.ops), hpart fun _ hop => hop, ?_, ?_, ?_, ?_⟩
  · intro node hnode
    exact (canonical_grouped _ node hnode).1
  · intro hempty
    exact (canonical_grouped _ _ hempty).2 rfl
  · intro before after children others
    exact paragraphs_apart displays_of_mem_shown before after children others
  · intro before after kind items others hnodes
    obtain ⟨ds, es, fs, hshown, hds, hfs, hne, hempty⟩ := lists_apart displays_of_mem_shown hnodes
    obtain ⟨first, rest, hops, rfl, hrest⟩ := exists_of_shown_eq_append hshown
    obtain ⟨between, last, rfl, rfl, rfl⟩ := exists_of_shown_eq_append hrest
    refine ⟨first, between, last, hops, ?_, ?_, insertsPlain_of_shown hne hempty⟩
    · rw [hpart (by rw [hops]; exact fun _ hop => List.mem_append_left _ hop), hds]
    · rw [hpart (by rw [hops]; exact fun _ hop => List.mem_append_right _ (List.mem_append_right _ hop)),
        hfs]

/-- Two lists that an empty text and a deletion keep apart, and an aligned text with a line end. -/
theorem compile_shaped_sample :
    let bullet := Json.ofMembers [("list", Json.ofString "bullet")]
    let centered := Json.ofMembers [("align", Json.ofString "center"), ("bold", .bool true)]
    let insert (i : Insert) (a : Option Json) : Operation := ⟨some i, none, none, a, []⟩
    let doc : Document := ⟨[insert (.text "a") bullet, insert (.text "") none,
      ⟨none, some (.int 1), none, none, []⟩, insert (.text "b") bullet,
      insert (.text "c\n") centered], []⟩
    let c : Compiler := ⟨⟨fun source _ => .ok source, Text.ofString "#f00"⟩, true⟩
    let run (s : String) (marks : List Mark) : Inline := .text s marks none
    doc.Convertible ∧ ∃ nodes, c.compile doc = .ok nodes ∧ doc.Shaped c nodes ∧
      nodes = [.list .bullet [[run "a" []]], .list .bullet [[run "b" []]],
        .align .center (.paragraph [run "c" [.bold], .lineBreak])] := by
  intro bullet centered insert doc c run
  have convertible : doc.Convertible := by
    intro op hop _
    simp only [doc, List.mem_cons, List.not_mem_nil, or_false] at hop
    rcases hop with rfl | rfl | rfl | rfl | rfl <;> exact ⟨_, rfl⟩
  obtain ⟨nodes, hnodes, hshaped⟩ := compile_shaped c doc convertible
  have hcompiled : c.compile doc = .ok [.list .bullet [[run "a" []]], .list .bullet [[run "b" []]],
      .align .center (.paragraph [run "c" [.bold], .lineBreak])] := by rfl
  exact ⟨convertible, nodes, hnodes, hshaped, Except.ok.inj (hnodes.symm.trans hcompiled)⟩

end Compiler

end DeltaPreview
