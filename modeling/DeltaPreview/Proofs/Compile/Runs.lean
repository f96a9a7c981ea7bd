import DeltaPreview.Proofs.Compile.Grouping

/-!
# Neighbouring nodes

The insertions of a document are cut into maximal runs.  A run consists of the items of one list, of plain
texts, or of one insertion that stands by itself (`IsRun`), and it has at most one node (`node?`).  So
two neighbouring nodes come from two runs such that only runs without a node lie between them
(`exists_neighbours`).

A run without a node consists of plain texts without content, and two plain runs are never neighbours.
From this follow the main statements: no paragraph is next to a paragraph (`paragraphs_apart`), and
between two neighbouring lists of one kind there are plain texts without content (`lists_apart`).
-/

namespace DeltaPreview

/-- A node that is neither a list nor a paragraph. -/
def Node.StandsAlone : Node → Prop
  | .list _ _ => False
  | .paragraph _ => False
  | _ => True

namespace Compiler

/-- A block that attributes ask for. -/
theorem block?_eq_some {a : Attributes} {children : List Inline} {node : Node}
    (h : block? a children = some node) :
    (∃ level, node = .heading level children) ∨ node = .blockquote children ∨
      node = .codeBlock children := by
  unfold block? at h
  cases hheader : a.header with
  | some level =>
    rw [hheader] at h
    exact .inl ⟨level, (Option.some.inj h).symm⟩
  | none =>
    rw [hheader] at h
    by_cases hquote : a.blockquote = true
    · rw [if_pos hquote] at h
      exact .inr (.inl (Option.some.inj h).symm)
    · by_cases hcode : a.codeBlock = true
      · rw [if_neg hquote, if_pos hcode] at h
        exact .inr (.inr (Option.some.inj h).symm)
      · rw [if_neg hquote, if_neg hcode] at h
        cases h

/-- The node of an embedded object is an image or a formula. -/
theorem embed?_eq_some {c : Compiler} {members : List (Text × Json)} {a : Attributes} {node : Node}
    (h : c.embed? members a = some node) :
    (∃ src, node = .image src) ∨
      ∃ markup, node = .formula markup a.size (Mark.active Mark.styling a) := by
  unfold embed? at h
  dsimp only at h
  split at h
  · exact .inl ⟨_, (Option.some.inj h).symm⟩
  · split at h
    · exact .inr ⟨_, (Option.some.inj h).symm⟩
    · cases h

end Compiler

namespace Insertion

variable {c : Compiler}

/-- The block of a text that is not plain is no plain paragraph: it is a heading, a quote or code, or it
is aligned. -/
theorem blockNode_cases {t : Text} {a : Attributes} (hkind : a.listKind = none)
    (hplain : (⟨.text t, a⟩ : Insertion).isPlain = false) :
    Compiler.block? a (c.content t a) = some (blockNode c t a) ∨
      ∃ alignment, blockNode c t a =
        .align alignment ((Compiler.block? a (c.content t a)).getD (.paragraph (c.content t a))) := by
  unfold blockNode
  cases halign : a.align with
  | some alignment => exact .inr ⟨alignment, rfl⟩
  | none =>
    cases hblock : Compiler.block? a (c.content t a) with
    | some block => exact .inl rfl
    | none =>
      rw [(Compiler.isPlain_text_iff (c.content t a)).mpr ⟨hkind, hblock, halign⟩] at hplain
      cases hplain

theorem standsAlone_of_own {d : Insertion} (hkind : d.listKind? = none) (hplain : d.isPlain = false) :
    ∀ node ∈ ownNodes c d, node.StandsAlone := by
  obtain ⟨insert, a⟩ := d
  cases insert with
  | text t =>
    intro node hnode
    rw [ownNodes, List.mem_singleton] at hnode
    subst hnode
    rcases blockNode_cases (c := c) hkind hplain with hblock | ⟨alignment, haligned⟩
    · rcases Compiler.block?_eq_some hblock with ⟨level, h⟩ | h | h <;> rw [h] <;> trivial
    · rw [haligned]
      trivial
  | embed members =>
    intro node hnode
    rw [ownNodes, Option.mem_toList] at hnode
    rcases Compiler.embed?_eq_some hnode with ⟨src, rfl⟩ | ⟨markup, rfl⟩ <;> trivial

/-! ### Runs -/

/-- A run: the items of a list, plain texts, or an insertion by itself. -/
inductive IsRun : List Insertion → Prop
  | items {kind ds} : ds ≠ [] → (∀ d ∈ ds, d.listKind? = some kind) → IsRun ds
  | plain {ds} : ds ≠ [] → (∀ d ∈ ds, d.isPlain = true) → IsRun ds
  | own {d} : d.listKind? = none → d.isPlain = false → IsRun [d]

/-- What belongs with an item of a list is an item of a list of that kind. -/
theorem listKind?_of_sameRun {d e : Insertion} {kind : ListKind} (h : sameRun d e = true)
    (hd : d.listKind? = some kind) : e.listKind? = some kind := by
  have hkinds : (some kind == e.listKind?) = true := by
    simpa [sameRun, hd, isPlain_of_listKind? hd] using h
  exact (beq_iff_eq.mp hkinds).symm

/-- What belongs with a plain text is plain. -/
theorem isPlain_of_sameRun {d e : Insertion} (h : sameRun d e = true) (hd : d.isPlain = true) :
    e.isPlain = true := by
  simpa [sameRun, hd, listKind?_of_isPlain hd] using h

theorem isRun_of_mem_splitBy {ds run : List Insertion} (h : run ∈ ds.splitBy sameRun) : IsRun run := by
  have hne := List.ne_nil_of_mem_splitBy h
  have hchain := List.isChain_of_mem_splitBy h
  cases run with
  | nil => exact absurd rfl hne
  | cons d rest =>
    cases hkind : d.listKind? with
    | some kind =>
      refine .items hne (hchain.induction (fun e => e.listKind? = some kind) _ ?_ fun _ => hkind)
      intro e f hsame he
      exact listKind?_of_sameRun hsame he
    | none =>
      cases hplain : d.isPlain with
      | true =>
        refine .plain hne (hchain.induction (fun e => e.isPlain = true) _ ?_ fun _ => hplain)
        intro e f hsame he
        exact isPlain_of_sameRun hsame he
      | false =>
        -- Nothing belongs with `d`.
        cases rest with
        | nil => exact .own hkind hplain
        | cons e rest =>
          have hsame := (List.isChain_cons_cons.mp hchain).1
          simp [sameRun, hkind, hplain] at hsame

/-- The runs are made of the insertions, and of nothing else. -/
theorem mem_of_mem_splitBy {ds run : List Insertion} (hrun : run ∈ ds.splitBy sameRun) {d : Insertion}
    (hd : d ∈ run) : d ∈ ds := by
  rw [← List.flatten_splitBy sameRun ds]
  exact List.mem_flatten.mpr ⟨run, hrun, hd⟩

/-- The node of a run, if it has one. -/
def node? (c : Compiler) (run : List Insertion) : Option Node := (runNodes c run).head?

theorem runNodes_own {d : Insertion} (hkind : d.listKind? = none) (hplain : d.isPlain = false) :
    runNodes c [d] = ownNodes c d := by
  simp [runNodes, hkind, hplain]

/-- A run has no other node. -/
theorem IsRun.runNodes_eq {run : List Insertion} (h : IsRun run) :
    runNodes c run = (node? c run).toList := by
  unfold node?
  cases h with
  | items hne hkind =>
    rw [runNodes_items hne hkind]
    rfl
  | plain hne hplain =>
    rw [runNodes_plain hplain]
    cases run.flatMap (flow c) <;> rfl
  | @own d hkind hplain =>
    rw [runNodes_own hkind hplain]
    obtain ⟨insert, a⟩ := d
    cases insert with
    | text t => rfl
    | embed members =>
      rw [ownNodes]
      cases c.embed? members a <;> rfl

theorem grouped_eq_filterMap (c : Compiler) (ds : List Insertion) :
    grouped c ds = (ds.splitBy sameRun).filterMap (node? c) := by
  rw [grouped, List.filterMap_eq_flatMap_toList]
  exact List.flatMap_congr fun run hrun => (isRun_of_mem_splitBy hrun).runNodes_eq

/-- Only the items of a list have a list as their node. -/
theorem IsRun.items_of_node? {run : List Insertion} (h : IsRun run) {kind : ListKind}
    {items : List (List Inline)} (hnode : node? c run = some (.list kind items)) :
    ∀ d ∈ run, d.listKind? = some kind := by
  have hmem : Node.list kind items ∈ runNodes c run := List.mem_of_head? hnode
  cases h with
  | @items k _ hne hkind =>
    rw [runNodes_items hne hkind, List.mem_singleton] at hmem
    cases hmem
    exact hkind
  | plain hne hplain =>
    rw [runNodes_plain hplain] at hmem
    cases hchildren : run.flatMap (flow c) with
    | nil =>
      rw [hchildren] at hmem
      exact absurd hmem List.not_mem_nil
    | cons i is =>
      rw [hchildren] at hmem
      cases List.mem_singleton.mp hmem
  | own hkind hplain =>
    rw [runNodes_own hkind hplain] at hmem
    exact (standsAlone_of_own hkind hplain _ hmem).elim

/-- Only plain texts have a paragraph as their node. -/
theorem IsRun.plain_of_node? {run : List Insertion} (h : IsRun run) {children : List Inline}
    (hnode : node? c run = some (.paragraph children)) : ∀ d ∈ run, d.isPlain = true := by
  have hmem : Node.paragraph children ∈ runNodes c run := List.mem_of_head? hnode
  cases h with
  | items hne hkind =>
    rw [runNodes_items hne hkind] at hmem
    cases List.mem_singleton.mp hmem
  | plain hne hplain => exact hplain
  | own hkind hplain =>
    rw [runNodes_own hkind hplain] at hmem
    exact (standsAlone_of_own hkind hplain _ hmem).elim

/-- A run that displays something and has no node consists of plain texts without content. -/
theorem IsRun.empty_of_node? {run : List Insertion} (h : IsRun run)
    (hdisplays : ∀ d ∈ run, d.displays = true) (hnode : node? c run = none) :
    ∀ d ∈ run, d.isPlain = true ∧ flow c d = [] := by
  have hnil : runNodes c run = [] := List.head?_eq_none_iff.mp hnode
  cases h with
  | items hne hkind =>
    rw [runNodes_items hne hkind] at hnil
    cases hnil
  | plain hne hplain =>
    rw [runNodes_plain hplain] at hnil
    have hflow : run.flatMap (flow c) = [] := by
      cases hchildren : run.flatMap (flow c) with
      | nil => rfl
      | cons i is =>
        rw [hchildren] at hnil
        cases hnil
    intro d hd
    exact ⟨hplain d hd, List.flatMap_eq_nil_iff.mp hflow d hd⟩
  | @own d hkind hplain =>
    rw [runNodes_own hkind hplain] at hnil
    obtain ⟨insert, a⟩ := d
    cases insert with
    | text t => cases hnil
    | embed members =>
      have hsome := Compiler.embed?_isSome (c := c) members a
      rw [ownNodes, Option.toList_eq_nil_iff] at hnil
      rw [hnil, hdisplays _ List.mem_cons_self] at hsome
      cases hsome

/-! ### Neighbouring runs -/

/-- Two runs that follow each other: the last insertion of one does not belong with the first of the
other. -/
def Apart (r s : List Insertion) : Prop :=
  ∃ (hr : r ≠ []) (hs : s ≠ []), sameRun (r.getLast hr) (s.head hs) = false

theorem Apart.not_plain {r s : List Insertion} (h : Apart r s) (hr : ∀ d ∈ r, d.isPlain = true) :
    ¬ ∀ d ∈ s, d.isPlain = true := by
  obtain ⟨hrne, hsne, hapart⟩ := h
  intro hs
  simp [sameRun, hr _ (List.getLast_mem hrne), hs _ (List.head_mem hsne)] at hapart

theorem Apart.not_items {r s : List Insertion} {kind : ListKind} (h : Apart r s)
    (hr : ∀ d ∈ r, d.listKind? = some kind) : ¬ ∀ d ∈ s, d.listKind? = some kind := by
  obtain ⟨hrne, hsne, hapart⟩ := h
  intro hs
  simp [sameRun, hr _ (List.getLast_mem hrne), hs _ (List.head_mem hsne)] at hapart

/-- Some neighbouring runs of a document are the runs of their insertions. -/
theorem grouped_flatten {ds : List Insertion} {first runs last : List (List Insertion)}
    (h : ds.splitBy sameRun = first ++ (runs ++ last)) :
    grouped c runs.flatten = runs.filterMap (node? c) := by
  have hmem {run : List Insertion} (hrun : run ∈ runs) : run ∈ ds.splitBy sameRun := by
    rw [h]
    exact List.mem_append_right _ (List.mem_append_left _ hrun)
  have hchain := List.isChain_getLast_head_splitBy sameRun ds
  rw [h] at hchain
  have hsplit : runs.flatten.splitBy sameRun = runs := by
    apply List.splitBy_flatten
    · intro hnil
      exact List.nil_notMem_splitBy sameRun ds (hmem hnil)
    · intro run hrun
      exact List.isChain_of_mem_splitBy (hmem hrun)
    · exact hchain.right_of_append.left_of_append
  rw [grouped_eq_filterMap, hsplit]

/-- Two neighbouring nodes come from two runs, and the runs between these have no node. -/
theorem exists_neighbours {ds : List Insertion} {before after : List Node} {m n : Node}
    (h : grouped c ds = before ++ m :: n :: after) :
    ∃ first r between s last, ds.splitBy sameRun = first ++ r :: (between ++ s :: last) ∧
      first.filterMap (node? c) = before ∧ node? c r = some m ∧
      (∀ run ∈ between, node? c run = none) ∧ node? c s = some n ∧
      last.filterMap (node? c) = after := by
  rw [grouped_eq_filterMap] at h
  obtain ⟨first, rest, hruns, hfirst, hrest⟩ := List.filterMap_eq_append_iff.mp h
  obtain ⟨skipped, r, rest, rfl, hskipped, hr, hrest⟩ := List.filterMap_eq_cons_iff.mp hrest
  obtain ⟨between, s, last, rfl, hbetween, hs, hlast⟩ := List.filterMap_eq_cons_iff.mp hrest
  refine ⟨first ++ skipped, r, between, s, last, ?_, ?_, hr, hbetween, hs, hlast⟩
  · rw [hruns, List.append_assoc]
  · rw [List.filterMap_append, hfirst, List.filterMap_eq_nil_iff.mpr hskipped, List.append_nil]

section Displayed

variable {ds : List Insertion} (hdisplays : ∀ d ∈ ds, d.displays = true)

include hdisplays

/-- A run of displayed insertions that has no node consists of plain texts without content. -/
theorem empty_of_mem_splitBy {run : List Insertion} (hrun : run ∈ ds.splitBy sameRun)
    (hnode : node? c run = none) : ∀ d ∈ run, d.isPlain = true ∧ flow c d = [] := by
  apply (isRun_of_mem_splitBy hrun).empty_of_node? _ hnode
  intro d hd
  exact hdisplays d (mem_of_mem_splitBy hrun hd)

/-- No two paragraphs are neighbours. -/
theorem paragraphs_apart (before after : List Node) (children others : List Inline) :
    grouped c ds ≠ before ++ .paragraph children :: .paragraph others :: after := by
  intro h
  obtain ⟨first, r, between, s, last, hruns, -, hr, hbetween, hs, -⟩ := exists_neighbours h
  have hchain := List.isChain_getLast_head_splitBy sameRun ds
  rw [hruns] at hchain
  have hmem {run : List Insertion} (hrun : run ∈ first ++ r :: (between ++ s :: last)) :
      run ∈ ds.splitBy sameRun := hruns ▸ hrun
  have hplain := (isRun_of_mem_splitBy (hmem (by simp))).plain_of_node? hr
  -- The next run is plain as well, be it without a node or that of the second paragraph.
  cases between with
  | nil =>
    have hapart : Apart r s := (List.isChain_append_cons_cons.mp hchain).2.1
    exact hapart.not_plain hplain ((isRun_of_mem_splitBy (hmem (by simp))).plain_of_node? hs)
  | cons run between =>
    have hapart : Apart r run := (List.isChain_append_cons_cons.mp hchain).2.1
    have hempty := empty_of_mem_splitBy hdisplays (hmem (by simp)) (hbetween run List.mem_cons_self)
    exact hapart.not_plain hplain fun d hd => (hempty d hd).1

/-- Two neighbouring lists of one kind are those of two parts of the document, and between these parts
there are plain texts without content, and nothing else. -/
theorem lists_apart {before after : List Node} {kind : ListKind} {items others : List (List Inline)}
    (h : grouped c ds = before ++ .list kind items :: .list kind others :: after) :
    ∃ first between last, ds = first ++ (between ++ last) ∧
      grouped c first = before ++ [.list kind items] ∧
      grouped c last = .list kind others :: after ∧ between ≠ [] ∧
      ∀ d ∈ between, d.isPlain = true ∧ flow c d = [] := by
  obtain ⟨first, r, between, s, last, hruns, hfirst, hr, hbetween, hs, hlast⟩ := exists_neighbours h
  have hchain := List.isChain_getLast_head_splitBy sameRun ds
  rw [hruns] at hchain
  have hmem {run : List Insertion} (hrun : run ∈ first ++ r :: (between ++ s :: last)) :
      run ∈ ds.splitBy sameRun := hruns ▸ hrun
  have hitems := (isRun_of_mem_splitBy (hmem (by simp))).items_of_node? hr
  refine ⟨(first ++ [r]).flatten, between.flatten, (s :: last).flatten, ?_, ?_, ?_, ?_, ?_⟩
  · rw [← List.flatten_append, ← List.flatten_append, ← List.flatten_splitBy sameRun ds, hruns]
    simp
  · have hbegin : ds.splitBy sameRun = [] ++ ((first ++ [r]) ++ (between ++ s :: last)) := by
      rw [hruns]
      simp
    rw [grouped_flatten hbegin]
    simp [hfirst, hr]
  · have hend : ds.splitBy sameRun = (first ++ r :: between) ++ ((s :: last) ++ []) := by
      rw [hruns]
      simp
    rw [grouped_flatten hend]
    simp [hs, hlast]
  · -- Without a run between them, the two lists would be one.
    intro hnil
    cases between with
    | nil =>
      have hapart : Apart r s := (List.isChain_append_cons_cons.mp hchain).2.1
      exact hapart.not_items hitems ((isRun_of_mem_splitBy (hmem (by simp))).items_of_node? hs)
    | cons run between =>
      have hne : run ≠ [] := List.ne_nil_of_mem_splitBy (hmem (by simp))
      exact hne (List.flatten_eq_nil_iff.mp hnil run List.mem_cons_self)
  · intro d hd
    obtain ⟨run, hrun, hd⟩ := List.mem_flatten.mp hd
    exact empty_of_mem_splitBy hdisplays (hmem (by simp [hrun])) (hbetween run hrun) d hd

end Displayed

end Insertion

end DeltaPreview
