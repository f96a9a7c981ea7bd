import DeltaPreview.Compile.Step
import DeltaPreview.Proofs.Result
import Mathlib.Data.List.SplitBy

/-!
# Compilation as grouping

What a document displays can be said without a pass over its operations: keep the insertions that
display something, cut them into maximal runs of neighbours that belong together, and give every run
its nodes (`Insertion.grouped`).  The main statement, `compile_eq_grouped`, is that the compiler
computes exactly this.

The argument is a simulation.  `Run.Holds` says which insertions an open run stands for; one
operation keeps the relation and emits the nodes of the runs that it closes (`step_grouped`), and the
whole pass follows by induction on the operations (`compileFrom_grouped`).
-/

namespace DeltaPreview

/-- An insertion with its attributes. -/
structure Insertion where
  insert : Insert
  attributes : Attributes
  deriving Repr

namespace Insertion

/-- The kind of the list that a text is an item of. -/
def listKind? : Insertion → Option ListKind
  | ⟨.text _, a⟩ => a.listKind
  | ⟨.embed _, _⟩ => none

/-- Whether an insertion is a text that neither a list nor a block of its own claims. -/
def isPlain : Insertion → Bool
  | ⟨.text _, a⟩ =>
    a.listKind.isNone && a.header.isNone && !a.blockquote && !a.codeBlock && a.align.isNone
  | ⟨.embed _, _⟩ => false

/-- Whether an embedded object has a member that counts as true. -/
def hasMember (name : String) (members : List (Text × Json)) : Bool :=
  ((Json.lookup (Text.ofString name) members).getD .null).truthy

/-- Whether an insertion displays something: a text always does, an object if it is an image or a
formula. -/
def displays : Insertion → Bool
  | ⟨.text _, _⟩ => true
  | ⟨.embed members, _⟩ => hasMember "image" members || hasMember "formula" members

/-- Whether two neighbours belong to one run. -/
def sameRun (d e : Insertion) : Bool :=
  (d.listKind?.isSome && d.listKind? == e.listKind?) || (d.isPlain && e.isPlain)

/-- What an operation inserts, if it inserts something. -/
def ofOperation? (op : Operation) : Option Insertion :=
  match op.insert, Compiler.attributes op with
  | some insert, .ok a => some ⟨insert, a⟩
  | _, _ => none

/-- The insertions of some operations that display something. -/
def shown (ops : List Operation) : List Insertion := (ops.filterMap ofOperation?).filter displays

/-- The content of a list item. -/
def item (c : Compiler) : Insertion → List Inline
  | ⟨.text t, a⟩ => [c.inlineRun t a]
  | ⟨.embed _, _⟩ => []

/-- The content that a text adds to a block. -/
def flow (c : Compiler) : Insertion → List Inline
  | ⟨.text t, a⟩ => c.content t a
  | ⟨.embed _, _⟩ => []

/-- The block of a text by itself: what its attributes ask for, or else a paragraph, inside its
alignment. -/
def blockNode (c : Compiler) (t : Text) (a : Attributes) : Node :=
  let block := (Compiler.block? a (c.content t a)).getD (.paragraph (c.content t a))
  match a.align with
  | none => block
  | some alignment => .align alignment block

/-- The nodes of an insertion that is a run of its own. -/
def ownNodes (c : Compiler) : Insertion → List Node
  | ⟨.text t, a⟩ => [blockNode c t a]
  | ⟨.embed members, a⟩ => (c.embed? members a).toList

/-- A paragraph, unless it would be empty. -/
def paragraphOf : List Inline → List Node
  | [] => []
  | children => [.paragraph children]

/-- The nodes of a run: a list with an item for every insertion, a paragraph with the content of all
of them, or one node for each. -/
def runNodes (c : Compiler) : List Insertion → List Node
  | [] => []
  | d :: ds =>
    match d.listKind? with
    | some kind => [.list kind ((d :: ds).map (item c))]
    | none =>
      if d.isPlain then paragraphOf ((d :: ds).flatMap (flow c))
      else (d :: ds).flatMap (ownNodes c)

/-- The nodes of some insertions, run by run. -/
def grouped (c : Compiler) (ds : List Insertion) : List Node :=
  (ds.splitBy sameRun).flatMap (runNodes c)

end Insertion

/-- Every attribute bag that an insertion carries can be read. -/
def Document.Convertible (doc : Document) : Prop :=
  ∀ op ∈ doc.ops, op.insert.isSome → ∃ a, Compiler.attributes op = .ok a

open Insertion

/-! ### Which insertions an open run stands for -/

/-- The insertions that an open run stands for: none, items of one list, or plain texts. -/
inductive Run.Holds (c : Compiler) : Run → List Insertion → Prop
  | idle : Holds c .idle []
  | list {kind ds} : ds ≠ [] → (∀ d ∈ ds, d.listKind? = some kind) →
      Holds c (.list kind (ds.map (item c))) ds
  | paragraph {ds} : ds ≠ [] → (∀ d ∈ ds, d.isPlain = true) →
      Holds c (.paragraph (ds.flatMap (flow c))) ds

theorem Insertion.listKind?_of_isPlain {d : Insertion} (h : d.isPlain = true) :
    d.listKind? = none := by
  obtain ⟨insert, a⟩ := d
  cases insert with
  | text t => simp_all [isPlain, listKind?]
  | embed members => rfl

/-- A list item is never plain. -/
theorem Insertion.isPlain_of_listKind? {d : Insertion} {kind : ListKind}
    (h : d.listKind? = some kind) : d.isPlain = false := by
  by_contra hplain
  rw [listKind?_of_isPlain (by simpa using hplain)] at h
  cases h

/-- Items of one kind become one list. -/
theorem Insertion.runNodes_items {c : Compiler} {ds : List Insertion} {kind : ListKind} (hne : ds ≠ [])
    (h : ∀ d ∈ ds, d.listKind? = some kind) : runNodes c ds = [.list kind (ds.map (item c))] := by
  cases ds with
  | nil => exact absurd rfl hne
  | cons d ds => simp [runNodes, h d]

/-- Plain texts become one paragraph, or none if they have no content. -/
theorem Insertion.runNodes_plain {c : Compiler} {ds : List Insertion}
    (h : ∀ d ∈ ds, d.isPlain = true) : runNodes c ds = paragraphOf (ds.flatMap (flow c)) := by
  cases ds with
  | nil => rfl
  | cons d ds =>
    have hd := h d List.mem_cons_self
    simp only [runNodes, listKind?_of_isPlain hd, hd, if_true]

/-- Neighbours of one list kind, or plain neighbours, all the way through make one run. -/
theorem Insertion.grouped_of_forall {c : Compiler} {ds : List Insertion} (hne : ds ≠ [])
    (h : ∀ d ∈ ds, ∀ e ∈ ds, sameRun d e = true) : grouped c ds = runNodes c ds := by
  have chain : ds.IsChain fun d e => sameRun d e = true :=
    (List.pairwise_of_forall_mem_list h).isChain
  rw [grouped, List.splitBy_of_isChain hne chain, List.flatMap_singleton]

/-- A run ends before an insertion that its last one does not belong with. -/
theorem Insertion.grouped_append_cons {c : Compiler} {ds rest : List Insertion} {d : Insertion}
    (h : ∀ x ∈ ds.getLast?, sameRun x d = false) :
    grouped c (ds ++ d :: rest) = grouped c ds ++ grouped c (d :: rest) := by
  rw [grouped, List.splitBy_append_cons rest h, List.flatMap_append]
  rfl

/-- An insertion that is neither a list item nor plain is a run of its own. -/
theorem Insertion.grouped_cons_own {c : Compiler} {d : Insertion} (rest : List Insertion)
    (hkind : d.listKind? = none) (hplain : d.isPlain = false) :
    grouped c (d :: rest) = ownNodes c d ++ grouped c rest := by
  have alone : sameRun d = fun _ => false := by
    funext e
    simp [sameRun, hkind, hplain]
  have single : grouped c [d] = ownNodes c d := by
    simp [grouped, List.splitBy, List.splitBy.loop, runNodes, hkind, hplain]
  -- Nothing belongs with `d`, so the next insertion begins another run.
  cases rest with
  | nil => simpa [grouped] using single
  | cons e rest =>
    rw [← single, ← grouped_append_cons (by simp [alone])]
    rfl

namespace Run.Holds

variable {c : Compiler} {run : Run} {ds : List Insertion}

/-- Flushing an open run gives the nodes of its insertions. -/
theorem flush_eq (h : run.Holds c ds) : run.flush = grouped c ds := by
  cases h with
  | idle => rfl
  | @list kind ds hne hkind =>
    -- The items are of one kind, so any two of them belong together.
    rw [grouped_of_forall hne fun d hd e he => by simp [sameRun, hkind d hd, hkind e he],
      runNodes_items hne hkind]
    cases ds with
    | nil => exact absurd rfl hne
    | cons d ds => rfl
  | @paragraph ds hne hplain =>
    rw [grouped_of_forall hne fun d hd e he => by simp [sameRun, hplain d hd, hplain e he],
      runNodes_plain hplain]
    cases ds.flatMap (flow c) <;> rfl

/-- The last insertion of an open run that is no list of a kind does not belong with an item of that
kind. -/
theorem last_item (h : run.Holds c ds) {d : Insertion} {kind : ListKind}
    (hd : d.listKind? = some kind) (hopen : run.openItems? kind = none) :
    ∀ x ∈ ds.getLast?, sameRun x d = false := by
  have hplain := isPlain_of_listKind? hd
  intro x hx
  have hmem := List.mem_of_getLast? hx
  cases h with
  | idle => simp at hx
  | @list k ds hne hkind =>
    have hk : ¬ k = kind := by simpa [openItems?] using hopen
    simp [sameRun, hkind x hmem, hd, hplain, hk]
  | paragraph hne hx' =>
    simp [sameRun, hplain, listKind?_of_isPlain (hx' x hmem)]

end Run.Holds

/-! ### One operation -/

namespace Compiler

variable {c : Compiler} {run : Run} {ds : List Insertion}

/-- A step from an open run: it emits nodes and leaves a run such that, whatever follows, the
insertions so far and the new ones give the emitted nodes and then those of the run. -/
def Advances (c : Compiler) (ds new : List Insertion) (result : Run × List Node) : Prop :=
  ∃ ds', result.1.Holds c ds' ∧
    ∀ rest, grouped c (ds ++ (new ++ rest)) = result.2 ++ grouped c (ds' ++ rest)

/-- An insertion that begins a run closes the one before it. -/
theorem Advances.begin {d : Insertion} {next : Run} (h : run.Holds c ds) (hnext : next.Holds c [d])
    (hlast : ∀ x ∈ ds.getLast?, sameRun x d = false) :
    Advances c ds [d] (next, run.flush) := by
  refine ⟨[d], hnext, fun rest => ?_⟩
  rw [h.flush_eq]
  exact grouped_append_cons hlast

/-- An insertion of its own closes the run before it and leaves none. -/
theorem Advances.own {d : Insertion} (h : run.Holds c ds) (hkind : d.listKind? = none)
    (hplain : d.isPlain = false) :
    Advances c ds [d] (.idle, run.flush ++ ownNodes c d) := by
  refine ⟨[], .idle, fun rest => ?_⟩
  have hlast : ∀ x ∈ ds.getLast?, sameRun x d = false := by
    intro x _
    simp [sameRun, hkind, hplain]
  calc grouped c (ds ++ d :: rest)
      = grouped c ds ++ grouped c (d :: rest) := grouped_append_cons hlast
    _ = run.flush ++ (ownNodes c d ++ grouped c rest) := by
        rw [h.flush_eq, grouped_cons_own rest hkind hplain]
    _ = run.flush ++ ownNodes c d ++ grouped c ([] ++ rest) := by simp

/-- An insertion that joins the open run. -/
theorem Advances.join {d : Insertion} {next : Run} (hnext : next.Holds c (ds ++ [d])) :
    Advances c ds [d] (next, []) :=
  ⟨ds ++ [d], hnext, fun rest => by simp⟩

theorem listStep_advances {kind : ListKind} {t : Text} {a : Attributes} (h : run.Holds c ds)
    (ha : a.listKind = some kind) :
    Advances c ds [⟨.text t, a⟩] (c.listStep run kind t a) := by
  have hd : (⟨.text t, a⟩ : Insertion).listKind? = some kind := ha
  unfold listStep
  cases hopen : run.openItems? kind with
  | none =>
    -- No list of this kind is open: what is open is flushed, and the text begins a list.
    have hone : Run.Holds c (.list kind [[c.inlineRun t a]]) [⟨.text t, a⟩] := by
      have := Run.Holds.list (c := c) (List.cons_ne_nil (⟨.text t, a⟩ : Insertion) [])
        (by simpa using hd)
      simpa [item] using this
    exact Advances.begin h hone (h.last_item hd hopen)
  | some items =>
    -- The open run is a list of this kind, and the text joins it.
    cases h with
    | idle => simp [Run.openItems?] at hopen
    | paragraph => simp [Run.openItems?] at hopen
    | @list k ds hne hkind =>
      obtain ⟨rfl, rfl⟩ : k = kind ∧ ds.map (item c) = items := by
        simpa [Run.openItems?] using hopen
      have hall : ∀ d ∈ ds ++ [⟨.text t, a⟩], d.listKind? = some k := by
        intro d hmem
        rcases List.mem_append.mp hmem with hmem | hmem
        · exact hkind d hmem
        · rw [List.mem_singleton.mp hmem, hd]
      have hitems : (ds ++ [(⟨.text t, a⟩ : Insertion)]).map (item c) =
          ds.map (item c) ++ [[c.inlineRun t a]] := by
        simp [item]
      refine Advances.join ?_
      rw [← hitems]
      exact .list (by simp) hall

/-- A plain text joins the open paragraph, or begins one. -/
theorem plainStep_advances {t : Text} {a : Attributes} (h : run.Holds c ds)
    (hplain : (⟨.text t, a⟩ : Insertion).isPlain = true) :
    Advances c ds [⟨.text t, a⟩]
      (.paragraph (run.openChildren ++ c.content t a), if run.isList then run.flush else []) := by
  have hone : Run.Holds c (.paragraph (c.content t a)) [⟨.text t, a⟩] := by
    have := Run.Holds.paragraph (c := c) (List.cons_ne_nil (⟨.text t, a⟩ : Insertion) [])
      (by simpa using hplain)
    simpa [flow] using this
  cases h with
  | idle => exact Advances.join hone
  | @list kind ds hne hkind =>
    refine Advances.begin (.list hne hkind) hone fun x hx => ?_
    have hx := hkind x (List.mem_of_getLast? hx)
    simp [sameRun, hx, isPlain_of_listKind? hx, listKind?_of_isPlain hplain]
  | @paragraph ds hne hds =>
    have hall : ∀ d ∈ ds ++ [⟨.text t, a⟩], d.isPlain = true := by
      intro d hmem
      rcases List.mem_append.mp hmem with hmem | hmem
      · exact hds d hmem
      · rw [List.mem_singleton.mp hmem, hplain]
    have hchildren : (ds ++ [(⟨.text t, a⟩ : Insertion)]).flatMap (flow c) =
        ds.flatMap (flow c) ++ c.content t a := by
      simp [flow]
    refine Advances.join ?_
    simp only [Run.openChildren]
    rw [← hchildren]
    exact .paragraph (by simp) hall

/-- Attributes ask for no block exactly if they name none of the three. -/
theorem block?_eq_none_iff {a : Attributes} {children : List Inline} :
    block? a children = none ↔ a.header = none ∧ a.blockquote = false ∧ a.codeBlock = false := by
  unfold block?
  cases a.header <;> cases a.blockquote <;> cases a.codeBlock <;> simp

/-- A text is plain exactly if it belongs to no list and its attributes ask for neither a block nor an
alignment. -/
theorem isPlain_text_iff {t : Text} {a : Attributes} (children : List Inline) :
    (⟨.text t, a⟩ : Insertion).isPlain = true ↔
      a.listKind = none ∧ block? a children = none ∧ a.align = none := by
  rw [block?_eq_none_iff]
  simp [isPlain, and_assoc]

/-- A plain text joins the open paragraph. -/
theorem textStep_plain {t : Text} {a : Attributes} (h : (⟨.text t, a⟩ : Insertion).isPlain = true) :
    c.textStep run t a =
      (.paragraph (run.openChildren ++ c.content t a), if run.isList then run.flush else []) := by
  obtain ⟨-, hblock, halign⟩ := (isPlain_text_iff (c.content t a)).mp h
  simp [textStep, hblock, halign]

/-- Any other text that belongs to no list is a block of its own. -/
theorem textStep_own {t : Text} {a : Attributes} (hkind : a.listKind = none)
    (h : (⟨.text t, a⟩ : Insertion).isPlain = false) :
    c.textStep run t a = (.idle, run.flush ++ [blockNode c t a]) := by
  cases halign : a.align with
  | some alignment =>
    cases hblock : block? a (c.content t a) <;> simp [textStep, blockNode, halign, hblock]
  | none =>
    cases hblock : block? a (c.content t a) with
    | some node => simp [textStep, blockNode, halign, hblock]
    | none =>
      -- without a block and an alignment the text would be plain
      rw [(isPlain_text_iff (c.content t a)).mpr ⟨hkind, hblock, halign⟩] at h
      cases h

theorem textStep_advances {t : Text} {a : Attributes} (h : run.Holds c ds)
    (ha : a.listKind = none) : Advances c ds [⟨.text t, a⟩] (c.textStep run t a) := by
  have hkind : (⟨.text t, a⟩ : Insertion).listKind? = none := ha
  cases hplain : (⟨.text t, a⟩ : Insertion).isPlain with
  | true =>
    rw [textStep_plain hplain]
    exact plainStep_advances h hplain
  | false =>
    rw [textStep_own ha hplain]
    exact Advances.own h hkind hplain

/-- An object is displayed exactly if it has a node. -/
theorem embed?_isSome (members : List (Text × Json)) (a : Attributes) :
    (c.embed? members a).isSome = displays ⟨.embed members, a⟩ := by
  unfold embed? displays hasMember
  dsimp only
  split_ifs <;> simp_all

/-- What an inserting operation displays. -/
theorem shown_of_insert {op : Operation} {insert : Insert} {a : Attributes}
    (hinsert : op.insert = some insert) (ha : attributes op = .ok a) :
    shown [op] = [(⟨insert, a⟩ : Insertion)].filter displays := by
  simp [shown, ofOperation?, hinsert, ha]

/-- One operation of a document, from an open run: what it inserts is grouped as it should be. -/
theorem step_grouped {op : Operation} (h : run.Holds c ds)
    (hop : op.insert.isSome → ∃ a, attributes op = .ok a) :
    ∃ result, c.step run op = .ok result ∧ Advances c ds (shown [op]) result := by
  -- What displays nothing leaves the run open.
  have stay : Advances c ds [] (run, []) := ⟨ds, h, fun rest => rfl⟩
  cases hinsert : op.insert with
  | none =>
    have hshown : shown [op] = [] := by simp [shown, ofOperation?, hinsert]
    rw [hshown]
    exact ⟨(run, []), step_nothing hinsert, stay⟩
  | some insert =>
    obtain ⟨a, ha⟩ := hop (by rw [hinsert]; rfl)
    rw [shown_of_insert hinsert ha]
    cases insert with
    | text t =>
      show ∃ result, c.step run op = .ok result ∧ Advances c ds [⟨.text t, a⟩] result
      cases hkind : a.listKind with
      | none => exact ⟨c.textStep run t a, step_text hinsert ha hkind, textStep_advances h hkind⟩
      | some kind => exact ⟨c.listStep run kind t a, step_item hinsert ha hkind, listStep_advances h hkind⟩
    | embed members =>
      have hsome := embed?_isSome (c := c) members a
      cases hnode : c.embed? members a with
      | none =>
        rw [hnode] at hsome
        rw [List.filter_singleton, ← hsome]
        exact ⟨(run, []), step_skipped hinsert ha hnode, stay⟩
      | some node =>
        have own := Advances.own (d := ⟨.embed members, a⟩) h rfl rfl
        rw [ownNodes, hnode] at own
        rw [hnode] at hsome
        rw [List.filter_singleton, ← hsome]
        exact ⟨(.idle, run.flush ++ [node]), step_displayed hinsert ha hnode, own⟩

/-! ### The whole pass -/

theorem shown_cons (op : Operation) (ops : List Operation) :
    shown (op :: ops) = shown [op] ++ shown ops := by
  rw [shown, shown, shown, ← List.filter_append, ← List.filterMap_append]
  rfl

/-- Compiling from an open run groups its insertions together with those of the operations. -/
theorem compileFrom_grouped {ops : List Operation} (h : run.Holds c ds)
    (hops : ∀ op ∈ ops, op.insert.isSome → ∃ a, attributes op = .ok a) :
    c.compileFrom run ops = .ok (grouped c (ds ++ shown ops)) := by
  -- `ds` are the insertions since the last flush; a step may change them as well as the run.
  induction ops generalizing run ds with
  | nil => simp [compileFrom, shown, h.flush_eq]
  | cons op ops ih =>
    obtain ⟨⟨next, emitted⟩, hstep, ds', hnext, hgroup⟩ :=
      step_grouped h (hops op List.mem_cons_self)
    have hrest := ih hnext fun op hop => hops op (List.mem_cons_of_mem _ hop)
    rw [shown_cons, hgroup, compileFrom_of_step hstep, hrest]
    rfl

theorem attributes_of_step {run : Run} {op : Operation} {result : Run × List Node}
    (h : c.step run op = .ok result) (hinsert : op.insert.isSome) :
    ∃ a, attributes op = .ok a := by
  obtain ⟨insert, hinsert⟩ := Option.isSome_iff_exists.mp hinsert
  cases ha : attributes op with
  | ok a => exact ⟨a, rfl⟩
  | error misfit =>
    rw [step_misfit hinsert ha] at h
    cases h

theorem attributes_of_compileFrom {run : Run} {ops : List Operation} {nodes : List Node}
    (h : c.compileFrom run ops = .ok nodes) :
    ∀ op ∈ ops, op.insert.isSome → ∃ a, attributes op = .ok a := by
  induction ops generalizing run nodes with
  | nil => simp
  | cons op ops ih =>
    obtain ⟨⟨next, emitted⟩, hstep, hrest⟩ := bind_eq_ok.mp h
    obtain ⟨later, hlater, -⟩ := bind_eq_ok.mp hrest
    exact List.forall_mem_cons.mpr ⟨attributes_of_step hstep, ih hlater⟩

/-- A document is compiled exactly if its attribute bags can be read, and then to the nodes of its runs. -/
theorem compile_eq_ok_iff {doc : Document} {nodes : List Node} :
    c.compile doc = .ok nodes ↔ doc.Convertible ∧ nodes = grouped c (shown doc.ops) := by
  constructor
  · intro h
    have hconvertible : doc.Convertible := attributes_of_compileFrom h
    exact ⟨hconvertible, Except.ok.inj (h.symm.trans (compileFrom_grouped .idle hconvertible))⟩
  · rintro ⟨hconvertible, rfl⟩
    exact compileFrom_grouped .idle hconvertible

/-- The nodes of a document are those of its runs: one list with an item for every insertion of a
list run, one paragraph with the whole content of a plain run unless that is empty, and one node for
every insertion of its own. -/
theorem compile_eq_grouped (c : Compiler) (doc : Document) (h : doc.Convertible) :
    c.compile doc = .ok (grouped c (shown doc.ops)) :=
  compileFrom_grouped .idle h

/-- A list that goes on after a deletion and an object of unknown kind, and is closed by an empty
text. -/
theorem compile_eq_grouped_sample :
    let bullet := Json.ofMembers [("list", Json.ofString "bullet")]
    let insert (i : Insert) (a : Option Json) : Operation := ⟨some i, none, none, a, []⟩
    let doc : Document := ⟨[insert (.text "a") bullet, ⟨none, some (.int 1), none, none, []⟩,
      insert (.embed [("video", Json.ofString "v")]) none, insert (.text "b") bullet,
      insert (.text "") none, insert (.text "c") bullet, insert (.text "d") none,
      insert (.text "e") none], []⟩
    let c : Compiler := ⟨⟨fun source _ => .ok source, Text.ofString "#f00"⟩, true⟩
    let run (s : String) : Inline := .text s [] none
    doc.Convertible ∧ c.compile doc = .ok [.list .bullet [[run "a"], [run "b"]],
      .list .bullet [[run "c"]], .paragraph [run "d", run "e"]] := by
  intro bullet insert doc c run
  have convertible : doc.Convertible := by
    intro op hop _
    simp only [doc, List.mem_cons, List.not_mem_nil, or_false] at hop
    rcases hop with rfl | rfl | rfl | rfl | rfl | rfl | rfl | rfl <;> exact ⟨_, rfl⟩
  exact ⟨convertible, (compile_eq_grouped c doc convertible).trans (by rfl)⟩

end Compiler

end DeltaPreview
