import DeltaPreview.Node.Reader
import DeltaPreview.Preview.Html
import DeltaPreview.Proofs.Compile.Shape

/-!
# Stored nodes are read back

A node that is written as an object and read again is the node: the name of its kind keeps it apart from
all others, and every member is written, so none takes its usual value when it is read
(`Node.ofJson?_of_toJson`).  What has been stored can therefore be rendered in place of what was compiled.

Only nodes that are aligned within each other too often cannot be stored, and no stored form is read as such
nodes.  No document is compiled to them.
-/

namespace DeltaPreview

/-- A member of an object is found by its name. -/
theorem Json.lookup_named (name n : String) (v : Json) (rest : List (Text × Json)) :
    lookup (Text.ofString name) ((Text.ofString n, v) :: rest) =
      if name = n then some v else lookup (Text.ofString name) rest := by
  unfold lookup
  rw [List.lookup_cons]
  by_cases h : name = n
  · simp [h]
  · have hne : (Text.ofString name == Text.ofString n) = false := by
      simpa using mt Text.ofString_inj.mp h
    simp [h, hne]

namespace Node.Reader

/-! ### The parts of a node -/

/-- A list of parts is read back if each of its parts is. -/
theorem listOf_map {α : Type} {part : Part α} {toJson : α → Json}
    (h : ∀ a, part (toJson a) = some a) (as : List α) :
    listOf part (.array (as.map toJson)) = some as := by
  show (as.map toJson).mapM part = some as
  induction as with
  | nil => rfl
  | cons a as ih => simp [h a, ih]

theorem mark_name (m : Mark) : mark (Json.ofString m.name) = some m := by
  cases m <;> decide

@[simp]
theorem marks_listToJson (marks : List Mark) : listOf mark (Mark.listToJson marks) = some marks :=
  listOf_map mark_name marks

@[simp]
theorem listKind_name (kind : ListKind) : listKind (Json.ofString kind.name) = some kind := by
  cases kind <;> decide

@[simp]
theorem alignment_name (a : Alignment) : alignment (Json.ofString a.name) = some a := by
  cases a <;> decide

@[simp]
theorem level_number (l : HeadingLevel) : level (.int l.number) = some l := by
  cases l <;> rfl

/-- A value that may be missing is read back if no value is written as null. -/
theorem nullable_ofOption {α : Type} {part : Part α} (toJson : α → Json)
    (h : ∀ a, part (toJson a) = some a) (hnull : ∀ a, toJson a ≠ .null) (o : Option α) :
    nullable part (Json.ofOption toJson o) = some o := by
  cases o with
  | none => rfl
  | some a =>
    show nullable part (toJson a) = some (some a)
    unfold nullable
    split
    next hnone => exact absurd hnone (hnull a)
    next => rw [h a, Option.map_some]

@[simp]
theorem link_ofOption (link : Option Text) :
    nullable Lenient.text? (Json.ofOption .string link) = some link :=
  nullable_ofOption Json.string (fun _ => rfl) (fun _ => by simp) link

@[simp]
theorem size_ofOption (size : Option Double) :
    nullable Lenient.double? (Json.ofOption .float size) = some size :=
  nullable_ofOption Json.float (fun _ => rfl) (fun _ => by simp) size

/-- The members of an object whose first one names a kind. -/
def tag (kind : String) (parts : List (String × Json)) : List (Text × Json) :=
  (Text.ofString "type", Json.ofString kind) :: parts.map fun (name, v) => (Text.ofString name, v)

@[simp]
theorem tagged_ofMembers (kind : String) (parts : List (String × Json)) :
    tagged (Json.ofMembers (("type", Json.ofString kind) :: parts)) =
      some (Text.ofString kind, tag kind parts) := by
  simp [tagged, Json.ofMembers, Json.lookup_named, Json.ofString, tag]

@[simp]
theorem required_cons {α : Type} (name n : String) (part : Part α) (v : Json)
    (rest : List (Text × Json)) :
    required name part ((Text.ofString n, v) :: rest) =
      if name = n then part v else required name part rest := by
  rw [required, required, Json.lookup_named]
  by_cases h : name = n
  · rw [if_pos h, if_pos h, Option.bind_some]
  · rw [if_neg h, if_neg h]

@[simp]
theorem optional_cons {α : Type} (name n : String) (usual : α) (part : Part α) (v : Json)
    (rest : List (Text × Json)) :
    optional name usual part ((Text.ofString n, v) :: rest) =
      if name = n then part v else optional name usual part rest := by
  rw [optional, optional, Json.lookup_named]
  by_cases h : name = n
  · rw [if_pos h, if_pos h]
  · rw [if_neg h, if_neg h]

/-! ### Runs -/

@[simp]
theorem inline_toJson (i : Inline) : inline i.toJson = some i := by
  cases i with
  | text t marks link => simp [inline, Inline.toJson, tag, Lenient.text?]
  | markup t marks => simp [inline, Inline.toJson, tag, Lenient.text?]
  | lineBreak => simp [inline, Inline.toJson]

@[simp]
theorem runs_listToJson (runs : List Inline) : listOf inline (Inline.listToJson runs) = some runs :=
  listOf_map inline_toJson runs

theorem item_toJson (runs : List Inline) :
    item (Json.ofMembers [("children", Inline.listToJson runs)]) = some runs := by
  simp [item, children, Json.ofMembers]

@[simp]
theorem items_itemsToJson (items : List (List Inline)) :
    listOf item (Inline.itemsToJson items) = some items :=
  listOf_map item_toJson items

end Node.Reader

namespace Node

open Reader

/-! ### Nodes -/

/-- How many nodes are aligned within each other. -/
def alignDepth : Node → Nat
  | align _ child => child.alignDepth + 1
  | _ => 0

/-- What is read of an object is decided by the kind that it names. -/
theorem ofJson?_ofParts {kind : String} (h : kind ≠ "align") (levels : Nat)
    (parts : List (String × Json)) :
    ofJson? levels (ofParts kind parts) = leaf (Text.ofString kind) (tag kind parts) := by
  have htagged := tagged_ofMembers kind parts
  rw [Json.ofMembers] at htagged
  rw [ofParts, Json.ofMembers, ofJson?.eq_def]
  simp only [htagged, Text.ofString_inj, if_neg h]
  rfl

theorem ofJson?_align (levels : Nat) (parts : List (String × Json)) :
    ofJson? (levels + 1) (ofParts "align" parts) =
      .align <$> required "alignment" alignment (tag "align" parts) <*>
        childOf? levels (tag "align" parts) := by
  have htagged := tagged_ofMembers "align" parts
  rw [Json.ofMembers] at htagged
  rw [ofParts, Json.ofMembers, ofJson?.eq_def]
  simp only [htagged, if_true]
  rfl

/-! ### Writing and reading -/

/-- A node is written exactly if not too many nodes are aligned within each other. -/
theorem toJson_eq_ok_iff {levels : Nat} {node : Node} :
    (∃ v, toJson levels node = .ok v) ↔ node.alignDepth ≤ levels := by
  induction node generalizing levels with
  | align a child ih =>
    cases levels with
    | zero => exact iff_of_false (by simp [toJson]) (by simp [alignDepth])
    | succ levels =>
      rw [alignDepth, Nat.add_le_add_iff_right, ← ih, toJson]
      cases toJson levels child <;> simp [Except.map]
  -- Every other node holds no node.
  | _ => exact iff_of_true ⟨_, rfl⟩ (Nat.zero_le _)

/-- A node that is written is read back, an aligned one by way of the node inside it. -/
theorem ofJson?_of_toJson {levels : Nat} {node : Node} {v : Json} (h : toJson levels node = .ok v) :
    ofJson? levels v = some node := by
  induction node generalizing levels v with
  | align a child ih =>
    cases levels with
    | zero => cases h
    | succ levels =>
      obtain ⟨inner, hinner, rfl⟩ := map_eq_ok.mp h
      simp [ofJson?_align, tag, childOf?, ih hinner, seq_eq_bind_map]
  -- Every other node is told apart by its kind and holds no node.
  | paragraph runs =>
    cases h
    simp [ofJson?_ofParts, leaf, tag, children]
  | heading l runs =>
    cases h
    simp [ofJson?_ofParts, leaf, tag, children, seq_eq_bind_map]
  | blockquote runs =>
    cases h
    simp [ofJson?_ofParts, leaf, tag, children]
  | codeBlock runs =>
    cases h
    simp [ofJson?_ofParts, leaf, tag, children]
  | list k items =>
    cases h
    simp [ofJson?_ofParts, leaf, tag, seq_eq_bind_map]
  | image src =>
    cases h
    simp [ofJson?_ofParts, leaf, tag, Lenient.text?]
  | formula markup size marks =>
    cases h
    simp [ofJson?_ofParts, leaf, tag, Lenient.text?, seq_eq_bind_map]
  | empty message hint =>
    cases h
    simp [ofJson?_ofParts, leaf, tag, Lenient.text?, seq_eq_bind_map]

/-- A node of another kind is not aligned. -/
theorem leaf_ne_align {kind : Text} {members : List (Text × Json)} {a : Alignment} {child : Node} :
    leaf kind members ≠ some (.align a child) := by
  intro h
  unfold leaf at h
  split_ifs at h <;> simp [seq_eq_bind_map, Option.bind_eq_some_iff] at h

theorem exists_of_childOf? {levels : Nat} {members : List (Text × Json)} {node : Node}
    (h : childOf? levels members = some node) : ∃ v, ofJson? levels v = some node := by
  induction members with
  | nil => cases h
  | cons m members ih =>
    obtain ⟨name, v⟩ := m
    rw [childOf?] at h
    split_ifs at h
    · exact ⟨v, h⟩
    · exact ih h

/-- What is read of an aligned node is read of the node inside it, one level down. -/
theorem exists_of_ofJson?_align {levels : Nat} {v : Json} {a : Alignment} {child : Node}
    (h : ofJson? levels v = some (.align a child)) :
    ∃ below inner, levels = below + 1 ∧ ofJson? below inner = some child := by
  cases v with
  | object members =>
    rw [ofJson?.eq_def] at h
    dsimp only at h
    split at h
    next kind _ _ =>
      split_ifs at h with hkind
      · cases levels with
        | zero => cases h
        | succ below =>
          simp only [seq_eq_bind_map, Option.bind_eq_bind, Option.bind_eq_some_iff, Option.map_eq_map,
            Option.map_eq_some_iff] at h
          obtain ⟨_, ⟨_, -, rfl⟩, inner, hinner, hnode⟩ := h
          cases hnode
          obtain ⟨w, hw⟩ := exists_of_childOf? hinner
          exact ⟨below, w, rfl, hw⟩
      · exact absurd h leaf_ne_align
    next => cases h
  | _ => cases h

/-- Whatever is read, not too many nodes are aligned within each other. -/
theorem alignDepth_of_ofJson? {levels : Nat} {node : Node} {v : Json} (h : ofJson? levels v = some node) :
    node.alignDepth ≤ levels := by
  induction node generalizing levels v with
  | align a child ih =>
    obtain ⟨below, inner, rfl, hinner⟩ := exists_of_ofJson?_align h
    exact Nat.succ_le_succ (ih hinner)
  | _ => exact Nat.zero_le _

/-! ### Sequences of nodes -/

variable {nodes : List Node}

/-- The first node that cannot be written is what fails, and it fails in the one way there is. -/
theorem treeToJson_eq_error (h : ∃ node ∈ nodes, maxAligned < node.alignDepth) :
    treeToJson nodes = .error .tooDeep := by
  cases htree : treeToJson nodes with
  | error reason => rfl
  | ok tree =>
    obtain ⟨node, hnode, hdeep⟩ := h
    obtain ⟨list, hlist, -⟩ := map_eq_ok.mp htree
    obtain ⟨vs, hvs, -⟩ := map_eq_ok.mp hlist
    obtain ⟨v, hv⟩ := exists_mapM_iff.mp ⟨vs, hvs⟩ node hnode
    exact absurd (toJson_eq_ok_iff.mp ⟨v, hv⟩) (Nat.not_le.mpr hdeep)

/-- Nodes are written if not too many of them are aligned within each other, and then read back. -/
theorem exists_tree (h : ∀ node ∈ nodes, node.alignDepth ≤ maxAligned) :
    ∃ tree, treeToJson nodes = .ok tree ∧ treeOfJson tree = .ok nodes := by
  obtain ⟨vs, hvs⟩ := exists_mapM_iff.mpr fun node hnode => toJson_eq_ok_iff.mpr (h node hnode)
  have htree : treeToJson nodes = .ok (Json.ofMembers [("nodes", .array vs)]) := by
    rw [treeToJson, listToJson, hvs]
    rfl
  have hread : vs.mapM (ofJson? maxAligned) = some nodes := by
    have hall := mapM_eq_ok.mp hvs
    clear hvs htree h
    induction hall with
    | nil => rfl
    | cons hv _ ih => simp [ofJson?_of_toJson hv, ih]
  refine ⟨_, htree, ?_⟩
  simp [treeOfJson, listOfJson, Json.ofMembers, Json.lookup_named, hread]

theorem exists_of_mapM_eq_some {α β : Type} {f : α → Option β} {as : List α} {bs : List β}
    (h : as.mapM f = some bs) : ∀ b ∈ bs, ∃ a, f a = some b := by
  induction as generalizing bs with
  | nil =>
    cases h
    simp
  | cons a as ih =>
    simp only [List.mapM_cons, Option.bind_eq_bind, Option.bind_eq_some_iff, Option.pure_def,
      Option.some.injEq] at h
    obtain ⟨b, hb, bs, hbs, rfl⟩ := h
    exact List.forall_mem_cons.mpr ⟨⟨a, hb⟩, ih hbs⟩

/-- Whatever is read, not too many nodes are aligned within each other. -/
theorem alignDepth_of_treeOfJson {v : Json} (h : treeOfJson v = .ok nodes) :
    ∀ node ∈ nodes, node.alignDepth ≤ maxAligned := by
  have hlist {vs : Json} (h : listOfJson vs = .ok nodes) :
      ∀ node ∈ nodes, node.alignDepth ≤ maxAligned := by
    unfold listOfJson at h
    split at h
    next vs =>
      split at h
      next nodes hnodes =>
        cases h
        intro node hnode
        obtain ⟨v, hv⟩ := exists_of_mapM_eq_some hnodes node hnode
        exact alignDepth_of_ofJson? hv
      next => cases h
    next => cases h
  unfold treeOfJson at h
  split at h
  next members =>
    split at h
    next =>
      cases h
      simp
    next => exact hlist h
  next => cases h

/-- Nodes that a document is compiled to are aligned at most once. -/
theorem Canonical.alignDepth_le {node : Node} (h : node.Canonical) : node.alignDepth ≤ 1 := by
  cases node with
  | align a child =>
    cases child with
    | paragraph | heading | blockquote | codeBlock => exact Nat.le_refl 1
    | _ => exact absurd h.1 id
  | _ => exact Nat.zero_le 1

/-- Nodes can be stored exactly if no more of them are aligned within each other than can be written.  What is
stored is read back, so the stored form of nodes is rendered as the nodes themselves are.  Conversely, whatever
is read can be stored again: no stored form is read as nodes that are aligned more often.  The nodes that a
document is compiled to can always be stored. -/
theorem treeOfJson_treeToJson (nodes : List Node) :
    ((∀ node ∈ nodes, node.alignDepth ≤ maxAligned) →
      ∃ tree, treeToJson nodes = .ok tree ∧ treeOfJson tree = .ok nodes ∧
        ∀ settings, (treeOfJson tree).map (renderHtml settings) = .ok (renderHtml settings nodes)) ∧
    ((∃ node ∈ nodes, maxAligned < node.alignDepth) →
      treeToJson nodes = .error .tooDeep ∧ ∀ v, treeOfJson v ≠ .ok nodes) ∧
    ∀ (c : Compiler) (doc : Document), c.compile doc = .ok nodes →
      ∀ node ∈ nodes, node.alignDepth ≤ maxAligned := by
  refine ⟨fun h => ?_, fun h => ⟨treeToJson_eq_error h, fun v hv => ?_⟩, fun c doc h node hnode => ?_⟩
  · obtain ⟨tree, htree, hread⟩ := exists_tree h
    refine ⟨tree, htree, hread, fun settings => ?_⟩
    rw [hread]
    rfl
  · obtain ⟨node, hnode, hdeep⟩ := h
    exact Nat.not_le.mpr hdeep (alignDepth_of_treeOfJson hv node hnode)
  · obtain ⟨-, rfl⟩ := Compiler.compile_eq_ok_iff.mp h
    obtain ⟨hcanonical, -⟩ := Insertion.canonical_grouped _ node hnode
    exact hcanonical.alignDepth_le.trans (by decide)

/-- A node inside so many that are aligned. -/
def alignTimes : Nat → Node → Node
  | 0, node => node
  | n + 1, node => .align .center (alignTimes n node)

theorem alignDepth_alignTimes (n : Nat) (node : Node) :
    (alignTimes n node).alignDepth = node.alignDepth + n := by
  induction n with
  | zero => rfl
  | succ n ih => rw [alignTimes, alignDepth, ih, Nat.add_assoc]

/-- A list inside as many aligned nodes as can be, a formula, and an empty preview. -/
theorem treeOfJson_treeToJson_sample :
    let item : List Inline := [.text "a" [.bold, .link] (some "b"), .lineBreak, .markup "<i/>" []]
    let nodes := [alignTimes maxAligned (.list .bullet [item, []]), .formula "<b/>" none [.italic],
      .empty "m" []]
    (∀ node ∈ nodes, node.alignDepth ≤ maxAligned) ∧
      ∃ tree, treeToJson nodes = .ok tree ∧ treeOfJson tree = .ok nodes ∧
        ∀ settings, (treeOfJson tree).map (renderHtml settings) = .ok (renderHtml settings nodes) := by
  intro item nodes
  have hdepth : ∀ node ∈ nodes, node.alignDepth ≤ maxAligned := by
    simp only [nodes, List.forall_mem_cons, alignDepth_alignTimes]
    exact ⟨Nat.le_of_eq (Nat.zero_add _), Nat.zero_le _, Nat.zero_le _, by simp⟩
  exact ⟨hdepth, (treeOfJson_treeToJson nodes).1 hdepth⟩

/-- The object of a node inside so many that are aligned. -/
def alignObject : Nat → Json → Json
  | 0, v => v
  | n + 1, v =>
    ofParts "align" [("alignment", Json.ofString Alignment.center.name), ("child", alignObject n v)]

theorem ofJson?_alignObject {levels n : Nat} (h : levels < n) (v : Json) :
    ofJson? levels (alignObject n v) = none := by
  induction n generalizing levels with
  | zero => exact absurd h (Nat.not_lt_zero levels)
  | succ n ih =>
    cases levels with
    | zero => rfl
    | succ levels =>
      have hinner := ih (Nat.lt_of_succ_lt_succ h)
      simp [alignObject, ofJson?_align, tag, childOf?, hinner, seq_eq_bind_map]

/-- One level more is too much: such a node can be neither written nor read. -/
theorem deep_alignment_refused :
    let node := alignTimes (maxAligned + 1) (.paragraph [])
    let object := alignObject (maxAligned + 1) (ofParts "paragraph" [("children", .array [])])
    treeToJson [node] = .error .tooDeep ∧
      treeOfJson (Json.ofMembers [("nodes", .array [object])]) = .error .node := by
  intro node object
  have hdeep : maxAligned < node.alignDepth := by
    rw [alignDepth_alignTimes]
    exact Nat.lt_of_lt_of_eq (Nat.lt_succ_self _) (Nat.zero_add _).symm
  have hobject : ofJson? maxAligned object = none := ofJson?_alignObject (Nat.lt_succ_self _) _
  refine ⟨treeToJson_eq_error ⟨node, List.mem_singleton.mpr rfl, hdeep⟩, ?_⟩
  simp [treeOfJson, listOfJson, Json.ofMembers, Json.lookup_named, hobject]

end Node

end DeltaPreview
