import DeltaPreview.Proofs.Markup.Tree

/-!
# Texts around children

What an element holds is a sequence of parts (`Markup.Part`): the characters of its texts and its other
children, which have parts of their own.

While an element is filled, its texts lie in slots (`Markup.Slots`), one before its first child and one
after each child.  A text goes to the last slot, and a child opens a new slot behind it.  Either way the
parts of what is added follow the parts that are there already (`Slots.parts_add`).  Slots are another form
of siblings among which neighbouring texts are joined (`Slots.nodes_add`).
-/

namespace DeltaPreview.Markup

/-! ### Parts -/

/-- A part of what an element holds: a character, or a child that is no text. -/
inductive Part where
  | char (c : Char)
  | element (tag : Tag) (parts : List Part)
  | comment (content : List Char)
  | instruction (target content : List Char)

mutual

/-- The parts that a node stands for among its siblings. -/
def parts : Markup → List Part
  | .text t => t.map .char
  | .element tag children => [.element tag (partsAll children)]
  | .comment t => [.comment t]
  | .instruction target t => [.instruction target t]

/-- The parts that siblings stand for. -/
def partsAll : List Markup → List Part
  | [] => []
  | m :: ms => parts m ++ partsAll ms

end

theorem partsAll_eq_flatMap (ms : List Markup) : partsAll ms = ms.flatMap parts := by
  induction ms with
  | nil => rfl
  | cons m ms ih => rw [partsAll, ih, List.flatMap_cons]

@[simp] theorem parts_text (t : List Char) : (text t).parts = t.map .char := by rw [parts]

@[simp] theorem partsAll_nil : partsAll [] = [] := by rw [partsAll]

@[simp] theorem partsAll_cons (m : Markup) (ms : List Markup) :
    partsAll (m :: ms) = m.parts ++ partsAll ms := by rw [partsAll]

/-! ### Slots -/

/-- A child that is no text. -/
abbrev Child : Type := { m : Markup // m.isText = false }

/-- What an element holds while it is filled. -/
structure Slots where
  /-- The text before the first child. -/
  text : List Char
  /-- The children, each with the text after it. -/
  children : List (Child × List Char)

namespace Slots

/-- An element that holds nothing. -/
def empty : Slots := ⟨[], []⟩

/-- Adds a text to the last slot: the one after the last child, if there are children. -/
def addText (s : Slots) (t : List Char) : Slots :=
  match s.children.getLast? with
  | none => { s with text := s.text ++ t }
  | some (child, after) => { s with children := s.children.dropLast ++ [(child, after ++ t)] }

/-- Adds a child with an empty slot behind it. -/
def addChild (s : Slots) (child : Child) : Slots := { s with children := s.children ++ [(child, [])] }

/-- Adds a node behind everything else. -/
def add (s : Slots) : Markup → Slots
  | .text t => s.addText t
  | .element tag children => s.addChild ⟨.element tag children, rfl⟩
  | .comment t => s.addChild ⟨.comment t, rfl⟩
  | .instruction target t => s.addChild ⟨.instruction target t, rfl⟩

/-- The parts in the order in which they stand. -/
def parts (s : Slots) : List Part :=
  s.text.map .char ++ s.children.flatMap fun (child, after) => child.val.parts ++ after.map .char

/-- The node that the text of a slot is, if there is one in it. -/
def textNodes (t : List Char) : List Markup := if t.isEmpty then [] else [.text t]

/-- The children and the texts as siblings. -/
def nodes (s : Slots) : List Markup :=
  textNodes s.text ++ s.children.flatMap fun (child, after) => child.val :: textNodes after

/-! ### The last slot -/

theorem addText_childless (text t : List Char) : addText ⟨text, []⟩ t = ⟨text ++ t, []⟩ := rfl

theorem addText_concat (text : List Char) (before : List (Child × List Char)) (child : Child)
    (after t : List Char) :
    addText ⟨text, before ++ [(child, after)]⟩ t = ⟨text, before ++ [(child, after ++ t)]⟩ := by
  simp [addText]

/-- The last slot is the only one or lies behind a child. -/
theorem cases_last (s : Slots) :
    (∃ text, s = ⟨text, []⟩) ∨ ∃ text before child after, s = ⟨text, before ++ [(child, after)]⟩ := by
  obtain ⟨text, children⟩ := s
  rcases List.eq_nil_or_concat children with rfl | ⟨before, ⟨child, after⟩, rfl⟩
  · exact .inl ⟨text, rfl⟩
  · exact .inr ⟨text, before, child, after, by simp⟩

/-! ### Adding -/

theorem parts_addText (s : Slots) (t : List Char) : (s.addText t).parts = s.parts ++ t.map .char := by
  rcases s.cases_last with ⟨text, rfl⟩ | ⟨text, before, child, after, rfl⟩
  · simp [addText_childless, parts]
  · simp [addText_concat, parts]

theorem parts_addChild (s : Slots) (child : Child) :
    (s.addChild child).parts = s.parts ++ child.val.parts := by
  simp [addChild, parts]

/-- What is added follows what is there. -/
theorem parts_add (s : Slots) (m : Markup) : (s.add m).parts = s.parts ++ m.parts := by
  cases m with
  | text t => rw [add, parts_addText, parts_text]
  | element tag children => exact s.parts_addChild _
  | comment t => exact s.parts_addChild _
  | instruction target t => exact s.parts_addChild _

/-! ### Siblings -/

theorem partsAll_textNodes (t : List Char) : partsAll (textNodes t) = t.map .char := by
  cases t <;> simp [textNodes]

/-- The siblings have the parts that lie in the slots. -/
theorem partsAll_nodes (s : Slots) : partsAll s.nodes = s.parts := by
  have hslot (t : List Char) : (textNodes t).flatMap Markup.parts = t.map .char := by
    rw [← partsAll_eq_flatMap, partsAll_textNodes]
  simp only [nodes, parts, partsAll_eq_flatMap, List.flatMap_append, List.flatMap_assoc, hslot,
    List.flatMap_cons]

/-- A text behind siblings that do not end in a text joins the slot behind them. -/
theorem pushText_textNodes {before : List Markup} (h : ∀ m ∈ before.getLast?, m.isText = false)
    (after t : List Char) : pushText (before ++ textNodes after) t = before ++ textNodes (after ++ t) := by
  cases t with
  | nil => simp [pushText]
  | cons d t =>
    cases after with
    | cons c after => simp [pushText, textNodes]
    | nil =>
      simp only [textNodes, List.isEmpty_nil, if_true, List.append_nil, List.nil_append, pushText,
        List.isEmpty_cons, Bool.false_eq_true, if_false]
      split
      · rename_i last hlast
        cases h _ hlast
      · rfl

theorem nodes_addText (s : Slots) (t : List Char) : (s.addText t).nodes = pushText s.nodes t := by
  rcases s.cases_last with ⟨text, rfl⟩ | ⟨text, before, child, after, rfl⟩
  · have hpush : pushText ([] ++ textNodes text) t = [] ++ textNodes (text ++ t) :=
      pushText_textNodes (by simp) text t
    simpa [addText_childless, nodes] using hpush.symm
  · -- The slot that takes the text lies behind a child, so no text stands before it.
    let ahead := textNodes text ++ before.flatMap (fun (child, after) => child.val :: textNodes after) ++
      [child.val]
    have hlast : ∀ m ∈ ahead.getLast?, m.isText = false := by
      intro m hm
      rw [List.getLast?_concat] at hm
      cases hm
      exact child.property
    have hpush := pushText_textNodes hlast after t
    simpa [addText_concat, nodes, ahead] using hpush.symm

theorem nodes_addChild (s : Slots) (child : Child) : (s.addChild child).nodes = s.nodes ++ [child.val] := by
  simp [addChild, nodes, textNodes]

/-- As siblings, what is in the slots takes up a node just as other siblings do. -/
theorem nodes_add (s : Slots) (m : Markup) : (s.add m).nodes = push s.nodes m := by
  cases m with
  | text t => exact s.nodes_addText t
  | element tag children => exact s.nodes_addChild _
  | comment t => exact s.nodes_addChild _
  | instruction target t => exact s.nodes_addChild _

end Slots

/-- An element into which one node is put holds the parts of the node. -/
theorem partsAll_push_nil (node : Markup) : partsAll (push [] node) = node.parts := by
  have hfilled : (Slots.empty.add node).nodes = push [] node := Slots.empty.nodes_add node
  rw [← hfilled, Slots.partsAll_nodes, Slots.parts_add]
  rfl

end DeltaPreview.Markup
