import DeltaPreview.Markup.Basic
import Mathlib.Data.List.Basic

/-!
# Trees of known elements

`Markup.MadeOf p` says that a tree holds elements and texts only, and that `p` holds of the tag and the
children of every element.  Adding nodes to siblings keeps it.  Nodes can be added in several steps, and
texts that are added one after the other are joined.
-/

namespace DeltaPreview.Markup

mutual

/-- A tree of texts and of elements whose tag and children satisfy `p`. -/
def MadeOf (p : Tag → List Markup → Prop) : Markup → Prop
  | .text _ => True
  | .element tag children => p tag children ∧ AllMadeOf p children
  | .comment _ => False
  | .instruction _ _ => False

/-- A sequence of such trees. -/
def AllMadeOf (p : Tag → List Markup → Prop) : List Markup → Prop
  | [] => True
  | m :: ms => MadeOf p m ∧ AllMadeOf p ms

end

variable {p q : Tag → List Markup → Prop}

theorem allMadeOf_iff {ms : List Markup} : AllMadeOf p ms ↔ ∀ m ∈ ms, MadeOf p m := by
  induction ms with
  | nil => simp [AllMadeOf]
  | cons m ms ih => simp [AllMadeOf, ih]

mutual

theorem MadeOf.mono (h : ∀ tag children, p tag children → q tag children) :
    ∀ m : Markup, MadeOf p m → MadeOf q m
  | .text _, _ => trivial
  | .element tag children, hm => ⟨h tag children hm.1, AllMadeOf.mono h children hm.2⟩
  | .comment _, hm => hm.elim
  | .instruction _ _, hm => hm.elim

theorem AllMadeOf.mono (h : ∀ tag children, p tag children → q tag children) :
    ∀ ms : List Markup, AllMadeOf p ms → AllMadeOf q ms
  | [], _ => trivial
  | m :: ms, hms => ⟨MadeOf.mono h m hms.1, AllMadeOf.mono h ms hms.2⟩

end

/-- Adding a text extends the last text, or adds one. -/
theorem pushText_cases (siblings : List Markup) (t : List Char) :
    (t = [] ∧ pushText siblings t = siblings) ∨
    (∃ before last, siblings = before ++ [text last] ∧
      pushText siblings t = before ++ [text (last ++ t)]) ∨
    pushText siblings t = siblings ++ [text t] := by
  unfold pushText
  split
  · rename_i ht
    exact .inl ⟨List.isEmpty_iff.mp ht, rfl⟩
  · split
    · rename_i last hlast
      exact .inr (.inl ⟨siblings.dropLast, last,
        (List.dropLast_append_getLast? (text last) hlast).symm, rfl⟩)
    · exact .inr (.inr rfl)

/-- Texts that are added one after the other are joined. -/
theorem pushText_pushText (siblings : List Markup) (s t : List Char) :
    pushText (pushText siblings s) t = pushText siblings (s ++ t) := by
  cases s with
  | nil => rfl
  | cons c s =>
    cases t with
    | nil => simp [pushText]
    | cons d t =>
      unfold pushText
      simp only [List.isEmpty_cons, List.cons_append, Bool.false_eq_true, if_false]
      cases hlast : siblings.getLast? with
      | none => simp
      | some m => cases m <;> simp

theorem pushAll_concat (siblings nodes : List Markup) (m : Markup) :
    pushAll siblings (nodes ++ [m]) = push (pushAll siblings nodes) m := by
  simp [pushAll, List.foldl_append]

theorem pushAll_append (siblings ms ns : List Markup) :
    pushAll siblings (ms ++ ns) = pushAll (pushAll siblings ms) ns := List.foldl_append

/-- Nodes that are no texts are added as they are. -/
theorem pushAll_of_not_text {siblings nodes : List Markup} (h : ∀ m ∈ nodes, m.isText = false) :
    pushAll siblings nodes = siblings ++ nodes := by
  induction nodes generalizing siblings with
  | nil => simp [pushAll]
  | cons m ms ih =>
    have hm := h m List.mem_cons_self
    have hpush : push siblings m = siblings ++ [m] := by
      cases m with
      | text t => cases hm
      | element tag children => rfl
      | comment t => rfl
      | instruction target t => rfl
    show pushAll (push siblings m) ms = siblings ++ m :: ms
    rw [hpush, ih fun k hk => h k (List.mem_cons_of_mem _ hk), List.append_assoc,
      List.singleton_append]

section Push

variable {q : Markup → Prop} {siblings : List Markup}

/-- What holds of all texts and of some siblings still holds when a text is added to them. -/
theorem forall_pushText (htext : ∀ t, q (text t)) (h : ∀ m ∈ siblings, q m) (t : List Char) :
    ∀ m ∈ pushText siblings t, q m := by
  rcases pushText_cases siblings t with ⟨-, h'⟩ | ⟨before, last, rfl, h'⟩ | h'
  · rwa [h']
  · rw [h']
    simp only [List.forall_mem_append, List.forall_mem_singleton] at h ⊢
    exact ⟨h.1, htext _⟩
  · rw [h']
    simp only [List.forall_mem_append, List.forall_mem_singleton]
    exact ⟨h, htext t⟩

theorem forall_push (htext : ∀ t, q (text t)) (h : ∀ m ∈ siblings, q m) {m : Markup} (hm : q m) :
    ∀ k ∈ push siblings m, q k := by
  have happend : ∀ k ∈ siblings ++ [m], q k := by
    simp only [List.forall_mem_append, List.forall_mem_singleton]
    exact ⟨h, hm⟩
  cases m with
  | text t => exact forall_pushText htext h t
  | element tag children => exact happend
  | comment t => exact happend
  | instruction target t => exact happend

theorem forall_pushAll (htext : ∀ t, q (text t)) (h : ∀ m ∈ siblings, q m) {nodes : List Markup}
    (hnodes : ∀ m ∈ nodes, q m) : ∀ m ∈ pushAll siblings nodes, q m := by
  induction nodes generalizing siblings with
  | nil => exact h
  | cons m ms ih =>
    have hm := hnodes m List.mem_cons_self
    exact ih (forall_push htext h hm) fun k hk => hnodes k (List.mem_cons_of_mem _ hk)

end Push

end DeltaPreview.Markup
