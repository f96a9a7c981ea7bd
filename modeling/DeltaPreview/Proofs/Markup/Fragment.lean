import DeltaPreview.Markup.Fragment
import DeltaPreview.Proofs.Markup.Slots
import DeltaPreview.Proofs.Result

/-!
# The parts of finished markup

No tree that is read has an empty text in it (`Markup.solid_nodesOf`), whether it is read as XML or as
HTML.  So the nodes of finished markup can be told from their parts: if there is one part and it is no
character, the markup stands for that child, and otherwise for a `span` with all the parts in it
(`Markup.parts_wrapped`).
-/

namespace DeltaPreview

/-! ### Trees without empty texts -/

namespace Markup

mutual

/-- A tree without empty texts. -/
def Solid : Markup → Prop
  | .text t => t ≠ []
  | .element _ children => AllSolid children
  | .comment _ => True
  | .instruction _ _ => True

/-- A sequence of such trees. -/
def AllSolid : List Markup → Prop
  | [] => True
  | m :: ms => Solid m ∧ AllSolid ms

end

variable {tag : Tag} {children siblings : List Markup} {t target : List Char}

@[simp] theorem solid_text : (text t).Solid ↔ t ≠ [] := by rw [Solid]

@[simp] theorem solid_element : (element tag children).Solid ↔ AllSolid children := by rw [Solid]

@[simp] theorem solid_comment : (comment t).Solid := by simp [Solid]

@[simp] theorem solid_instruction : (instruction target t).Solid := by simp [Solid]

@[simp] theorem allSolid_nil : AllSolid [] := by simp [AllSolid]

theorem allSolid_iff {ms : List Markup} : AllSolid ms ↔ ∀ m ∈ ms, m.Solid := by
  induction ms with
  | nil => simp
  | cons m ms ih => simp [AllSolid, ih]

theorem allSolid_concat {m : Markup} : AllSolid (siblings ++ [m]) ↔ AllSolid siblings ∧ m.Solid := by
  simp only [allSolid_iff, List.forall_mem_append, List.forall_mem_singleton]

/-- Adding a text, even an empty one, adds no empty text. -/
theorem allSolid_pushText (h : AllSolid siblings) (t : List Char) : AllSolid (pushText siblings t) := by
  by_cases ht : t = []
  · subst ht
    exact h
  · rcases pushText_cases siblings t with ⟨-, hsame⟩ | ⟨before, last, rfl, hjoined⟩ | hadded
    · rwa [hsame]
    · rw [hjoined, allSolid_concat]
      exact ⟨(allSolid_concat.mp h).1, by simp [ht]⟩
    · rw [hadded, allSolid_concat]
      exact ⟨h, by simp [ht]⟩

end Markup

open Markup

/-! ### Reading XML -/

namespace Xml

/-- Events build nodes without empty texts. -/
theorem allSolid_build? {opened : List Frame} {siblings nodes : List Markup} {scope : List Declared}
    {events : List Event} (hopened : ∀ frame ∈ opened, AllSolid frame.before)
    (hsiblings : AllSolid siblings) (h : build? opened siblings scope events = some nodes) :
    AllSolid nodes := by
  induction events generalizing opened siblings scope with
  | nil =>
    rw [build?] at h
    split at h
    · cases h
      exact hsiblings
    · cases h
  | cons event events ih =>
    cases event with
    | text t => exact ih hopened (allSolid_pushText hsiblings t) h
    | comment t => exact ih hopened (allSolid_concat.mpr ⟨hsiblings, solid_comment⟩) h
    | instruction target t => exact ih hopened (allSolid_concat.mpr ⟨hsiblings, solid_instruction⟩) h
    | start name attributes closed =>
      rw [build?] at h
      split at h
      · cases h
      · split at h
        · exact ih hopened (allSolid_concat.mpr ⟨hsiblings, by simp⟩) h
        · exact ih (List.forall_mem_cons.mpr ⟨hsiblings, hopened⟩) allSolid_nil h
    | stop name =>
      cases opened with
      | nil => cases h
      | cons frame opened =>
        obtain ⟨hbefore, hopened⟩ := List.forall_mem_cons.mp hopened
        rw [build?] at h
        split at h
        · exact ih hopened (allSolid_concat.mpr ⟨hbefore, solid_element.mpr hsiblings⟩) h
        · cases h

theorem allSolid_content? {s : List Char} {nodes : List Markup} (h : content? s = some nodes) :
    AllSolid nodes := by
  obtain ⟨events, -, hbuild⟩ := Option.bind_eq_some_iff.mp h
  exact allSolid_build? (by simp) allSolid_nil hbuild

end Xml

/-! ### Reading HTML -/

namespace Html

namespace Nest

/-- What holds of a document however the reader changes it: it adds texts and comments, opens and closes
elements, and counts the tags that it ignores. -/
structure Stable (p : Nest → Prop) : Prop where
  text {n : Nest} (t : List Char) : p n → p (n.add (.text t))
  comment {n : Nest} (t : List Char) : p n → p (n.add (.comment t))
  push {n : Nest} (tag : Tag) : p n → p (n.push tag)
  pop {n : Nest} : p n → p n.pop
  ignored {n : Nest} (count : Nat) : p n → p { n with ignored := count }

namespace Stable

variable {p : Nest → Prop} {n : Nest}

theorem closeFor (hp : Stable p) (new : String) (h : p n) : p (n.closeFor new) := by
  fun_induction Nest.closeFor new n with
  | case1 => exact h
  | case2 n o opened _ _ ih => exact ih (hp.pop h)
  | case3 => exact h

theorem popMany (hp : Stable p) (count : Nat) (h : p n) : p (n.popMany count) := by
  induction count generalizing n with
  | zero => exact h
  | succ count ih => exact ih (hp.pop h)

theorem imply (hp : Stable p) (name : String) (h : p n) : p (n.imply name) := by
  have hroot : p (if n.opened.isEmpty then n.push (.plain "html" []) else n) := by
    split
    · exact hp.push _ h
    · exact h
  unfold Nest.imply
  split
  · exact h
  · dsimp only
    -- Inside the root, a head or a body is opened or nothing is.
    generalize (if n.opened.isEmpty then n.push (.plain "html" []) else n) = root at hroot ⊢
    split
    · exact hroot
    · split
      · split
        · exact hroot
        · exact hp.push _ hroot
      · split
        · exact hroot
        · exact hp.push _ hroot

theorem start (hp : Stable p) (name : String) (attributes : List Attribute) (ending : TagEnd)
    (h : p n) : p (n.start name attributes ending) := by
  have himplied := hp.imply name (hp.closeFor name h)
  unfold Nest.start
  dsimp only
  split
  · exact himplied
  · split
    · split
      · exact hp.pop (hp.ignored _ himplied)
      · exact hp.ignored _ himplied
    · split
      · exact hp.pop (hp.push _ himplied)
      · exact hp.push _ himplied

theorem stop (hp : Stable p) (name : String) (h : p n) : p (n.stop name) := by
  unfold Nest.stop
  split
  · exact hp.ignored _ h
  · exact hp.popMany _ h

theorem readText (hp : Stable p) (t : List Char) (h : p n) : p (n.text t) := by
  -- Outside a head and a body, the blanks of a text stay there and the rest opens a paragraph.
  have hblanks : p (if n.opened.isEmpty then n else n.add (.text (t.takeWhile isSpace))) := by
    split
    · exact h
    · exact hp.text _ h
  unfold Nest.text
  split
  · dsimp only
    split
    · exact hblanks
    · exact hp.text _ (hp.imply _ (hp.closeFor _ hblanks))
  · exact hp.text t h

theorem step (hp : Stable p) (token : Token) (h : p n) : p (n.step token) := by
  cases token with
  | text t => exact hp.readText t h
  | comment t => exact hp.comment t h
  | start name found ending => exact hp.start _ _ ending h
  | stop name => exact hp.stop _ h

/-- What every change keeps holds when all tokens are read. -/
theorem run (hp : Stable p) (tokens : List Token) (h : p n) : p (tokens.foldl Nest.step n) := by
  induction tokens generalizing n with
  | nil => exact h
  | cons token tokens ih => exact ih (hp.step token h)

end Stable

/-- A document without empty texts so far. -/
structure IsSolid (n : Nest) : Prop where
  siblings : AllSolid n.siblings
  before : ∀ o ∈ n.opened, AllSolid o.before

theorem stable_isSolid : Stable IsSolid where
  text t h := ⟨allSolid_pushText h.siblings t, h.before⟩
  comment t h := ⟨allSolid_concat.mpr ⟨h.siblings, solid_comment⟩, h.before⟩
  push tag h := ⟨allSolid_nil, List.forall_mem_cons.mpr ⟨h.siblings, h.before⟩⟩
  pop {n} h := by
    unfold pop
    split
    · exact h
    · rename_i o opened hopened
      obtain ⟨hbefore, hrest⟩ := List.forall_mem_cons.mp (hopened ▸ h.before)
      exact ⟨allSolid_concat.mpr ⟨hbefore, solid_element.mpr h.siblings⟩, hrest⟩
  ignored count h := ⟨h.siblings, h.before⟩

end Nest

theorem allSolid_document (s : List Char) : AllSolid (document s) := by
  have hempty : Nest.empty.IsSolid := ⟨allSolid_nil, by simp [Nest.empty]⟩
  have hread := Nest.stable_isSolid.run (tokens s) hempty
  exact (Nest.stable_isSolid.popMany _ hread).siblings

theorem allSolid_childrenOf? {name : String} {m : Markup} {children : List Markup} (hm : m.Solid)
    (h : childrenOf? name m = some children) : AllSolid children := by
  unfold childrenOf? at h
  split at h
  · split at h
    · cases h
      exact solid_element.mp hm
    · cases h
  · cases h

theorem allSolid_bodies? {nodes : List Markup} {bodies : List (List Markup)} (hnodes : AllSolid nodes)
    (h : bodies? nodes = some bodies) : ∀ body ∈ bodies, AllSolid body := by
  -- A body lies in the root, and the root is one of the nodes.
  obtain ⟨children, hfound, rfl⟩ := Option.map_eq_some_iff.mp h
  obtain ⟨root, hroot, hchildren⟩ := List.exists_of_findSome?_eq_some hfound
  have hsolid := allSolid_childrenOf? (allSolid_iff.mp hnodes root hroot) hchildren
  intro body hbody
  obtain ⟨m, hm, hof⟩ := List.mem_filterMap.mp hbody
  exact allSolid_childrenOf? (allSolid_iff.mp hsolid m hm) hof

theorem allSolid_fragment {s : List Char} {nodes : List Markup} (h : fragment s = .ok nodes) :
    AllSolid nodes := by
  unfold fragment at h
  split at h
  · cases h
  · rename_i content hbodies
    cases h
    have hcontent := allSolid_bodies? (allSolid_document _) hbodies content (by simp)
    unfold dropLeadingBlank
    split
    · split
      · exact hcontent.2
      · exact hcontent
    · exact hcontent
  · cases h

end Html

/-! ### Finished markup -/

namespace Markup

/-- No tree that is read has an empty text in it. -/
theorem allSolid_nodesOf {s : List Char} {nodes : List Markup} (h : nodesOf s = .ok nodes) :
    AllSolid nodes := by
  unfold nodesOf at h
  split at h
  · rename_i hcontent
    cases h
    exact Xml.allSolid_content? hcontent
  · exact Html.allSolid_fragment (mapError_eq_ok.mp h)

/-- Parts as one child: a single child is itself, and anything else is put into a `span`. -/
def Part.asChild : List Part → Part
  | [.element tag parts] => .element tag parts
  | [.comment t] => .comment t
  | [.instruction target t] => .instruction target t
  | parts => .element (.plain "span" []) parts

theorem parts_ne_nil {m : Markup} (h : m.Solid) : m.parts ≠ [] := by
  cases m with
  | text t => simpa using h
  | element tag children => simp [parts]
  | comment t => simp [parts]
  | instruction target t => simp [parts]

/-- Parts that are not one child are put into a `span`. -/
theorem Part.asChild_span {ps : List Part} (h : ∀ p, ps = [p] → ∃ c, p = .char c) :
    asChild ps = .element (.plain "span" []) ps := by
  unfold asChild
  split
  · obtain ⟨c, hc⟩ := h _ rfl
    cases hc
  · obtain ⟨c, hc⟩ := h _ rfl
    cases hc
  · obtain ⟨c, hc⟩ := h _ rfl
    cases hc
  · rfl

/-- Finished markup stands for one child, which its parts determine. -/
theorem parts_wrapped {nodes : List Markup} (h : AllSolid nodes) :
    (wrapped nodes).parts = [Part.asChild (partsAll nodes)] := by
  have hspan (hone : ∀ p, partsAll nodes = [p] → ∃ c, p = .char c) :
      (plain "span" [] nodes).parts = [Part.asChild (partsAll nodes)] := by
    rw [Part.asChild_span hone, plain, parts]
  cases nodes with
  | nil => exact hspan (by simp)
  | cons m ms =>
    cases ms with
    | nil =>
      cases m with
      | text t =>
        refine hspan fun p hp => ?_
        have hmem : p ∈ partsAll [text t] := by simp [hp]
        obtain ⟨c, -, hc⟩ := List.mem_map.mp (by simpa using hmem)
        exact ⟨c, hc.symm⟩
      | element tag children => rfl
      | comment t => rfl
      | instruction target t => rfl
    | cons k ms =>
      have hwrapped : wrapped (m :: k :: ms) = plain "span" [] (m :: k :: ms) := by cases m <;> rfl
      rw [hwrapped]
      refine hspan fun p hp => ?_
      -- Each of the nodes has a part of its own.
      have hm := List.length_pos_iff.mpr (parts_ne_nil h.1)
      have hk := List.length_pos_iff.mpr (parts_ne_nil h.2.1)
      have hlength := congrArg List.length hp
      simp at hlength
      omega

end Markup

end DeltaPreview
