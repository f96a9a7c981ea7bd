import DeltaPreview.Text.Blank
import DeltaPreview.Text.Compatible
import Mathlib.Data.List.Basic
import Mathlib.Data.List.TakeWhile

/-!
# Trimmed texts, and texts that markup can hold

A trimmed text is what stands between the blanks at the two ends of a text (`exists_trim`), and only that
(`trim_between`).  A text can be put into a markup tree if all its code points are characters that markup
can hold (`toMarkup_eq_ok_iff`); a text without surrogates that cannot is incompatible
(`toMarkup_eq_incompatible`).
-/

namespace DeltaPreview.Text

/-! ### Blanks at the ends -/

/-- A text that neither begins nor ends with a blank. -/
structure IsTrimmed (t : Text) : Prop where
  head : ∀ g ∈ t.head?, g.isBlank = false
  last : ∀ g ∈ t.getLast?, g.isBlank = false

theorem trimRight_of_allBlank {t : Text} (h : t.allBlank = true) : trimRight t = [] := by
  induction t with
  | nil => rfl
  | cons g t ih =>
    obtain ⟨hg, ht⟩ : g.isBlank = true ∧ allBlank t = true := by simpa [allBlank] using h
    simp [trimRight, ih ht, hg]

theorem trimRight_append {t gap : Text} (h : gap.allBlank = true) :
    trimRight (t ++ gap) = trimRight t := by
  induction t with
  | nil => rw [List.nil_append, trimRight_of_allBlank h]; rfl
  | cons g t ih => rw [List.cons_append, trimRight, ih, trimRight]

theorem exists_trimRight (t : Text) :
    ∃ gap : Text, gap.allBlank = true ∧ t = trimRight t ++ gap := by
  induction t with
  | nil => exact ⟨[], rfl, rfl⟩
  | cons g t ih =>
    obtain ⟨gap, hgap, ht⟩ := ih
    rw [trimRight]
    cases hkept : trimRight t with
    | nil =>
      rw [hkept, List.nil_append] at ht
      cases hblank : g.isBlank with
      | true => exact ⟨g :: t, by simpa [allBlank, hblank, ht] using hgap, rfl⟩
      | false => exact ⟨gap, hgap, by simp [ht]⟩
    | cons d kept =>
      rw [hkept] at ht
      exact ⟨gap, hgap, by rw [List.cons_append, ← ht]⟩

theorem getLast_trimRight (t : Text) : ∀ g ∈ (trimRight t).getLast?, g.isBlank = false := by
  induction t with
  | nil => simp [trimRight]
  | cons g t ih =>
    rw [trimRight]
    cases hkept : trimRight t with
    | nil =>
      cases hblank : g.isBlank with
      | true => simp
      | false => simpa using hblank
    | cons d kept =>
      rw [hkept] at ih
      simpa [List.getLast?_cons_cons] using ih

theorem head_trimLeft (t : Text) : ∀ g ∈ (trimLeft t).head?, g.isBlank = false := by
  intro g hg
  have hnot := List.head?_dropWhile_not CodePoint.isBlank t
  rw [← trimLeft, Option.mem_def.mp hg] at hnot
  exact hnot

theorem isTrimmed_trim (t : Text) : IsTrimmed t.trim := by
  refine ⟨fun g hg => head_trimLeft t g ?_, getLast_trimRight _⟩
  obtain ⟨gap, -, hleft⟩ := exists_trimRight (trimLeft t)
  rw [trim] at hg
  rw [hleft]
  cases hkept : trimRight (trimLeft t) with
  | nil =>
    rw [hkept] at hg
    cases hg
  | cons d kept =>
    rw [hkept] at hg
    exact hg

/-- A text is its trimmed text between blanks. -/
theorem exists_trim (t : Text) :
    ∃ lead tail : Text, lead.allBlank = true ∧ tail.allBlank = true ∧ t = lead ++ t.trim ++ tail := by
  obtain ⟨tail, htail, hright⟩ := exists_trimRight (trimLeft t)
  have hleft : t.takeWhile CodePoint.isBlank ++ trimLeft t = t := List.takeWhile_append_dropWhile
  refine ⟨t.takeWhile CodePoint.isBlank, tail, List.all_takeWhile, htail, ?_⟩
  rw [List.append_assoc, trim, ← hright, hleft]

theorem trim_subset (t : Text) : t.trim ⊆ t := by
  obtain ⟨lead, tail, -, -, ht⟩ := exists_trim t
  intro g hg
  rw [ht]
  simp [hg]

/-- Nothing else than a trimmed text between blanks is trimmed to it. -/
theorem trim_between {lead body tail : Text} (hlead : lead.allBlank = true) (hbody : IsTrimmed body)
    (htail : tail.allBlank = true) : (lead ++ body ++ tail).trim = body := by
  have hleft : trimLeft (lead ++ (body ++ tail)) = trimLeft (body ++ tail) :=
    List.dropWhile_append_of_pos (List.all_eq_true.mp hlead)
  rw [trim, List.append_assoc, hleft]
  cases body with
  | nil =>
    have hnil : trimLeft tail = [] := List.dropWhile_eq_nil_iff.mpr (List.all_eq_true.mp htail)
    rw [List.nil_append, hnil]
    rfl
  | cons g body =>
    have hsame : trimLeft (g :: body ++ tail) = g :: body ++ tail :=
      List.dropWhile_cons_of_neg (by simp [hbody.head g rfl])
    rw [hsame, trimRight_append htail, trimRight_eq_self hbody.last]

/-- If the first of two texts is not blank, or the second does not begin with a blank, then the first alone
is trimmed on the left. -/
theorem trimLeft_append {a b : Text} (h : trimLeft a ≠ [] ∨ ∀ g ∈ b.head?, g.isBlank = false) :
    trimLeft (a ++ b) = trimLeft a ++ b := by
  cases hleft : trimLeft a with
  | nil =>
    have hhead := h.resolve_left (fun hne => hne hleft)
    rw [trimLeft, List.dropWhile_append, ← trimLeft, hleft]
    cases b with
    | nil => rfl
    | cons g b => exact List.dropWhile_cons_of_neg (by simp [hhead g rfl])
  | cons g left =>
    rw [trimLeft, List.dropWhile_append, ← trimLeft, hleft]
    rfl

/-- The same on the right. -/
theorem trimRight_append_left {a b : Text}
    (h : trimRight b ≠ [] ∨ ∀ g ∈ a.getLast?, g.isBlank = false) :
    trimRight (a ++ b) = a ++ trimRight b := by
  induction a with
  | nil => rfl
  | cons g a ih =>
    cases a with
    | nil =>
      rw [List.singleton_append, trimRight]
      cases hright : trimRight b with
      | nil =>
        have hlast := h.resolve_left (fun hne => hne hright)
        simp [hlast g rfl]
      | cons d right => rfl
    | cons d a =>
      rw [List.getLast?_cons_cons] at h
      rw [List.cons_append, trimRight, ih h]
      rfl

/-- Around a text that is not empty only the outer ends are trimmed, if on each side there is something
visible or the text does not begin or end with a blank there. -/
theorem trim_around {a b c : Text} (hc : c ≠ [])
    (hleft : trimLeft a ≠ [] ∨ ∀ g ∈ c.head?, g.isBlank = false)
    (hright : trimRight b ≠ [] ∨ ∀ g ∈ c.getLast?, g.isBlank = false) :
    (a ++ (c ++ b)).trim = trimLeft a ++ (c ++ trimRight b) := by
  obtain ⟨d, c, rfl⟩ := List.exists_cons_of_ne_nil hc
  have hhead : trimLeft a ≠ [] ∨ ∀ g ∈ (d :: c ++ b).head?, g.isBlank = false := hleft
  have hlast : trimRight b ≠ [] ∨ ∀ g ∈ (trimLeft a ++ d :: c).getLast?, g.isBlank = false := by
    rwa [List.getLast?_append_of_ne_nil _ hc]
  rw [trim, trimLeft_append hhead, ← List.append_assoc, trimRight_append_left hlast,
    List.append_assoc]

theorem head_trimRight {t : Text} : ∀ g ∈ (trimRight t).head?, g ∈ t.head? := by
  intro g hg
  obtain ⟨gap, -, ht⟩ := exists_trimRight t
  rw [ht, List.head?_append, Option.mem_def.mp hg]
  rfl

/-- A space in front of a text is trimmed with it, or stays in front of it. -/
theorem trimRight_space (t : Text) :
    trimRight (.char ' ' :: t) = if trimRight t = [] then [] else .char ' ' :: trimRight t := by
  rw [trimRight]
  cases trimRight t <;> rfl

/-- Two texts with a space between them: the blanks at the borders are kept, if there is something on
both sides of them. -/
theorem trim_append_space (a b : Text) :
    ∃ gap : Text, gap.allBlank = true ∧ (a ++ .char ' ' :: b).trim = a.trim ++ (gap ++ b.trim) ∧
      (gap = [] → a.trim = [] ∨ b.trim = []) := by
  obtain ⟨la, ta, hla, hta, ha⟩ := exists_trim a
  obtain ⟨lb, tb, hlb, htb, hb⟩ := exists_trim b
  have htrima := isTrimmed_trim a
  have htrimb := isTrimmed_trim b
  generalize a.trim = s at ha htrima ⊢
  generalize b.trim = t at hb htrimb ⊢
  have hgap : allBlank (ta ++ .char ' ' :: lb) = true := by
    rw [allBlank, List.all_append, List.all_cons]
    exact Bool.and_eq_true_iff.mpr ⟨hta, Bool.and_eq_true_iff.mpr ⟨by decide, hlb⟩⟩
  rw [ha, hb]
  by_cases hs : s = []
  · -- Nothing stands before the space: all blanks up to the second text are trimmed.
    have hlead : allBlank (la ++ (ta ++ .char ' ' :: lb)) = true := by
      rw [allBlank, List.all_append]
      exact Bool.and_eq_true_iff.mpr ⟨hla, hgap⟩
    have htrim := trim_between hlead htrimb htb
    exact ⟨[], rfl, by simpa [hs] using htrim, fun _ => .inl hs⟩
  by_cases ht : t = []
  · have htail : allBlank (ta ++ .char ' ' :: lb ++ tb) = true := by
      rw [allBlank, List.all_append]
      exact Bool.and_eq_true_iff.mpr ⟨hgap, htb⟩
    have htrim := trim_between hla htrima htail
    exact ⟨[], rfl, by simpa [ht] using htrim, fun _ => .inr ht⟩
  · have hbody : IsTrimmed (s ++ (ta ++ .char ' ' :: lb ++ t)) := by
      refine ⟨?_, ?_⟩
      · obtain ⟨g, s, rfl⟩ := List.exists_cons_of_ne_nil hs
        exact htrima.head
      · rw [List.getLast?_append_of_ne_nil _ (by simp), List.getLast?_append_of_ne_nil _ ht]
        exact htrimb.last
    have htrim := trim_between hla hbody htb
    exact ⟨ta ++ .char ' ' :: lb, hgap, by simpa using htrim, by simp⟩

/-! ### Texts that markup can hold -/

/-- A text of characters that markup can hold. -/
def fitsMarkup (t : Text) : Bool := t.all fun g => g.toChar?.any compatibleChar

theorem fitsMarkup_of_subset {s t : Text} (ht : t.fitsMarkup = true) (h : s ⊆ t) :
    s.fitsMarkup = true :=
  List.all_eq_true.mpr fun g hg => List.all_eq_true.mp ht g (h hg)

theorem firstSurrogates_eq_none_iff {t : Text} :
    firstSurrogates t = none ↔ ∀ g ∈ t, g.toChar?.isSome = true := by
  induction t with
  | nil => simp [firstSurrogates]
  | cons g t ih =>
    cases g with
    | char c => simp [firstSurrogates, ih]
    | surrogate i => simp [firstSurrogates]

theorem isPaired_iff_firstSurrogates {t : Text} : t.isPaired = true ↔ t.firstSurrogates = none := by
  rw [firstSurrogates_eq_none_iff, isPaired, List.all_eq_true]

theorem fitsMarkup_iff {t : Text} :
    t.fitsMarkup = true ↔ firstSurrogates t = none ∧ t.chars.all compatibleChar = true := by
  rw [firstSurrogates_eq_none_iff, fitsMarkup, List.all_eq_true, List.all_eq_true]
  constructor
  · intro h
    refine ⟨fun g hg => ?_, fun c hc => ?_⟩
    · cases g with
      | char c => rfl
      | surrogate i => simpa using h (.surrogate i) hg
    · obtain ⟨g, hg, hgc⟩ := List.mem_filterMap.mp hc
      simpa [hgc] using h g hg
  · rintro ⟨hsome, hall⟩ g hg
    obtain ⟨c, hc⟩ := Option.isSome_iff_exists.mp (hsome g hg)
    simpa [hc] using hall c (List.mem_filterMap.mpr ⟨g, hg, hc⟩)

theorem toMarkup_eq_ok_iff {t : Text} {cs : List Char} :
    t.toMarkup = .ok cs ↔ t.fitsMarkup = true ∧ t.chars = cs := by
  rw [fitsMarkup_iff, toMarkup]
  cases firstSurrogates t with
  | none =>
    cases t.chars.all compatibleChar <;> simp
  | some found => simp

theorem fitsMarkup_of_toMarkup_eq_error {t : Text} {refusal : Refusal}
    (h : t.toMarkup = .error refusal) : t.fitsMarkup = false := by
  refine Bool.eq_false_iff.mpr fun hfits => ?_
  rw [toMarkup_eq_ok_iff.mpr ⟨hfits, rfl⟩] at h
  cases h

theorem isPaired_of_fitsMarkup {t : Text} (h : t.fitsMarkup = true) : t.isPaired = true :=
  List.all_eq_true.mpr (firstSurrogates_eq_none_iff.mp (fitsMarkup_iff.mp h).1)

theorem isPaired_of_allBlank {t : Text} (h : t.allBlank = true) : t.isPaired = true := by
  refine List.all_eq_true.mpr fun g hg => ?_
  cases g with
  | char c => rfl
  | surrogate i => simpa using List.all_eq_true.mp h _ hg

/-- A text that cannot be put into a markup tree is incompatible, if it has no surrogates. -/
theorem toMarkup_eq_incompatible {t : Text} (h : t.fitsMarkup = false) (hpaired : t.isPaired = true) :
    t.toMarkup = .error .incompatible := by
  have hnone : firstSurrogates t = none :=
    firstSurrogates_eq_none_iff.mpr (List.all_eq_true.mp hpaired)
  have hall : t.chars.all compatibleChar = false := by
    refine Bool.eq_false_iff.mpr fun hall => ?_
    rw [fitsMarkup_iff.mpr ⟨hnone, hall⟩] at h
    cases h
  simp [toMarkup, hnone, hall]

end DeltaPreview.Text
