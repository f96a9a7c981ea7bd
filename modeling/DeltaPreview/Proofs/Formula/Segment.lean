import DeltaPreview.Formula.Segment
import Mathlib.Data.List.Chain

/-!
# The segments of a text

Where a text is cut at its formulas, no two literal segments are neighbours: what is literal runs up to
a formula or to the end of the text (`split_apart`).  Nothing is lost: the segments with their dollars,
one after the other, are the text (`spelled_split`).
-/

namespace DeltaPreview.Segment

/-- Whether a segment is literal text. -/
def isLiteral : Segment → Bool
  | literal _ => true
  | _ => false

/-- One of two neighbours is a formula. -/
def Apart (a b : Segment) : Prop := a.isLiteral = false ∨ b.isLiteral = false

/-- Whatever stands before a formula stands apart from it. -/
theorem apart_append {segments rest : List Segment} {f : Segment} (hf : f.isLiteral = false)
    (h : segments.IsChain Apart) (hrest : rest.IsChain Apart) :
    (segments ++ f :: rest).IsChain Apart := by
  have hformula : (f :: rest).IsChain Apart := by
    cases rest with
    | nil => exact .singleton f
    | cons s rest => exact .cons_cons (.inl hf) hrest
  rw [List.isChain_append]
  refine ⟨h, hformula, fun a _ b hb => .inr ?_⟩
  cases hb
  exact hf

theorem apart_literalOf (t : Text) : (literalOf t).IsChain Apart := by
  cases t with
  | nil => exact .nil
  | cons g t => exact .singleton _

/-- Cutting a text at formulas of one kind leaves its literal segments apart. -/
theorem cut_apart (find? : (s : Text) → Option (Found s)) (formula : Text → Segment)
    (hformula : ∀ source, (formula source).isLiteral = false) (s : Text) :
    (cut find? formula s).IsChain Apart := by
  fun_induction cut find? formula s with
  | case1 s => exact apart_literalOf s
  | case2 s before source after shorter _ ih =>
    exact apart_append (hformula source) (apart_literalOf before) ih

/-- The segments of a text: no two literal ones are neighbours. -/
theorem split_apart (s : Text) : (split s).IsChain Apart := by
  have hblocks := cut_apart findBlock? block (fun _ => rfl) s
  unfold split
  generalize cut findBlock? block s = segments at hblocks
  induction segments with
  | nil => exact .nil
  | cons f rest ih =>
    have hrest := ih hblocks.tail
    cases f with
    | inline source => exact apart_append rfl .nil hrest
    | block source => exact apart_append rfl .nil hrest
    | literal t =>
      -- Only a literal segment is cut again, and its own segments are apart.
      have hinline := cut_apart findInline? inline (fun _ => rfl) t
      cases rest with
      | nil => simpa using hinline
      | cons next rest =>
        -- the next segment is a block, and stays as it is
        cases next with
        | literal u => exact absurd hblocks.rel (by simp [Apart, isLiteral])
        | inline source => exact apart_append rfl hinline hrest.tail
        | block source => exact apart_append rfl hinline hrest.tail

/-! ### Nothing is lost -/

theorem eq_of_breakAtPair {s before after : Text} (h : breakAtPair s = some (before, after)) :
    s = before ++ .char '$' :: .char '$' :: after := by
  fun_induction breakAtPair s generalizing before after with
  | case1 rest =>
    cases h
    rfl
  | case2 => cases h
  | case3 g rest _ ih =>
    obtain ⟨⟨b, a⟩, hfound, hpair⟩ := Option.map_eq_some_iff.mp h
    cases hpair
    rw [ih hfound]
    rfl

theorem eq_of_inlineBody? {s source after : Text} (h : inlineBody? s = some (source, after)) :
    s = source ++ .char '$' :: after := by
  unfold inlineBody? at h
  split at h
  · rename_i htake hdrop
    cases h
    rw [← List.takeWhile_append_dropWhile (p := isInlineChar) (l := s), htake, hdrop]
  · cases h

/-- A found formula, with what stands before and after it, is the text. -/
theorem spelled_findBlock? {s : Text} {found : Found s} (h : findBlock? s = some found) :
    found.before ++ spelled (.block found.source) ++ found.after = s := by
  unfold findBlock? at h
  split at h
  · cases h
  · rename_i before rest hopen
    split at h
    · cases h
    · rename_i source after hclose
      cases h
      simp [spelled, eq_of_breakAtPair hopen, eq_of_breakAtPair hclose]

theorem spelled_findInline? {s : Text} {found : Found s} (h : findInline? s = some found) :
    found.before ++ spelled (.inline found.source) ++ found.after = s := by
  induction s with
  | nil => cases h
  | cons g rest ih =>
    have hlater (f : Found rest) (hf : findInline? rest = some f) :
        g :: f.before ++ spelled (.inline f.source) ++ f.after = g :: rest :=
      congrArg (g :: ·) (ih hf)
    unfold findInline? at h
    simp only at h
    split at h
    · rename_i hdollar
      split at h
      · rename_i hbody
        cases h
        simp [spelled, hdollar, eq_of_inlineBody? hbody]
      · obtain ⟨f, hf, rfl⟩ := Option.map_eq_some_iff.mp h
        exact hlater f hf
    · obtain ⟨f, hf, rfl⟩ := Option.map_eq_some_iff.mp h
      exact hlater f hf

theorem spelled_literalOf (t : Text) : (literalOf t).flatMap spelled = t := by
  cases t with
  | nil => rfl
  | cons g t => simp [literalOf, spelled]

/-- Cutting a text at formulas keeps all of it. -/
theorem spelled_cut {find? : (s : Text) → Option (Found s)} {formula : Text → Segment}
    (hfind : ∀ s found, find? s = some found →
      found.before ++ spelled (formula found.source) ++ found.after = s) (s : Text) :
    (cut find? formula s).flatMap spelled = s := by
  fun_induction cut find? formula s with
  | case1 s => exact spelled_literalOf s
  | case2 s before source after shorter hfound ih =>
    rw [List.flatMap_append, List.flatMap_cons, spelled_literalOf, ih, ← List.append_assoc]
    exact hfind s _ hfound

/-- The segments of a text, one after the other with their dollars, are the text. -/
theorem spelled_split (s : Text) : (split s).flatMap spelled = s := by
  have hblocks := spelled_cut (fun _ _ => spelled_findBlock?) s
  unfold split
  generalize cut findBlock? block s = segments at hblocks
  rw [← hblocks, List.flatMap_assoc]
  congr 1
  funext segment
  cases segment with
  | literal t => exact spelled_cut (fun _ _ => spelled_findInline?) t
  | inline source => simp
  | block source => simp

end DeltaPreview.Segment
