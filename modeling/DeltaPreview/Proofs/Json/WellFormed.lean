import DeltaPreview.Json.Reader
import DeltaPreview.Proofs.Result
import Mathlib.Algebra.Group.Nat.Defs
import Mathlib.Data.List.Induction
import Mathlib.Data.List.Nodup

/-!
# What reading yields

A value that is read nests no deeper than is allowed, its integers are not too long, and no object has a
key twice (`Json.WellFormed`, `Json.wellFormed_of_value`).
-/

namespace DeltaPreview.Json

/-- A value that could be read where nesting `depth` deep is allowed. -/
inductive WellFormed : Nat → Json → Prop
  | null {depth : Nat} : WellFormed depth .null
  | bool {depth : Nat} (b : Bool) : WellFormed depth (.bool b)
  | int {depth : Nat} {n : Int} (hshort : (Nat.toDigits 10 n.natAbs).length ≤ maxDigits) :
    WellFormed depth (.int n)
  | float {depth : Nat} {x : Double} (hnumber : x ≠ .nan) : WellFormed depth (.float x)
  | string {depth : Nat} (s : Text) : WellFormed depth (.string s)
  | array {depth : Nat} {items : List Json} (hitems : ∀ v ∈ items, WellFormed depth v) :
    WellFormed (depth + 1) (.array items)
  | object {depth : Nat} {members : List (Text × Json)} (hmembers : ∀ m ∈ members, WellFormed depth m.2)
    (hkeys : (members.map Prod.fst).Nodup) : WellFormed (depth + 1) (.object members)

/-! ### Numbers -/

theorem ofDigits_concat (ds : List Nat) (d : Nat) : ofDigits (ds ++ [d]) = 10 * ofDigits ds + d :=
  List.foldl_concat _ _ _ _

/-- Digits spell a number that is no longer than they are. -/
theorem ofDigits_lt {ds : List Nat} (h : ∀ d ∈ ds, d < 10) : ofDigits ds < 10 ^ ds.length := by
  induction ds using List.reverseRecOn with
  | nil => decide
  | append_singleton ds d ih =>
    have hd := h d (by simp)
    have hds := ih fun e he => h e (List.mem_append_left _ he)
    rw [ofDigits_concat, List.length_append, List.length_singleton, Nat.pow_succ]
    omega

theorem digit?_lt {g : CodePoint} {d : Nat} (h : digit? g = some d) : d < 10 := by
  unfold digit? at h
  split at h
  next c =>
    split at h
    next hc =>
      rw [Char.isDigit, Bool.and_eq_true, decide_eq_true_eq, decide_eq_true_eq] at hc
      have hhigh : c.toNat ≤ 57 := hc.2
      have hzero : '0'.toNat = 48 := by decide
      obtain rfl := Option.some.inj h
      omega
    next => cases h
  next => cases h

theorem spanDigits_lt (s : Text) : ∀ d ∈ (spanDigits s).1, d < 10 := by
  fun_induction spanDigits s with
  | case1 => exact fun _ hd => absurd hd List.not_mem_nil
  | case2 g rest d hd ds r h ih =>
    rw [h] at ih
    exact List.forall_mem_cons.mpr ⟨digit?_lt hd, ih⟩
  | case3 => exact fun _ hd => absurd hd List.not_mem_nil

theorem spanWhole_lt (s : Text) : ∀ d ∈ (spanWhole s).1, d < 10 := by
  unfold spanWhole
  split
  · exact List.forall_mem_singleton.mpr (by decide)
  · exact spanDigits_lt _

/-- The integer part of a literal is not empty. -/
theorem read?_whole {s : Text} {n : NumberLiteral} (h : NumberLiteral.read? s = some n) :
    n.whole ≠ [] ∧ ∀ d ∈ n.whole, d < 10 := by
  unfold NumberLiteral.read? at h
  split at h
  next b t _ =>
    have hlt := spanWhole_lt t
    split at h
    next => cases h
    next whole afterWhole hne hw =>
      rw [hw] at hlt
      dsimp only at h
      split at h
      · cases h
        exact ⟨hne, hlt⟩
      · cases h
        exact ⟨hne, hlt⟩

theorem ofDecimal_ne_nan (negative : Bool) (digits : Nat) (exponent : Int) :
    Double.ofDecimal negative digits exponent ≠ .nan := by
  unfold Double.ofDecimal
  dsimp only
  repeat' split
  all_goals exact Double.noConfusion

theorem wellFormed_of_literal {n : NumberLiteral} (hne : n.whole ≠ []) (hlt : ∀ d ∈ n.whole, d < 10)
    {v : Json} (h : n.value = .ok v) (depth : Nat) : WellFormed depth v := by
  unfold NumberLiteral.value at h
  split at h
  next =>
    split at h
    next => cases h
    next hshort =>
      cases h
      refine .int (Nat.le_trans ?_ (Nat.not_lt.mp hshort))
      rw [Nat.length_toDigits_le_iff (by decide) (List.length_pos_iff.mpr hne)]
      have := ofDigits_lt hlt
      split <;> omega
  next =>
    cases h
    exact .float (ofDecimal_ne_nan _ _ _)

theorem wellFormed_of_atom {s rest : Text} {v : Json} (h : atom s = .ok (v, rest)) (depth : Nat) :
    WellFormed depth v := by
  unfold atom at h
  split at h
  next found hword =>
    cases h
    obtain ⟨⟨word, w⟩, hmem, hfound⟩ := List.exists_of_findSome?_eq_some hword
    obtain ⟨r, -, hw⟩ := Option.map_eq_some_iff.mp hfound
    obtain rfl : w = v := congrArg Prod.fst hw
    simp only [words, List.mem_cons, List.not_mem_nil, Prod.mk.injEq, or_false] at hmem
    rcases hmem with ⟨-, rfl⟩ | ⟨-, rfl⟩ | ⟨-, rfl⟩
    · exact .null
    · exact .bool true
    · exact .bool false
  next =>
    split at h
    next => cases h
    next =>
      split at h
      next => cases h
      next n hread =>
        obtain ⟨hne, hlt⟩ := read?_whole hread
        obtain ⟨w, hvalue, hw⟩ := map_eq_ok.mp h
        cases hw
        exact wellFormed_of_literal hne hlt hvalue depth

/-! ### Arrays and objects -/

/-- A member more keeps the keys apart. -/
theorem nodup_insert (key : Text) (v : Json) {members : List (Text × Json)}
    (h : (members.map Prod.fst).Nodup) : ((insert key v members).map Prod.fst).Nodup := by
  rw [map_fst_insert]
  split
  next => exact h
  next hnew =>
    refine List.nodup_append.mpr ⟨h, List.nodup_singleton _, fun a ha b hb hab => hnew ?_⟩
    rwa [← List.mem_singleton.mp hb, ← hab]

theorem forall_mem_insert {p : Json → Prop} (key : Text) {v : Json} (hv : p v)
    {members : List (Text × Json)} (h : ∀ m ∈ members, p m.2) : ∀ m ∈ insert key v members, p m.2 := by
  induction members with
  | nil => simpa [insert] using hv
  | cons m rest ih =>
    rw [List.forall_mem_cons] at h
    rw [insert]
    split
    · exact List.forall_mem_cons.mpr ⟨hv, h.2⟩
    · exact List.forall_mem_cons.mpr ⟨h.1, ih h.2⟩

theorem WellFormed.insert {depth : Nat} {found : List (Text × Json)}
    (hfound : WellFormed (depth + 1) (.object found)) (key : Text) {v : Json} (hv : WellFormed depth v) :
    WellFormed (depth + 1) (.object (Json.insert key v found)) := by
  cases hfound with
  | object hmembers hkeys => exact .object (forall_mem_insert key hv hmembers) (nodup_insert key v hkeys)

theorem wellFormed_empty (depth : Nat) : WellFormed (depth + 1) (.object []) :=
  .object (fun _ hm => absurd hm List.not_mem_nil) List.nodup_nil

theorem WellFormed.keys {depth : Nat} {members : List (Text × Json)}
    (h : WellFormed depth (.object members)) : (members.map Prod.fst).Nodup := by
  cases h with
  | object _ hkeys => exact hkeys

theorem WellFormed.of_mem_members {depth : Nat} {members : List (Text × Json)}
    (h : WellFormed depth (.object members)) {m : Text × Json} (hm : m ∈ members) :
    ∃ depth, WellFormed depth m.2 := by
  cases h with
  | object hmembers _ => exact ⟨_, hmembers m hm⟩

theorem WellFormed.of_mem_items {depth : Nat} {items : List Json} (h : WellFormed depth (.array items))
    {v : Json} (hv : v ∈ items) : ∃ depth, WellFormed depth v := by
  cases h with
  | array hitems => exact ⟨_, hitems v hv⟩

/-! ### Values -/

mutual

theorem wellFormed_of_value {depth : Nat} {s : Text} {r : Scanned Json s} (h : value depth s = .ok r) :
    WellFormed depth r.value := by
  unfold value at h
  split at h
  next rest =>
    split at h
    next => cases h
    next =>
      cases h
      exact .string _
  next rest =>
    have hblank := skipBlanks_length rest
    cases depth with
    | zero => cases h
    | succ depth =>
      rw [if_neg (Nat.succ_ne_zero depth)] at h
      split at h
      next =>
        cases h
        exact .array fun _ hv => absurd hv List.not_mem_nil
      next =>
        split at h
        next => cases h
        next hitems =>
          cases h
          exact .array (wellFormed_of_elements hitems)
  next rest =>
    have hblank := skipBlanks_length rest
    cases depth with
    | zero => cases h
    | succ depth =>
      rw [if_neg (Nat.succ_ne_zero depth)] at h
      split at h
      next =>
        cases h
        exact wellFormed_empty depth
      next =>
        split at h
        next => cases h
        next hmembers =>
          cases h
          exact wellFormed_of_members (wellFormed_empty depth) hmembers
  next =>
    split at h
    next => cases h
    next hatom =>
      cases h
      exact wellFormed_of_atom hatom depth
termination_by 2 * s.length
decreasing_by all_goals subst_vars; simp only [List.length_cons]; omega

theorem wellFormed_of_elements {depth : Nat} {s : Text} {r : Scanned (List Json) s}
    (h : elements depth s = .ok r) : ∀ v ∈ r.value, WellFormed depth v := by
  unfold elements at h
  split at h
  next => cases h
  next v after hlt hv =>
    have hvalue := wellFormed_of_value hv
    split at h
    next => cases h
    next =>
      cases h
      exact List.forall_mem_singleton.mpr hvalue
    next =>
      split at h
      next => cases h
      next hvs =>
        cases h
        exact List.forall_mem_cons.mpr ⟨hvalue, wellFormed_of_elements hvs⟩
termination_by 2 * s.length + 1

theorem wellFormed_of_members {depth : Nat} {found : List (Text × Json)} {s : Text}
    {r : Scanned (List (Text × Json)) s} (hfound : WellFormed (depth + 1) (.object found))
    (h : members depth found s = .ok r) : WellFormed (depth + 1) (.object r.value) := by
  unfold members at h
  split at h
  next => cases h
  next name afterName hname _ =>
    split at h
    next => cases h
    next afterColon hcolon _ =>
      have hblank := skipBlanks_length afterColon
      dsimp only at h
      split at h
      next => cases h
      next v after hlt hv =>
        have hvalue : WellFormed depth v := wellFormed_of_value hv
        have hinsert := hfound.insert name hvalue
        split at h
        next => cases h
        next =>
          cases h
          exact hinsert
        next =>
          split at h
          next => cases h
          next hall =>
            cases h
            -- Stated first: the goal is about a scan of the whole text, this about one of its end.
            have hresult := wellFormed_of_members hinsert hall
            exact hresult
termination_by 2 * s.length + 1

end

/-- What is read from a whole text is well formed. -/
theorem wellFormed_of_read {s : Text} {v : Json} (h : read s = .ok v) : WellFormed maxDepth v := by
  have h := mapError_eq_ok.mp h
  unfold document at h
  split at h
  next => cases h
  next =>
    split at h
    next => cases h
    next hv =>
      split at h
      next =>
        cases h
        exact wellFormed_of_value hv
      next => cases h

end DeltaPreview.Json
