import DeltaPreview.Double.Shortest
import DeltaPreview.Proofs.Double.Range
import Mathlib.Tactic.SplitIfs

/-!
# Which numbers round to a magnitude

A positive number rounds to a magnitude exactly if it lies in the interval that reaches half way to the
neighbouring magnitudes and contains its ends when the rank is even (`Double.RoundsTo`).  Here: what lies
in the interval is rounded to the magnitude (`Double.nearestRank_eq`).
-/

namespace DeltaPreview

/-- What lies at most half a step from a whole number of steps is rounded to it; exactly half a step from
an even one. -/
theorem roundEven_eq {num den n : Nat} (hden : 0 < den)
    (h : if n % 2 = 0 then 2 * (n * den) ≤ 2 * num + den ∧ 2 * num ≤ 2 * (n * den) + den
      else 2 * (n * den) < 2 * num + den ∧ 2 * num < 2 * (n * den) + den) :
    roundEven num den = n := by
  have hdivision := Nat.div_add_mod num den
  have hrest := Nat.mod_lt num hden
  have hle : 2 * (n * den) ≤ 2 * num + den ∧ 2 * num ≤ 2 * (n * den) + den := by
    split at h <;> omega
  -- The quotient is the number itself or the one before it.
  have hlow : n ≤ num / den + 1 := Nat.le_of_not_lt fun hlt => by
    have := Nat.mul_le_mul_right den (show num / den + 2 ≤ n by omega)
    rw [Nat.add_mul, Nat.mul_comm (num / den)] at this
    omega
  have hhigh : num / den ≤ n := Nat.le_of_not_lt fun hlt => by
    have := Nat.mul_le_mul_right den (show n + 1 ≤ num / den by omega)
    rw [Nat.add_mul, Nat.mul_comm (num / den)] at this
    omega
  unfold roundEven
  rcases (show n = num / den ∨ n = num / den + 1 by omega) with rfl | rfl
  · rw [Nat.mul_comm (num / den)] at h
    dsimp only
    split at h <;> split_ifs <;> omega
  · rw [Nat.add_mul, Nat.mul_comm (num / den)] at h
    dsimp only
    split at h <;> split_ifs <;> omega

namespace Double

/-! ### Magnitudes -/

/-- A rank is a number of binades and a mantissa, which is full unless there are none. -/
theorem exists_mantissa (rank : Nat) :
    ∃ s m, rank = s * 2 ^ 52 + m ∧ (s = 0 ∨ 2 ^ 52 ≤ m) ∧ m < 2 ^ 53 :=
  ⟨rank / 2 ^ 52 - 1, rank - (rank / 2 ^ 52 - 1) * 2 ^ 52, by omega, by omega, by omega⟩

theorem units_mantissa {s m : Nat} (hfull : s = 0 ∨ 2 ^ 52 ≤ m) (hm : m ≤ 2 ^ 53) :
    units (s * 2 ^ 52 + m) = m * 2 ^ s := by
  unfold units
  simp only [Nat.pow_eq]
  rcases Nat.lt_or_eq_of_le hm with hlt | rfl
  · have hshift : (s * 2 ^ 52 + m) / 2 ^ 52 - 1 = s := by omega
    rw [hshift, Nat.add_sub_cancel_left]
  · have hshift : (s * 2 ^ 52 + 2 ^ 53) / 2 ^ 52 - 1 = s + 1 := by omega
    rw [hshift, Nat.pow_succ 2 s, show s * 2 ^ 52 + 2 ^ 53 - (s + 1) * 2 ^ 52 = 2 ^ 52 by omega]
    omega

/-- A rank with the magnitudes below, at and above it: inside a binade all are one step apart, but from the
first magnitude of a binade it is only half a step to the one below. -/
inductive Neighbours : Nat → Nat → Nat → Nat → Prop
  | inside (s m : Nat) (hfull : s = 0 ∨ 2 ^ 52 ≤ m) (hm : m + 1 < 2 ^ 53) :
    Neighbours (s * 2 ^ 52 + (m + 1)) (m * 2 ^ s) ((m + 1) * 2 ^ s) ((m + 2) * 2 ^ s)
  | first (s : Nat) :
    Neighbours (s * 2 ^ 52 + 2 ^ 53) ((2 ^ 53 - 1) * 2 ^ s) (2 ^ 53 * 2 ^ s) ((2 ^ 53 + 2) * 2 ^ s)

theorem neighbours {rank : Nat} (hpos : 0 < rank) :
    Neighbours rank (units (rank - 1)) (units rank) (units (rank + 1)) := by
  obtain ⟨s, m, rfl, hfull, hm⟩ := exists_mantissa rank
  rcases (show (0 < m ∧ (s = 0 ∨ 2 ^ 52 < m)) ∨ (s ≠ 0 ∧ m = 2 ^ 52) by omega) with
    ⟨hm', hinside⟩ | ⟨hs, rfl⟩
  · obtain ⟨k, rfl⟩ : ∃ k, m = k + 1 := ⟨m - 1, by omega⟩
    have hbelow : units (s * 2 ^ 52 + (k + 1) - 1) = k * 2 ^ s := by
      rw [← Nat.add_assoc, Nat.add_sub_cancel]
      exact units_mantissa (by omega) (by omega)
    have hat : units (s * 2 ^ 52 + (k + 1)) = (k + 1) * 2 ^ s := units_mantissa hfull (by omega)
    have habove : units (s * 2 ^ 52 + (k + 1) + 1) = (k + 2) * 2 ^ s := by
      rw [Nat.add_assoc]
      exact units_mantissa (by omega) (by omega)
    rw [hbelow, hat, habove]
    exact .inside s k (by omega) hm
  · obtain ⟨t, rfl⟩ : ∃ t, s = t + 1 := ⟨s - 1, by omega⟩
    obtain ⟨hrank, hlast, hnext, hdouble⟩ :
        (t + 1) * 2 ^ 52 + 2 ^ 52 = t * 2 ^ 52 + 2 ^ 53 ∧
        t * 2 ^ 52 + 2 ^ 53 - 1 = t * 2 ^ 52 + (2 ^ 53 - 1) ∧
        t * 2 ^ 52 + 2 ^ 53 + 1 = (t + 1) * 2 ^ 52 + (2 ^ 52 + 1) ∧
        (2 ^ 52 + 1) * (2 ^ t * 2) = (2 ^ 53 + 2) * 2 ^ t := by omega
    have hbelow : units (t * 2 ^ 52 + 2 ^ 53 - 1) = (2 ^ 53 - 1) * 2 ^ t :=
      (congrArg units hlast).trans (units_mantissa (.inr (by decide)) (by decide))
    have hat : units (t * 2 ^ 52 + 2 ^ 53) = 2 ^ 53 * 2 ^ t :=
      units_mantissa (.inr (by decide)) (Nat.le_refl _)
    have habove : units (t * 2 ^ 52 + 2 ^ 53 + 1) = (2 ^ 53 + 2) * 2 ^ t := calc
      _ = units ((t + 1) * 2 ^ 52 + (2 ^ 52 + 1)) := congrArg units hnext
      _ = (2 ^ 52 + 1) * 2 ^ (t + 1) := units_mantissa (.inr (by decide)) (by decide)
      _ = (2 ^ 53 + 2) * 2 ^ t := hdouble
    rw [hrank, hbelow, hat, habove]
    exact .first t

/-- Whether `num / den` units lie in the interval that is rounded to the magnitude of a rank. -/
def RoundsTo (rank num den : Nat) : Prop :=
  let low := (units (rank - 1) + units rank) * den
  let high := (units rank + units (rank + 1)) * den
  if rank % 2 = 0 then low ≤ 2 * num ∧ 2 * num ≤ high else low < 2 * num ∧ 2 * num < high

/-- In a binade of step `2 ^ s`, what is nearest to `n` steps has the rank that is `n` above that binade's
first. -/
theorem nearestRank_of_step {num den s n : Nat} (hden : 0 < den)
    (hlow : s = 0 ∨ 2 ^ 52 * (2 ^ s * den) ≤ num) (hhigh : num < 2 ^ 53 * (2 ^ s * den))
    (hround : if n % 2 = 0
      then 2 * (n * (2 ^ s * den)) ≤ 2 * num + 2 ^ s * den ∧
        2 * num ≤ 2 * (n * (2 ^ s * den)) + 2 ^ s * den
      else 2 * (n * (2 ^ s * den)) < 2 * num + 2 ^ s * den ∧
        2 * num < 2 * (n * (2 ^ s * den)) + 2 ^ s * den)
    (hle : s * 2 ^ 52 + n ≤ infinityRank) : nearestRank num den = s * 2 ^ 52 + n := by
  have hshift : (num / den).log2 - 52 = s := by
    have hquot : num / den < 2 ^ (53 + s) := by
      rw [Nat.div_lt_iff_lt_mul hden, Nat.pow_add, Nat.mul_assoc]
      exact hhigh
    rcases hlow with rfl | hlow
    · rcases Nat.eq_zero_or_pos (num / den) with hzero | hpos
      · rw [hzero]
        rfl
      · have hlt := (Nat.log2_lt (Nat.ne_of_gt hpos)).mpr hquot
        omega
    · have hge : 2 ^ (52 + s) ≤ num / den := by
        rw [Nat.le_div_iff_mul_le hden, Nat.pow_add, Nat.mul_assoc]
        exact hlow
      have hne : num / den ≠ 0 := Nat.ne_of_gt (Nat.lt_of_lt_of_le (Nat.two_pow_pos _) hge)
      have hlog := (Nat.le_log2 hne).mpr hge
      have hlt := (Nat.log2_lt hne).mpr hquot
      omega
  have hn : roundEven num (den * 2 ^ s) = n := by
    rw [Nat.mul_comm den]
    exact roundEven_eq (Nat.mul_pos (Nat.two_pow_pos s) hden) hround
  simp only [nearestRank, Nat.pow_eq, hshift, hn]
  exact Nat.min_eq_right hle

/-- What lies in the interval of a magnitude is rounded to it. -/
theorem nearestRank_eq {rank num den : Nat} (hden : 0 < den) (hpos : 0 < rank)
    (hfinite : rank < infinityRank) (h : RoundsTo rank num den) : nearestRank num den = rank := by
  unfold RoundsTo at h
  dsimp only at h
  have hneighbours := neighbours hpos
  generalize units (rank - 1) = below at *
  generalize units rank = magnitude at *
  generalize units (rank + 1) = above at *
  cases hneighbours with
  | inside s m hfull hm =>
    have hstep : 0 < 2 ^ s * den := Nat.mul_pos (Nat.two_pow_pos s) hden
    have htop := Nat.mul_le_mul_right (2 ^ s * den) (show m + 2 ≤ 2 ^ 53 by omega)
    have hparity : (s * 2 ^ 52 + (m + 1)) % 2 = (m + 1) % 2 := by omega
    rw [hparity] at h
    simp only [Nat.add_mul, Nat.mul_assoc, Nat.one_mul] at h htop
    refine nearestRank_of_step hden (hfull.imp_right fun hlarge => ?_) ?_ ?_ (Nat.le_of_lt hfinite)
    · have hbottom := Nat.mul_le_mul_right (2 ^ s * den) hlarge
      split at h <;> omega
    · split at h <;> omega
    · simp only [Nat.add_mul, Nat.one_mul]
      split_ifs with heven
      · rw [if_pos heven] at h
        omega
      · rw [if_neg heven] at h
        omega
  | first s =>
    have hstep : 0 < 2 ^ s * den := Nat.mul_pos (Nat.two_pow_pos s) hden
    rw [if_pos (by omega)] at h
    simp only [Nat.add_mul, Nat.mul_assoc] at h
    -- Below the magnitude the step is half as wide as above it.
    rcases Nat.lt_or_ge num (2 ^ 53 * (2 ^ s * den)) with hbelow | habove
    · refine nearestRank_of_step hden (.inr (by omega)) hbelow ?_ (Nat.le_of_lt hfinite)
      rw [if_pos (by decide)]
      omega
    · have hrank : s * 2 ^ 52 + 2 ^ 53 = (s + 1) * 2 ^ 52 + 2 ^ 52 := by omega
      have hdouble : 2 ^ (s + 1) * den = 2 * (2 ^ s * den) := by
        rw [Nat.pow_succ, Nat.mul_comm (2 ^ s), Nat.mul_assoc]
      rw [hrank] at hfinite ⊢
      refine nearestRank_of_step hden (.inr ?_) ?_ ?_ (Nat.le_of_lt hfinite)
      all_goals rw [hdouble]
      · omega
      · omega
      · rw [if_pos (by decide)]
        omega

end Double

end DeltaPreview
