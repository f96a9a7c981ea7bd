import DeltaPreview.Double.Basic
import Mathlib.Algebra.Group.Nat.Defs

/-!
# The integers that have a double

An integer is rounded to the nearest double.  It has none exactly if it lies at least half way from the
largest finite double to `2 ^ 1024` (`ofInt?_eq_none_iff`): there the tie goes to the even neighbour,
which is already beyond the range.
-/

namespace DeltaPreview

theorem le_roundEven (num den : Nat) : num / den ≤ roundEven num den := by
  unfold roundEven
  dsimp only
  split
  · exact Nat.le_refl _
  · split <;> omega

theorem roundEven_le (num den : Nat) : roundEven num den ≤ num / den + 1 := by
  unfold roundEven
  dsimp only
  split
  · exact Nat.le_succ _
  · split
    · exact Nat.le_refl _
    · omega

/-- An odd quotient is rounded up from a half on. -/
theorem roundEven_eq_succ_iff (num den : Nat) (hodd : num / den % 2 = 1) :
    roundEven num den = num / den + 1 ↔ den ≤ 2 * (num % den) := by
  unfold roundEven
  dsimp only
  split
  · omega
  · split <;> omega

/-- Below a power of two, what rounds up to it lies half a step or less from it. -/
theorem le_roundEven_iff {num half : Nat} (hpos : 0 < half) (hhigh : num < 2 ^ 53 * (2 * half)) :
    2 ^ 53 ≤ roundEven num (2 * half) ↔ (2 ^ 54 - 1) * half ≤ num := by
  have hquot : num / (2 * half) < 2 ^ 53 := (Nat.div_lt_iff_lt_mul (by omega)).mpr hhigh
  have hle := roundEven_le num (2 * half)
  have hround := roundEven_eq_succ_iff num (2 * half)
  have hdivision := Nat.div_add_mod num (2 * half)
  have hrest : num % (2 * half) < 2 * half := Nat.mod_lt _ (by omega)
  generalize roundEven num (2 * half) = rounded at *
  generalize num / (2 * half) = quot at *
  generalize num % (2 * half) = rest at *
  constructor
  · intro h
    obtain rfl : quot = 2 ^ 53 - 1 := by omega
    have := (hround (by decide)).mp (by omega)
    omega
  · intro h
    rcases Nat.lt_or_ge quot (2 ^ 53 - 1) with hlt | hge
    · have hmul : 2 * half * quot ≤ 2 * half * (2 ^ 53 - 2) := Nat.mul_le_mul_left _ (by omega)
      omega
    · obtain rfl : quot = 2 ^ 53 - 1 := by omega
      have := (hround (by decide)).mpr (by omega)
      omega

namespace Double

/-- The smallest magnitude of an integer that has no double. -/
def integerLimit : Nat := 2 ^ 1024 - 2 ^ 970

/-- In units of its last place, a number has at most 53 binary digits. -/
theorem quotient_lt (num : Nat) : num / 2 ^ (num.log2 - 52) < 2 ^ 53 := by
  rw [Nat.div_lt_iff_lt_mul (Nat.two_pow_pos _), ← Nat.pow_add]
  exact Nat.lt_of_lt_of_le Nat.lt_log2_self (Nat.pow_le_pow_right (by decide) (by omega))

/-- From the 53rd digit on it has just as many. -/
theorem le_quotient {num : Nat} (hpos : num ≠ 0) (hlong : 52 ≤ num.log2) :
    2 ^ 52 ≤ num / 2 ^ (num.log2 - 52) := by
  rw [Nat.le_div_iff_mul_le (Nat.two_pow_pos _), ← Nat.pow_add,
    show 52 + (num.log2 - 52) = num.log2 by omega]
  exact Nat.log2_self_le hpos

/-- What rounds to infinity lies beyond the largest double by half a step or more. -/
theorem nearestRank_eq_infinity_iff (num : Nat) (hpos : num ≠ 0) :
    nearestRank num 1 = infinityRank ↔ (2 ^ 54 - 1) * 2 ^ 2044 ≤ num := by
  have hrank : nearestRank num 1 = infinityRank ↔
      2047 * 2 ^ 52 ≤ (num.log2 - 52) * 2 ^ 52 + roundEven num (2 ^ (num.log2 - 52)) := by
    rw [nearestRank, infinityRank, Nat.div_one, Nat.one_mul, Nat.pow_eq, Nat.pow_eq]
    omega
  -- The exponent stays a variable, so that nothing computes the power.
  obtain ⟨top, htop⟩ : ∃ top, top = 2044 := ⟨2044, rfl⟩
  rw [hrank, ← htop]
  rcases Nat.lt_trichotomy num.log2 (53 + top) with hsmall | hlast | hlarge
  · -- Below the last binade the rank stays below that of infinity.
    have hquot := quotient_lt num
    have hhigh := roundEven_le num (2 ^ (num.log2 - 52))
    have hnum : num < 2 ^ 53 * 2 ^ top := calc
      num < 2 ^ (num.log2 + 1) := Nat.lt_log2_self
      _ ≤ 2 ^ (53 + top) := Nat.pow_le_pow_right (by decide) (by omega)
      _ = 2 ^ 53 * 2 ^ top := Nat.pow_add 2 53 top
    generalize 2 ^ top = half at *
    omega
  · -- In the last binade it is the rounding that decides.
    have hstep : 2 ^ (num.log2 - 52) = 2 * 2 ^ top := by
      rw [hlast, show 53 + top - 52 = top + 1 by omega, Nat.pow_succ, Nat.mul_comm]
    have hnum : num < 2 ^ 53 * (2 * 2 ^ top) := calc
      num < 2 ^ (num.log2 + 1) := Nat.lt_log2_self
      _ = 2 ^ (53 + (num.log2 - 52)) := congrArg (2 ^ ·) (by omega)
      _ = 2 ^ 53 * (2 * 2 ^ top) := by rw [Nat.pow_add, hstep]
    rw [hstep, ← le_roundEven_iff (Nat.two_pow_pos top) hnum]
    omega
  · -- Beyond it the rank is at least that of infinity.
    have hquot := le_quotient hpos (by omega)
    have hlow := le_roundEven num (2 ^ (num.log2 - 52))
    have hnum : 2 ^ 54 * 2 ^ top ≤ num := calc
      2 ^ 54 * 2 ^ top = 2 ^ (54 + top) := (Nat.pow_add 2 54 top).symm
      _ ≤ 2 ^ num.log2 := Nat.pow_le_pow_right (by decide) (by omega)
      _ ≤ num := Nat.log2_self_le hpos
    generalize 2 ^ top = half at *
    omega

theorem integerLimit_units : (2 ^ 54 - 1) * 2 ^ 2044 = integerLimit * Nat.pow 2 1074 := by
  decide +kernel

/-- An integer has no double exactly if it is too large. -/
theorem ofInt?_eq_none_iff (n : Int) : ofInt? n = none ↔ integerLimit ≤ n.natAbs := by
  rcases Nat.eq_zero_or_pos n.natAbs with hzero | hpos
  · rw [hzero, Int.natAbs_eq_zero.mp hzero]
    decide +kernel
  · have hunit : 0 < Nat.pow 2 1074 := by decide +kernel
    have hrank : nearestRank (n.natAbs * Nat.pow 2 1074) 1 = infinityRank ↔
        integerLimit ≤ n.natAbs := by
      rw [nearestRank_eq_infinity_iff _ (Nat.ne_of_gt (Nat.mul_pos hpos hunit)),
        integerLimit_units, Nat.mul_le_mul_right_iff hunit]
    rw [ofInt?]
    split
    next htop => exact iff_of_true rfl (hrank.mp htop)
    next hbelow => exact iff_of_false (Option.some_ne_none _) (mt hrank.mpr hbelow)

end Double

end DeltaPreview
