import DeltaPreview.Proofs.Double.Rounding
import Mathlib.Tactic.SplitIfs

/-!
# The shortest decimal reads back

A decimal grid finer than a ten-quadrillionth of a magnitude has a point in the interval that is rounded to
the magnitude, so seventeen digits always suffice and the search for the shortest decimal ends
(`Double.roundsTo_shortest`).  A decimal of that interval is read as the magnitude, however many zeros are
written after its digits (`Double.ofDecimal_eq`).
-/

namespace DeltaPreview.Double

/-! ### Numbers as quotients -/

theorem roundsTo_mul {rank num den c : Nat} (hc : 0 < c) :
    RoundsTo rank (num * c) (den * c) ↔ RoundsTo rank num den := by
  simp only [RoundsTo, ← Nat.mul_assoc, Nat.mul_le_mul_right_iff hc, Nat.mul_lt_mul_right hc]

/-- Only the quotient matters. -/
theorem roundsTo_congr {rank num den num' den' : Nat} (hden : 0 < den) (hden' : 0 < den')
    (h : num * den' = num' * den) : RoundsTo rank num den ↔ RoundsTo rank num' den' := by
  rw [← roundsTo_mul hden', h, Nat.mul_comm den, roundsTo_mul hden]

/-! ### Neighbours -/

theorem units_step {rank : Nat} (hpos : 0 < rank) :
    units (rank - 1) < units rank ∧ units rank < units (rank + 1) ∧
      2 * units rank + 10 ^ 16 * units (rank - 1) < 10 ^ 16 * units (rank + 1) := by
  have hneighbours := neighbours hpos
  generalize units (rank - 1) = below at *
  generalize units rank = magnitude at *
  generalize units (rank + 1) = above at *
  cases hneighbours with
  | inside s m hfull hm =>
    have hstep := Nat.two_pow_pos s
    have hsteps : 2 * (m + 1) + 10 ^ 16 * m < 10 ^ 16 * (m + 2) := by omega
    have hbound := Nat.mul_lt_mul_of_pos_right hsteps hstep
    simp only [Nat.add_mul, Nat.mul_assoc] at hbound ⊢
    omega
  | first s =>
    have hstep := Nat.two_pow_pos s
    omega

theorem units_pos {rank : Nat} (hpos : 0 < rank) : 0 < units rank :=
  Nat.lt_of_le_of_lt (Nat.zero_le _) (units_step hpos).1

/-- No magnitude, not even the one that stands for infinity, exceeds `2 ^ 1024`. -/
theorem units_le {rank : Nat} (hle : rank ≤ infinityRank) : units rank ≤ 2 ^ 53 * 2 ^ 2045 := by
  obtain ⟨s, m, rfl, hfull, hm⟩ := exists_mantissa rank
  simp only [infinityRank, Nat.pow_eq] at hle
  rw [units_mantissa hfull (Nat.le_of_lt hm)]
  -- The exponent stays a variable, so that nothing computes the power.
  obtain ⟨top, htop⟩ : ∃ top, top = 2045 := ⟨2045, rfl⟩
  rw [← htop]
  rcases Nat.lt_or_ge top s with hlt | hge
  · obtain ⟨rfl, rfl⟩ : s = top + 1 ∧ m = 2 ^ 52 := by omega
    rw [Nat.pow_succ 2 top]
    omega
  · exact Nat.mul_le_mul (Nat.le_of_lt hm) (Nat.pow_le_pow_right (by decide) hge)

/-! ### Grids -/

theorem unit_pos : 0 < Nat.pow 2 1074 := by
  decide +kernel

theorem Grid.scale_pos (power : Int) : 0 < (Grid.ofPower power).scale := Nat.pow_pos (by decide)

theorem Grid.step_pos (power : Int) : 0 < (Grid.ofPower power).step := by
  have hunit := unit_pos
  unfold Grid.ofPower
  generalize Nat.pow 2 1074 = unit at *
  exact Nat.mul_pos hunit (Nat.pow_pos (by decide))

/-- A step of a grid is a power of ten of the steps of a finer one. -/
theorem Grid.pow_ten_steps (power : Int) (n : Nat) :
    10 ^ n * (Grid.ofPower power).step * (Grid.ofPower (power + n)).scale =
      (Grid.ofPower (power + n)).step * (Grid.ofPower power).scale := by
  unfold Grid.ofPower
  generalize Nat.pow 2 1074 = unit
  simp only [Nat.pow_eq]
  calc
    10 ^ n * (unit * 10 ^ power.toNat) * 10 ^ (-(power + n)).toNat
    _ = unit * 10 ^ (n + power.toNat + (-(power + n)).toNat) := by
        rw [Nat.pow_add, Nat.pow_add, Nat.mul_left_comm, Nat.mul_assoc]
    _ = unit * 10 ^ ((power + n).toNat + (-power).toNat) := by
        rw [show n + power.toNat + (-(power + n)).toNat = (power + n).toNat + (-power).toNat by omega]
    _ = unit * 10 ^ (power + n).toNat * 10 ^ (-power).toNat := by rw [Nat.pow_add, Nat.mul_assoc]

theorem Grid.rounds_iff (grid : Grid) (rank k : Nat) :
    grid.rounds rank k = true ↔ RoundsTo rank (k * grid.step) grid.scale := by
  unfold Grid.rounds RoundsTo
  dsimp only
  rw [Nat.mul_assoc]
  split <;> simp only [Bool.and_eq_true, decide_eq_true_eq]

/-- The grid point that is tried reads back. -/
theorem Grid.roundsTo_nearest? {grid : Grid} {rank k : Nat} (h : grid.nearest? rank = some k) :
    RoundsTo rank (k * grid.step) grid.scale := by
  have hlow := le_roundEven (units rank * grid.scale) grid.step
  have hhigh := roundEven_le (units rank * grid.scale) grid.step
  rw [← Grid.rounds_iff]
  unfold Grid.nearest? at h
  dsimp only at h
  split at h
  next hbelow habove =>
    injection h with h
    rcases (show k = units rank * grid.scale / grid.step ∨
      k = units rank * grid.scale / grid.step + 1 by omega) with rfl | rfl
    · exact hbelow
    · exact habove
  next hbelow _ => exact Option.some.inj h ▸ hbelow
  next _ habove => exact Option.some.inj h ▸ habove
  next => exact nomatch h

/-- A fine grid has a point in the interval of every magnitude. -/
theorem Grid.nearest?_isSome {grid : Grid} {rank : Nat} (hpos : 0 < rank) (hstep : 0 < grid.step)
    (hscale : 0 < grid.scale) (hfine : 10 ^ 16 * grid.step ≤ units rank * grid.scale) :
    (grid.nearest? rank).isSome := by
  obtain ⟨hbelow, habove, hgap⟩ := units_step hpos
  have hnear : grid.rounds rank (units rank * grid.scale / grid.step) = true ∨
      grid.rounds rank (units rank * grid.scale / grid.step + 1) = true := by
    have hdivision := Nat.div_add_mod (units rank * grid.scale) grid.step
    have hrest := Nat.mod_lt (units rank * grid.scale) hstep
    rw [Grid.rounds_iff, Grid.rounds_iff]
    rw [Nat.mul_comm grid.step] at hdivision
    have hgap' := Nat.mul_lt_mul_of_pos_right hgap hscale
    have hbelow' := Nat.mul_lt_mul_of_pos_right hbelow hscale
    have habove' := Nat.mul_lt_mul_of_pos_right habove hscale
    unfold RoundsTo
    dsimp only
    simp only [Nat.add_mul, Nat.mul_assoc, Nat.one_mul] at *
    split <;> omega
  unfold Grid.nearest?
  dsimp only
  rcases hnear with h | h
  · rw [h]
    split <;> first | rfl | contradiction
  · rw [h]
    split <;> first | rfl | contradiction

/-! ### Decimals -/

/-- Whether a decimal lies in the interval that is rounded to the magnitude of a rank. -/
def Decimal.RoundsTo (d : Decimal) (rank : Nat) : Prop :=
  Double.RoundsTo rank (d.digits * (Grid.ofPower d.exponent).step) (Grid.ofPower d.exponent).scale

namespace Decimal

/-- A trailing zero makes no difference. -/
theorem roundsTo_ten (k rank : Nat) (power : Int) :
    RoundsTo ⟨10 * k, power⟩ rank ↔ RoundsTo ⟨k, power + 1⟩ rank := by
  refine roundsTo_congr (Grid.scale_pos _) (Grid.scale_pos _) ?_
  have hten := Grid.pow_ten_steps power 1
  rw [Nat.pow_one, Int.natCast_one] at hten
  dsimp only
  calc
    10 * k * (Grid.ofPower power).step * (Grid.ofPower (power + 1)).scale
    _ = k * (10 * (Grid.ofPower power).step * (Grid.ofPower (power + 1)).scale) := by
        rw [Nat.mul_comm 10 k, Nat.mul_assoc, Nat.mul_assoc, Nat.mul_assoc]
    _ = k * (Grid.ofPower (power + 1)).step * (Grid.ofPower power).scale := by
        rw [hten, Nat.mul_assoc]

theorem roundsTo_zeros (d : Decimal) (rank n : Nat) :
    RoundsTo ⟨d.digits * 10 ^ n, d.exponent - n⟩ rank ↔ d.RoundsTo rank := by
  induction n with
  | zero => rw [Nat.pow_zero, Nat.mul_one, Int.natCast_zero, Int.sub_zero]
  | succ n ih =>
    have hdigits : d.digits * 10 ^ (n + 1) = 10 * (d.digits * 10 ^ n) := by
      rw [Nat.pow_succ 10 n, ← Nat.mul_assoc, Nat.mul_comm]
    have hpower : d.exponent - n = d.exponent - (n + 1 : Nat) + 1 := by omega
    rw [hdigits, roundsTo_ten, ← hpower, ih]

theorem roundsTo_dropZeros {rank : Nat} (fuel : Nat) (d : Decimal) (h : d.RoundsTo rank) :
    (d.dropZeros fuel).RoundsTo rank := by
  induction fuel generalizing d with
  | zero => exact h
  | succ fuel ih =>
    rw [dropZeros]
    split
    next hzero =>
      refine ih _ ((roundsTo_ten _ _ _).mp ?_)
      rw [show 10 * (d.digits / 10) = d.digits by omega]
      exact h
    next => exact h

theorem digits_pos {rank : Nat} {d : Decimal} (hpos : 0 < rank) (h : d.RoundsTo rank) :
    0 < d.digits := by
  refine Nat.pos_of_ne_zero fun hzero => ?_
  have hunits := Nat.mul_pos (units_pos hpos) (Grid.scale_pos d.exponent)
  unfold RoundsTo Double.RoundsTo at h
  dsimp only at h
  rw [hzero, Nat.add_mul] at h
  split at h <;> omega

end Decimal

/-! ### Seventeen digits -/

theorem lt_pow_length (n : Nat) : n < 10 ^ (Nat.toDigits 10 n).length :=
  (Nat.length_toDigits_le_iff (by decide) Nat.length_toDigits_pos).mp (Nat.le_refl _)

theorem pow_length_le {n : Nat} (hpos : 0 < n) : 10 ^ ((Nat.toDigits 10 n).length - 1) ≤ n := by
  have hlength : 0 < (Nat.toDigits 10 n).length := Nat.length_toDigits_pos
  refine Nat.le_of_not_lt fun hlt => ?_
  rcases Nat.eq_zero_or_pos ((Nat.toDigits 10 n).length - 1) with hone | hmore
  · rw [hone] at hlt
    omega
  · have := (Nat.length_toDigits_le_iff (by decide) hmore).mpr hlt
    omega

/-- Only the difference of two powers of ten matters. -/
theorem mul_pow_le_of_sub_eq {a b i j k l : Nat} (hpower : i + l = k + j)
    (h : a * 10 ^ i ≤ b * 10 ^ j) : a * 10 ^ k ≤ b * 10 ^ l := by
  refine Nat.le_of_mul_le_mul_right ?_ (show 0 < 10 ^ j from Nat.pow_pos (by decide))
  calc
    a * 10 ^ k * 10 ^ j = a * 10 ^ i * 10 ^ l := by
      rw [Nat.mul_assoc, ← Nat.pow_add, ← hpower, Nat.pow_add, Nat.mul_assoc]
    _ ≤ b * 10 ^ j * 10 ^ l := Nat.mul_le_mul_right _ h
    _ = b * 10 ^ l * 10 ^ j := Nat.mul_right_comm _ _ _

/-- A magnitude is at least the power of ten of its leading digit. -/
theorem leadingPower_le {u : Nat} (hpos : 0 < u) :
    (Grid.ofPower (leadingPower u)).step ≤ u * (Grid.ofPower (leadingPower u)).scale := by
  have hunit := unit_pos
  have hsmallest : Nat.pow 2 1074 ≤ 10 ^ 324 := by decide +kernel
  unfold leadingPower Grid.ofPower
  generalize Nat.pow 2 1074 = unit at *
  -- The exponent stays a variable, so that nothing computes the power.
  obtain ⟨top, htop⟩ : ∃ top, top = 324 := ⟨324, rfl⟩
  rw [← htop] at hsmallest ⊢
  simp only [Nat.pow_eq]
  have hquot : 0 < u * 10 ^ top / unit :=
    Nat.div_pos (Nat.le_trans hsmallest (Nat.le_mul_of_pos_left _ hpos)) hunit
  have hlength : 0 < (Nat.toDigits 10 (u * 10 ^ top / unit)).length := Nat.length_toDigits_pos
  have hle := (Nat.le_div_iff_mul_le hunit).mp (pow_length_le hquot)
  rw [Nat.mul_comm] at hle
  exact mul_pow_le_of_sub_eq (by omega) hle

/-- Seventeen digits leave a step that is fine enough. -/
theorem fine_of_seventeen {u : Nat} (hpos : 0 < u) :
    10 ^ 16 * (Grid.ofPower (leadingPower u - 16)).step ≤
      u * (Grid.ofPower (leadingPower u - 16)).scale := by
  have hle := leadingPower_le hpos
  have hscale := Grid.scale_pos (leadingPower u)
  have hshift := Grid.pow_ten_steps (leadingPower u - 16) 16
  rw [show leadingPower u - 16 + (16 : Nat) = leadingPower u by omega] at hshift
  generalize Grid.ofPower (leadingPower u - 16) = fine at *
  generalize Grid.ofPower (leadingPower u) = coarse at *
  refine Nat.le_of_mul_le_mul_right ?_ hscale
  calc
    _ = coarse.step * fine.scale := hshift
    _ ≤ u * coarse.scale * fine.scale := Nat.mul_le_mul_right _ hle
    _ = u * fine.scale * coarse.scale := Nat.mul_right_comm _ _ _

/-- The shortest decimal lies in the interval of the magnitude. -/
theorem roundsTo_shortest {rank : Nat} (hpos : 0 < rank) : (shortest rank).RoundsTo rank := by
  unfold shortest
  dsimp only
  cases hfound : (List.range 17).findSome? fun count : Nat =>
      ((Grid.ofPower (leadingPower (units rank) - count)).nearest? rank).map fun k =>
        Decimal.dropZeros 18 ⟨k, leadingPower (units rank) - count⟩ with
  | none =>
    have hnone := List.findSome?_eq_none_iff.mp hfound 16 (List.mem_range.mpr (by decide))
    have hsome := Grid.nearest?_isSome hpos (Grid.step_pos _) (Grid.scale_pos _)
      (fine_of_seventeen (units_pos hpos))
    rw [Option.map_eq_none_iff] at hnone
    exact absurd hsome (Option.not_isSome_iff_eq_none.mpr hnone)
  | some d =>
    obtain ⟨count, -, hd⟩ := List.exists_of_findSome?_eq_some hfound
    obtain ⟨k, hk, rfl⟩ := Option.map_eq_some_iff.mp hd
    exact Decimal.roundsTo_dropZeros 18 _ (Grid.roundsTo_nearest? hk)

/-! ### Reading a decimal -/

/-- What is rounded to a finite magnitude is at least half a unit and at most `2 ^ 1024`. -/
theorem roundsTo_bounds {rank num den : Nat} (hpos : 0 < rank) (hfinite : rank < infinityRank)
    (h : RoundsTo rank num den) : den ≤ 2 * num ∧ num ≤ 2 ^ 53 * 2 ^ 2045 * den := by
  have hlow := Nat.le_mul_of_pos_left den (units_pos hpos)
  have hhigh := Nat.mul_le_mul_right den (units_le (Nat.le_of_lt hfinite))
  have habove : units (rank + 1) ≤ 2 ^ 53 * 2 ^ 2045 := units_le hfinite
  have hhigh' := Nat.mul_le_mul_right den habove
  unfold RoundsTo at h
  dsimp only at h
  rw [Nat.add_mul, Nat.add_mul] at h
  generalize 2 ^ 53 * 2 ^ 2045 * den = top at *
  split at h <;> omega

section Length

variable {digits length unit up down : Nat}

/-- A number with many digits is large. -/
theorem length_add_le {largest long : Nat} (hlength : 10 ^ (length - 1) ≤ digits)
    (hlargest : largest < unit * 10 ^ long)
    (h : digits * (unit * 10 ^ up) ≤ largest * 10 ^ down) : length + up ≤ long + down := by
  refine Nat.le_of_not_lt fun hlt => ?_
  have habsurd := calc
    largest * 10 ^ down < unit * 10 ^ long * 10 ^ down :=
      Nat.mul_lt_mul_of_pos_right hlargest (Nat.pow_pos (by decide))
    _ = unit * 10 ^ (long + down) := by rw [Nat.pow_add, Nat.mul_assoc]
    _ ≤ unit * 10 ^ (length - 1 + up) :=
      Nat.mul_le_mul_left unit (Nat.pow_le_pow_right (by decide) (by omega))
    _ = 10 ^ (length - 1) * (unit * 10 ^ up) := by rw [Nat.pow_add, Nat.mul_left_comm]
    _ ≤ digits * (unit * 10 ^ up) := Nat.mul_le_mul_right _ hlength
  omega

/-- A number with few digits is small. -/
theorem lt_length_add {short : Nat} (hlength : digits < 10 ^ length) (hpos : 0 < unit)
    (hunit : 2 * unit ≤ 10 ^ short) (h : 10 ^ down ≤ 2 * (digits * (unit * 10 ^ up))) :
    down < length + short + up := by
  refine Nat.lt_of_not_le fun hle => ?_
  have hscale : 0 < 2 * unit * 10 ^ up := Nat.mul_pos (by omega) (Nat.pow_pos (by decide))
  have habsurd := calc
    2 * (digits * (unit * 10 ^ up)) = digits * (2 * unit * 10 ^ up) := by
      rw [Nat.mul_left_comm, Nat.mul_assoc 2]
    _ < 10 ^ length * (2 * unit * 10 ^ up) := Nat.mul_lt_mul_of_pos_right hlength hscale
    _ ≤ 10 ^ length * (10 ^ short * 10 ^ up) :=
      Nat.mul_le_mul_left _ (Nat.mul_le_mul_right _ hunit)
    _ = 10 ^ (length + short + up) := by rw [Nat.pow_add, Nat.pow_add, Nat.mul_assoc]
    _ ≤ 10 ^ down := Nat.pow_le_pow_right (by decide) hle
  omega

end Length

/-- It lies between the powers of ten beyond which reading does not compute. -/
theorem Decimal.size_bounds {rank : Nat} {d : Decimal} (hpos : 0 < rank) (hfinite : rank < infinityRank)
    (h : d.RoundsTo rank) :
    (Nat.toDigits 10 d.digits).length + d.exponent ≤ 310 ∧
      -330 ≤ (Nat.toDigits 10 d.digits).length + d.exponent := by
  obtain ⟨hlow, hhigh⟩ := roundsTo_bounds hpos hfinite h
  have hlargest : 2 ^ 53 * 2 ^ 2045 < Nat.pow 2 1074 * 10 ^ 310 := by decide +kernel
  have hsmallest : 2 * Nat.pow 2 1074 ≤ 10 ^ 331 := by decide +kernel
  have hunit := unit_pos
  unfold Grid.ofPower at hlow hhigh
  generalize Nat.pow 2 1074 = unit at *
  have hlong := length_add_le (pow_length_le (Decimal.digits_pos hpos h)) hlargest hhigh
  have hshort := lt_length_add (lt_pow_length d.digits) hunit hsmallest hlow
  omega

/-- A decimal in the interval of a finite magnitude is read as it. -/
theorem ofDecimal_eq {rank : Nat} {d : Decimal} (negative : Bool) (hpos : 0 < rank)
    (hfinite : rank < infinityRank) (h : d.RoundsTo rank) :
    ofDecimal negative d.digits d.exponent = .signed negative ⟨rank, Nat.lt_succ_of_lt hfinite⟩ := by
  obtain ⟨hhigh, hlow⟩ := Decimal.size_bounds hpos hfinite h
  have hrank := nearestRank_eq (Grid.scale_pos d.exponent) hpos hfinite h
  unfold Grid.ofPower at hrank
  unfold ofDecimal nearest
  dsimp only at hrank ⊢
  rw [if_neg (Nat.ne_of_gt (Decimal.digits_pos hpos h)), if_neg (Int.not_lt.mpr hhigh),
    if_neg (Int.not_lt.mpr hlow)]
  generalize Nat.pow 2 1074 = unit at *
  rcases Int.lt_or_le d.exponent 0 with hneg | hnonneg
  · rw [show d.exponent.toNat = 0 by omega, show Nat.pow 10 0 = 1 from rfl, Nat.mul_one] at hrank
    simp only [if_neg (Int.not_le.mpr hneg), hrank]
  · rw [show (-d.exponent).toNat = 0 by omega, show Nat.pow 10 0 = 1 from rfl, Nat.mul_comm unit,
      ← Nat.mul_assoc] at hrank
    simp only [if_pos hnonneg, hrank]

end DeltaPreview.Double
