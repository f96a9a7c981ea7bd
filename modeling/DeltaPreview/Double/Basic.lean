/-!
# Double precision numbers

A number of the 64-bit binary format is its sign and the rank of its magnitude: rank 0 is zero,
rank 1 the smallest positive magnitude, and so on up to infinity.  In units of `2 ^ -1074` every
finite magnitude is a natural number (`units`), so rounding and comparison are exact arithmetic.

Powers are written `Nat.pow`, which means the same whatever other instances of `^` are in scope.
-/

namespace DeltaPreview

/-- A double: not a number, or a sign and the rank of a magnitude. -/
inductive Double where
  | nan
  | signed (negative : Bool) (rank : Fin (2047 * Nat.pow 2 52 + 1))
  deriving DecidableEq, Repr

/-- The quotient `num / den` rounded to a natural number; a half goes to the even neighbour. -/
def roundEven (num den : Nat) : Nat :=
  let floor := num / den
  let rest := num % den
  if 2 * rest < den then floor
  else if den < 2 * rest then floor + 1
  else floor + floor % 2

namespace Double

instance : Inhabited Double := ⟨.nan⟩

/-- The rank of infinity. -/
def infinityRank : Nat := 2047 * Nat.pow 2 52

/-- The magnitude of a rank, in units of `2 ^ -1074`.  The rank of infinity stands here for the
power of two that would follow the largest finite magnitude. -/
def units (rank : Nat) : Nat :=
  let shift := rank / Nat.pow 2 52 - 1
  (rank - shift * Nat.pow 2 52) * Nat.pow 2 shift

/-- The rank of the magnitude nearest to `num / den` units; a tie goes to the even rank, and what
is too large becomes infinity. -/
def nearestRank (num den : Nat) : Nat :=
  let shift := (num / den).log2 - 52
  min infinityRank (shift * Nat.pow 2 52 + roundEven num (den * Nat.pow 2 shift))

theorem nearestRank_le (num den : Nat) : nearestRank num den ≤ infinityRank := Nat.min_le_left _ _

/-- The double nearest to `num / den` units, with the given sign. -/
def nearest (negative : Bool) (num den : Nat) : Double :=
  .signed negative ⟨nearestRank num den, Nat.lt_succ_of_le (nearestRank_le num den)⟩

def zero (negative : Bool) : Double := .signed negative ⟨0, by decide⟩

def infinity (negative : Bool) : Double := .signed negative ⟨infinityRank, by decide⟩

/-- The double nearest to `digits * 10 ^ exponent`.  Exponents far outside the range are settled
without computing the power. -/
def ofDecimal (negative : Bool) (digits : Nat) (exponent : Int) : Double :=
  let size := (Nat.toDigits 10 digits).length + exponent
  if digits = 0 then zero negative
  else if 310 < size then infinity negative
  else if size < -330 then zero negative
  else if 0 ≤ exponent then nearest negative (digits * Nat.pow 10 exponent.toNat * Nat.pow 2 1074) 1
  else nearest negative (digits * Nat.pow 2 1074) (Nat.pow 10 (-exponent).toNat)

/-- The double nearest to an integer, unless the integer is too large to have one. -/
def ofInt? (n : Int) : Option Double :=
  let rank := nearestRank (n.natAbs * Nat.pow 2 1074) 1
  if rank = infinityRank then none else some (nearest (n < 0) (n.natAbs * Nat.pow 2 1074) 1)

/-- Zero of either sign. -/
def isZero : Double → Bool
  | .nan => false
  | .signed _ rank => rank.val == 0

/-- Greater than zero. -/
def isPositive : Double → Bool
  | .nan => false
  | .signed negative rank => !negative && rank.val != 0

/-- Neither infinite nor not a number. -/
def isFinite : Double → Bool
  | .nan => false
  | .signed _ rank => rank.val < infinityRank

/-- The integer that the double is equal to, if it is equal to one. -/
def toInt? : Double → Option Int
  | .nan => none
  | .signed negative rank =>
    if rank.val < infinityRank && units rank.val % Nat.pow 2 1074 == 0 then
      let n : Int := (units rank.val / Nat.pow 2 1074 : Nat)
      some (if negative then -n else n)
    else none

end Double

end DeltaPreview
