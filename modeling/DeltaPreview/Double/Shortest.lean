import DeltaPreview.Double.Basic

/-!
# Shortest decimals

The shortest decimal that reads back as a given magnitude: for one, two, … significant digits the
two neighbours of the magnitude on that decimal grid are tried, and the first grid with a neighbour
inside the interval of the reals that round to the magnitude wins; of two the nearer, and of two
equally near ones the even one.
-/

namespace DeltaPreview.Double

/-- A decimal `digits * 10 ^ exponent`. -/
structure Decimal where
  digits : Nat
  exponent : Int
  deriving DecidableEq, Repr

namespace Decimal

/-- The same decimal without trailing zeros among its digits; `fuel` bounds how many are dropped. -/
def dropZeros : Nat → Decimal → Decimal
  | 0, d => d
  | fuel + 1, d =>
    if d.digits ≠ 0 ∧ d.digits % 10 = 0 then dropZeros fuel ⟨d.digits / 10, d.exponent + 1⟩ else d

/-- The decimal digits. -/
def text (d : Decimal) : List Char := Nat.toDigits 10 d.digits

/-- The power of ten of the leading digit. -/
def leading (d : Decimal) : Int := d.text.length - 1 + d.exponent

end Decimal

/-- The power of ten of the leading digit of a positive number of units. -/
def leadingPower (units : Nat) : Int :=
  (Nat.toDigits 10 (units * Nat.pow 10 324 / Nat.pow 2 1074)).length - 325

/-- The decimal grid of step `10 ^ power` in units: `k` steps are `k * step / scale` units. -/
structure Grid where
  scale : Nat
  step : Nat

def Grid.ofPower (power : Int) : Grid :=
  ⟨Nat.pow 10 (-power).toNat, Nat.pow 2 1074 * Nat.pow 10 power.toNat⟩

/-- Whether `k` steps of the grid round to the magnitude of a rank: the interval reaches half way
to the neighbouring magnitudes and contains its ends when the rank is even. -/
def Grid.rounds (grid : Grid) (rank k : Nat) : Bool :=
  let low := (units (rank - 1) + units rank) * grid.scale
  let high := (units rank + units (rank + 1)) * grid.scale
  let point := 2 * k * grid.step
  if rank % 2 = 0 then low ≤ point && point ≤ high else low < point && point < high

/-- The grid point next to the magnitude of a rank that reads back as it. -/
def Grid.nearest? (grid : Grid) (rank : Nat) : Option Nat :=
  let scaled := units rank * grid.scale
  let below := scaled / grid.step
  match grid.rounds rank below, grid.rounds rank (below + 1) with
  | true, true => some (roundEven scaled grid.step)
  | true, false => some below
  | false, true => some (below + 1)
  | false, false => none

/-- The shortest decimal that reads back as the magnitude of a rank.  Seventeen digits always
suffice. -/
def shortest (rank : Nat) : Decimal :=
  let leading := leadingPower (units rank)
  let at? (count : Nat) : Option Decimal :=
    let power := leading - count
    ((Grid.ofPower power).nearest? rank).map fun k => Decimal.dropZeros 18 ⟨k, power⟩
  ((List.range 17).findSome? at?).getD ⟨units rank, 0⟩

/-- The magnitude of a rank rounded to a number of significant digits, half to even, without
trailing zeros. -/
def rounded (count : Nat) (rank : Nat) : Decimal :=
  let power := leadingPower (units rank) + 1 - count
  let grid := Grid.ofPower power
  Decimal.dropZeros (count + 1) ⟨roundEven (units rank * grid.scale) grid.step, power⟩

end DeltaPreview.Double
