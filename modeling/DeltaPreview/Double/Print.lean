import DeltaPreview.Double.Shortest

/-!
# Decimal text of doubles

A double is written positionally when its leading digit has a moderate power of ten, and with a
signed exponent of at least two digits otherwise.  Two styles occur: the shortest text that reads
back (`Double.text`), and six significant digits (`Double.compact`), the form of font sizes.
-/

namespace DeltaPreview.Double

/-- What a style of decimal text decides. -/
structure Style where
  /-- Leading powers of ten from `-4` up to but not including this one are written positionally. -/
  positionalBelow : Int
  /-- Whether an integral number written positionally ends in `.0`. -/
  keepsPoint : Bool

/-- Digits with the decimal point after the first `n` of them. -/
private def pointAfter (n : Nat) (digits : List Char) : List Char :=
  digits.take n ++ '.' :: digits.drop n

/-- The exponent of scientific notation: a sign and at least two digits. -/
def exponentText (n : Int) : List Char :=
  let digits := Nat.toDigits 10 n.natAbs
  (if n < 0 then '-' else '+') :: (if digits.length < 2 then '0' :: digits else digits)

/-- A decimal whose digits have no trailing zero, in a style. -/
def Decimal.write (style : Style) (d : Decimal) : List Char :=
  let digits := d.text
  let leading := d.leading
  if -4 ≤ leading ∧ leading < style.positionalBelow then
    if leading < 0 then
      '0' :: '.' :: (List.replicate (-leading - 1).toNat '0' ++ digits)
    else
      let whole := leading.toNat + 1
      if digits.length ≤ whole then
        digits ++ List.replicate (whole - digits.length) '0' ++
          (if style.keepsPoint then ['.', '0'] else [])
      else pointAfter whole digits
  else
    (if digits.length = 1 then digits else pointAfter 1 digits) ++ 'e' :: exponentText leading

/-- A double in a style, given the decimal that stands for a positive finite magnitude. -/
def write (style : Style) (decimal : Nat → Decimal) : Double → List Char
  | .nan => ['n', 'a', 'n']
  | .signed negative rank =>
    (if negative then ['-'] else []) ++
      (if rank.val = infinityRank then ['i', 'n', 'f']
      else if rank.val = 0 then '0' :: (if style.keepsPoint then ['.', '0'] else [])
      else (decimal rank.val).write style)

/-- The shortest text that reads back: positional below `10 ^ 16`, an integral number with `.0`. -/
def text : Double → List Char := write ⟨16, true⟩ shortest

/-- Six significant digits: positional below `10 ^ 6`, an integral number without a point. -/
def compact : Double → List Char := write ⟨6, false⟩ (rounded 6)

/-! ### The characters of written numbers -/

/-- A character that written numbers are made of. -/
def isNumeral (c : Char) : Bool := c.isDigit || ['.', '-', '+', 'e', 'n', 'a', 'i', 'f'].contains c

theorem isNumeral_toDigits (n : Nat) : (Nat.toDigits 10 n).all isNumeral := by
  rw [List.all_eq_true]
  intro c hc
  rw [isNumeral, Nat.isDigit_of_mem_toDigits (by decide) (by decide) hc, Bool.true_or]

theorem isNumeral_zeros (n : Nat) : (List.replicate n '0').all isNumeral := by
  rw [List.all_replicate]
  split <;> decide

private theorem isNumeral_pointAfter (n : Nat) {digits : List Char}
    (h : digits.all isNumeral = true) : (pointAfter n digits).all isNumeral := by
  rw [List.all_eq_true] at h
  have htake : (digits.take n).all isNumeral = true :=
    List.all_eq_true.mpr fun c hc => h c (List.mem_of_mem_take hc)
  have hdrop : (digits.drop n).all isNumeral = true :=
    List.all_eq_true.mpr fun c hc => h c (List.mem_of_mem_drop hc)
  simp only [pointAfter, List.all_append, List.all_cons, htake, hdrop]
  decide

theorem isNumeral_exponentText (n : Int) : (exponentText n).all isNumeral := by
  have hdigits := isNumeral_toDigits n.natAbs
  have hsigns : isNumeral '-' = true ∧ isNumeral '+' = true ∧ isNumeral '0' = true := by decide
  unfold exponentText
  dsimp only
  split <;> split <;> simp [hsigns, hdigits]

theorem Decimal.isNumeral_write (style : Style) (d : Decimal) :
    (d.write style).all isNumeral := by
  have hdigits : d.text.all isNumeral = true := isNumeral_toDigits d.digits
  have hsigns : isNumeral '0' = true ∧ isNumeral '.' = true ∧ isNumeral 'e' = true := by decide
  unfold Decimal.write
  dsimp only
  split
  · split
    · simp only [List.all_cons, List.all_append, hsigns, isNumeral_zeros, hdigits, Bool.and_self]
    · split
      · rw [List.all_append, List.all_append, hdigits, isNumeral_zeros]
        split <;> simp [hsigns]
      · exact isNumeral_pointAfter _ hdigits
  · rw [List.all_append, List.all_cons, isNumeral_exponentText, hsigns.2.2]
    split
    · simp [hdigits]
    · simp [isNumeral_pointAfter _ hdigits]

/-- Doubles are written with digits, points, signs and a few letters. -/
theorem isNumeral_write (style : Style) (decimal : Nat → Decimal) (x : Double) :
    (x.write style decimal).all isNumeral := by
  cases x with
  | nan =>
    show ['n', 'a', 'n'].all isNumeral = true
    decide
  | signed negative rank =>
    have hsign : (if negative then ['-'] else []).all isNumeral = true := by
      cases negative <;> decide
    rw [write, List.all_append, hsign, Bool.true_and]
    split
    · decide
    · split
      · split <;> decide
      · exact Decimal.isNumeral_write style _

theorem isNumeral_compact (x : Double) : x.compact.all isNumeral := isNumeral_write _ _ x

end DeltaPreview.Double
