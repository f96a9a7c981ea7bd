import DeltaPreview.Json.Error
import DeltaPreview.Json.Basic

/-!
# Number literals

An optional minus sign, digits without a superfluous leading zero, and optionally a fraction and an
exponent.  A literal with a fraction or an exponent is a double, any other an integer.  A point or
an exponent letter that no digit follows is not part of the literal.
-/

namespace DeltaPreview.Json

/-- The value of a decimal digit. -/
def digit? : CodePoint → Option Nat
  | .char c => if c.isDigit then some (c.toNat - '0'.toNat) else none
  | .surrogate _ => none

/-- The digits at the beginning of a text and what follows them. -/
def spanDigits : Text → List Nat × Text
  | [] => ([], [])
  | g :: rest =>
    match digit? g with
    | some d => let (ds, r) := spanDigits rest; (d :: ds, r)
    | none => ([], g :: rest)

/-- The number that digits spell. -/
def ofDigits (digits : List Nat) : Nat := digits.foldl (fun n d => 10 * n + d) 0

/-- The integer part of a literal: a single zero, or digits that do not begin with one. -/
def spanWhole : Text → List Nat × Text
  | .char '0' :: rest => ([0], rest)
  | s => spanDigits s

/-- The digits of a fraction, if a point and a digit begin the text. -/
def spanFraction (s : Text) : List Nat × Text :=
  match s with
  | .char '.' :: rest =>
    match spanDigits rest with
    | ([], _) => ([], s)
    | found => found
  | _ => ([], s)

/-- The number that the digits at the beginning of a text spell, if there are any. -/
def spanNumber (negative : Bool) (s : Text) : Option (Int × Text) :=
  match spanDigits s with
  | ([], _) => none
  | (ds, rest) => some (if negative then -(ofDigits ds : Int) else ofDigits ds, rest)

/-- The number at the beginning of a text, with an optional sign. -/
def spanSigned : Text → Option (Int × Text)
  | .char '-' :: rest => spanNumber true rest
  | .char '+' :: rest => spanNumber false rest
  | s => spanNumber false s

/-- The exponent at the beginning of a text, if a complete one stands there. -/
def spanExponent : Text → Option (Int × Text)
  | .char 'e' :: rest => spanSigned rest
  | .char 'E' :: rest => spanSigned rest
  | _ => none

/-- A number literal: its sign, its parts, and the text after it. -/
structure NumberLiteral where
  negative : Bool
  whole : List Nat
  fraction : List Nat
  exponent : Option Int
  rest : Text
  deriving DecidableEq, Repr

/-- The longest number literal at the beginning of a text. -/
def NumberLiteral.read? (s : Text) : Option NumberLiteral :=
  let (negative, t) := match s with
    | .char '-' :: r => (true, r)
    | _ => (false, s)
  match spanWhole t with
  | ([], _) => none
  | (whole, afterWhole) =>
    let (fraction, afterFraction) := spanFraction afterWhole
    match spanExponent afterFraction with
    | some (exponent, rest) => some ⟨negative, whole, fraction, some exponent, rest⟩
    | none => some ⟨negative, whole, fraction, none, afterFraction⟩

/-- The value of a literal, unless it is an integer with too many digits. -/
def NumberLiteral.value (n : NumberLiteral) : Except (Fault Text) Json :=
  match n.fraction, n.exponent with
  | [], none =>
    if maxDigits < n.whole.length then .error (.tooManyDigits n.whole.length)
    else .ok (.int (if n.negative then -(ofDigits n.whole : Int) else ofDigits n.whole))
  | fraction, exponent =>
    .ok (.float (Double.ofDecimal n.negative (ofDigits (n.whole ++ fraction))
      (exponent.getD 0 - fraction.length)))

/-! ### A literal takes at least one code point -/

theorem spanDigits_length (s : Text) :
    (spanDigits s).1.length + (spanDigits s).2.length = s.length := by
  fun_induction spanDigits s with
  | case1 => rfl
  | case2 g rest d hd ds r h ih => simp [h] at ih ⊢; omega
  | case3 g rest hd => simp

theorem spanWhole_length (s : Text) :
    (spanWhole s).1.length + (spanWhole s).2.length = s.length := by
  unfold spanWhole
  split
  · simp; omega
  · exact spanDigits_length _

theorem spanFraction_length (s : Text) : (spanFraction s).2.length ≤ s.length := by
  unfold spanFraction
  split
  · rename_i rest
    have h := spanDigits_length rest
    split <;> simp_all
    omega
  · simp

theorem spanNumber_length {negative : Bool} {s rest : Text} {n : Int}
    (h : spanNumber negative s = some (n, rest)) : rest.length < s.length := by
  have hl := spanDigits_length s
  unfold spanNumber at h
  split at h
  · simp at h
  · rename_i ds r hne heq
    simp only [Option.some.injEq, Prod.mk.injEq] at h
    obtain ⟨-, rfl⟩ := h
    rw [heq] at hl
    cases ds with
    | nil => simp at hne
    | cons d ds => simp at hl; omega

theorem spanSigned_length {s rest : Text} {n : Int} (h : spanSigned s = some (n, rest)) :
    rest.length < s.length := by
  unfold spanSigned at h
  split at h
  · have := spanNumber_length h; simp; omega
  · have := spanNumber_length h; simp; omega
  · exact spanNumber_length h

theorem spanExponent_length {s rest : Text} {n : Int} (h : spanExponent s = some (n, rest)) :
    rest.length < s.length := by
  unfold spanExponent at h
  split at h
  · have := spanSigned_length h; simp; omega
  · have := spanSigned_length h; simp; omega
  · simp at h

theorem NumberLiteral.read?_length {s : Text} {n : NumberLiteral} (h : read? s = some n) :
    n.rest.length < s.length := by
  unfold read? at h
  have sign : ∀ b t, (match s with
      | .char '-' :: r => (true, r)
      | _ => (false, s)) = (b, t) → t.length ≤ s.length := by
    intro b t ht
    split at ht <;> simp at ht <;> obtain ⟨-, rfl⟩ := ht <;> simp
  split at h
  rename_i b t ht
  have h1 := sign b t ht
  have h2 := spanWhole_length t
  split at h
  · simp at h
  · rename_i whole afterWhole hne hw
    rw [hw] at h2
    have h3 := spanFraction_length afterWhole
    have pos : 0 < whole.length := by
      cases whole with
      | nil => simp at hne
      | cons => simp
    simp only at h h2
    split at h
    · rename_i e rest he
      have h4 := spanExponent_length he
      simp only [Option.some.injEq] at h
      subst h
      simp only
      omega
    · simp only [Option.some.injEq] at h
      subst h
      simp only
      omega

end DeltaPreview.Json
