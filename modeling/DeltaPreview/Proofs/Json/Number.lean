import DeltaPreview.Json.Printer
import DeltaPreview.Json.Reader
import DeltaPreview.Proofs.Double.Shortest

/-!
# Printed numbers read back

A number literal is spelled by its digits before and after the point and an exponent
(`Json.Spelling`), and reading finds just these parts (`Json.Spelling.read?_chars`).  Every form in
which a double is printed is such a spelling, of a decimal that is rounded to it
(`Json.Spelling.exists_spells`, `Json.Spelling.value_float`).
-/

namespace DeltaPreview.Json

open Double (Decimal exponentText)

/-! ### Digits -/

def digitValue (c : Char) : Nat := c.toNat - '0'.toNat

theorem ofDigits_map (cs : List Char) : ofDigits (cs.map digitValue) = Nat.ofDigitChars 10 cs 0 :=
  List.foldl_map

/-- A text that no digit begins. -/
def NoDigit (rest : Text) : Prop := spanDigits rest = ([], rest)

theorem spanDigits_append {cs : List Char} (hcs : ∀ c ∈ cs, c.isDigit) {rest : Text}
    (hrest : NoDigit rest) : spanDigits (Text.ofChars cs ++ rest) = (cs.map digitValue, rest) := by
  induction cs with
  | nil => exact hrest
  | cons c cs ih =>
    rw [List.forall_mem_cons] at hcs
    have hdigit : digit? (.char c) = some (digitValue c) := if_pos hcs.1
    rw [Text.ofChars_cons, List.cons_append, spanDigits, hdigit, ih hcs.2]
    rfl

/-- What may follow a number: nothing that its literal would take in. -/
structure EndsNumber (rest : Text) : Prop where
  digits : NoDigit rest
  fraction : spanFraction rest = ([], rest)
  exponent : spanExponent rest = none

theorem endsNumber_nil : EndsNumber [] := ⟨rfl, rfl, rfl⟩

theorem endsNumber_comma (rest : Text) : EndsNumber (.char ',' :: rest) := ⟨rfl, rfl, rfl⟩

theorem endsNumber_newline (rest : Text) : EndsNumber (.char '\n' :: rest) := ⟨rfl, rfl, rfl⟩

/-! ### Spellings -/

/-- The parts of a number literal without its sign. -/
structure Spelling where
  whole : List Char
  fraction : List Char
  exponent : Option Int
  digit_whole : ∀ c ∈ whole, c.isDigit
  digit_fraction : ∀ c ∈ fraction, c.isDigit
  plain : whole = ['0'] ∨ ∃ c cs, whole = c :: cs ∧ c ≠ '0'

namespace Spelling

def fractionChars : List Char → List Char
  | [] => []
  | c :: cs => '.' :: c :: cs

theorem fractionChars_of_ne_nil {cs : List Char} (h : cs ≠ []) : fractionChars cs = '.' :: cs := by
  cases cs with
  | nil => exact absurd rfl h
  | cons c cs => rfl

def exponentChars : Option Int → List Char
  | none => []
  | some e => 'e' :: exponentText e

def chars (s : Spelling) : List Char :=
  s.whole ++ (fractionChars s.fraction ++ exponentChars s.exponent)

theorem spanWhole_append (s : Spelling) {rest : Text} (hrest : NoDigit rest) :
    spanWhole (Text.ofChars s.whole ++ rest) = (s.whole.map digitValue, rest) := by
  rcases s.plain with h | ⟨c, cs, h, hc⟩
  · rw [h]
    rfl
  · have hspan := spanDigits_append s.digit_whole hrest
    rw [h] at hspan ⊢
    rw [← hspan]
    unfold spanWhole
    split
    next heq =>
      injection heq with heq
      injection heq with heq
      exact absurd heq hc
    next => rfl

theorem spanFraction_append {cs : List Char} (hcs : ∀ c ∈ cs, c.isDigit) {rest : Text}
    (hrest : NoDigit rest) (hfraction : spanFraction rest = ([], rest)) :
    spanFraction (Text.ofChars (fractionChars cs) ++ rest) = (cs.map digitValue, rest) := by
  cases cs with
  | nil => exact hfraction
  | cons c cs =>
    have hspan := spanDigits_append hcs hrest
    rw [fractionChars, Text.ofChars_cons, List.cons_append, spanFraction, hspan]
    rfl

theorem spanNumber_append (negative : Bool) {cs : List Char} (hcs : ∀ c ∈ cs, c.isDigit)
    (hne : cs ≠ []) {rest : Text} (hrest : NoDigit rest) :
    spanNumber negative (Text.ofChars cs ++ rest) =
      some (if negative then -(Nat.ofDigitChars 10 cs 0 : Int) else Nat.ofDigitChars 10 cs 0, rest) := by
  unfold spanNumber
  rw [spanDigits_append hcs hrest, ← ofDigits_map]
  cases cs with
  | nil => exact absurd rfl hne
  | cons c cs => rfl

theorem ofDigitChars_toDigits (n : Nat) : Nat.ofDigitChars 10 (Nat.toDigits 10 n) 0 = n :=
  Nat.ofDigitChars_toDigits (by decide) (by decide)

theorem isDigit_toDigits (n : Nat) : ∀ c ∈ Nat.toDigits 10 n, c.isDigit :=
  fun _ hc => Nat.isDigit_of_mem_toDigits (by decide) (by decide) hc

theorem spanSigned_exponentText (n : Int) {rest : Text} (hrest : NoDigit rest) :
    spanSigned (Text.ofChars (exponentText n) ++ rest) = some (n, rest) := by
  obtain ⟨ds, hds, hdigits, hne, hvalue⟩ : ∃ ds, exponentText n = (if n < 0 then '-' else '+') :: ds ∧
      (∀ c ∈ ds, c.isDigit) ∧ ds ≠ [] ∧ Nat.ofDigitChars 10 ds 0 = n.natAbs := by
    refine ⟨_, rfl, ?_⟩
    have hdigits := isDigit_toDigits n.natAbs
    have hvalue := ofDigitChars_toDigits n.natAbs
    split
    · exact ⟨List.forall_mem_cons.mpr ⟨rfl, hdigits⟩, List.cons_ne_nil _ _, hvalue⟩
    · exact ⟨hdigits, Nat.toDigits_ne_nil, hvalue⟩
  rw [hds]
  split
  next hneg =>
    show spanNumber true (Text.ofChars ds ++ rest) = _
    rw [spanNumber_append true hdigits hne hrest, hvalue, if_pos rfl]
    simp only [Option.some.injEq, Prod.mk.injEq, and_true]
    omega
  next hnonneg =>
    show spanNumber false (Text.ofChars ds ++ rest) = _
    rw [spanNumber_append false hdigits hne hrest, hvalue, if_neg Bool.false_ne_true]
    simp only [Option.some.injEq, Prod.mk.injEq, and_true]
    omega

theorem spanExponent_append (e : Option Int) {rest : Text} (hrest : EndsNumber rest) :
    spanExponent (Text.ofChars (exponentChars e) ++ rest) = e.map (·, rest) := by
  cases e with
  | none => exact hrest.exponent
  | some e => exact spanSigned_exponentText e hrest.digits

/-- What follows the integer part does not continue it. -/
theorem noDigit_fractionChars (cs : List Char) {rest : Text} (hrest : NoDigit rest) :
    NoDigit (Text.ofChars (fractionChars cs) ++ rest) := by
  cases cs with
  | nil => exact hrest
  | cons c cs => rfl

theorem noDigit_exponentChars (e : Option Int) {rest : Text} (hrest : EndsNumber rest) :
    NoDigit (Text.ofChars (exponentChars e) ++ rest) := by
  cases e with
  | none => exact hrest.digits
  | some e => rfl

theorem spanFraction_exponentChars (e : Option Int) {rest : Text} (hrest : EndsNumber rest) :
    spanFraction (Text.ofChars (exponentChars e) ++ rest) =
      ([], Text.ofChars (exponentChars e) ++ rest) := by
  cases e with
  | none => exact hrest.fraction
  | some e => rfl

/-- Reading a literal finds its parts. -/
theorem read?_chars (negative : Bool) (s : Spelling) {rest : Text} (hrest : EndsNumber rest) :
    NumberLiteral.read? (Text.ofChars ((if negative then ['-'] else []) ++ s.chars) ++ rest) =
      some ⟨negative, s.whole.map digitValue, s.fraction.map digitValue, s.exponent, rest⟩ := by
  have hexponent := spanExponent_append s.exponent hrest
  have hfraction := spanFraction_append s.digit_fraction (noDigit_exponentChars s.exponent hrest)
    (spanFraction_exponentChars s.exponent hrest)
  have hwhole := s.spanWhole_append
    (noDigit_fractionChars s.fraction (noDigit_exponentChars s.exponent hrest))
  obtain ⟨c, cs, hc⟩ : ∃ c cs, s.whole = c :: cs := by
    rcases s.plain with h | ⟨c, cs, h, -⟩
    · exact ⟨_, _, h⟩
    · exact ⟨_, _, h⟩
  have hchars : s.chars = c :: (cs ++ (fractionChars s.fraction ++ exponentChars s.exponent)) := by
    unfold chars
    rw [hc]
    rfl
  have hdash : c ≠ '-' := by
    have hdigit : c.isDigit := s.digit_whole c (by rw [hc]; exact List.mem_cons_self)
    rintro rfl
    exact absurd hdigit (by decide)
  -- After the sign, the parts are found one after the other.
  unfold NumberLiteral.read?
  split
  next b t ht =>
    have hsign : (b, t) = (negative, Text.ofChars s.chars ++ rest) := by
      cases negative with
      | true => exact ht.symm
      | false =>
        rw [hchars] at ht ⊢
        split at ht
        next heq =>
          injection heq with heq
          injection heq with heq
          exact absurd heq hdash
        next => exact ht.symm
    obtain ⟨rfl, rfl⟩ := Prod.mk.inj hsign
    unfold chars
    rw [Text.ofChars_append, Text.ofChars_append, List.append_assoc, List.append_assoc, hwhole, hc]
    simp only [List.map_cons, hfraction, hexponent]
    cases s.exponent <;> rfl

/-! ### Spellings of decimals -/

/-- A spelling of a decimal as a double, with more zeros at the end of its digits perhaps. -/
structure Spells (s : Spelling) (d : Decimal) : Prop where
  isFloat : s.fraction ≠ [] ∨ s.exponent ≠ none
  decimal : ∃ zeros : Nat, Nat.ofDigitChars 10 (s.whole ++ s.fraction) 0 = d.digits * 10 ^ zeros ∧
    s.exponent.getD 0 - s.fraction.length = d.exponent - zeros

theorem toDigits_eq_cons {n : Nat} (hpos : 0 < n) : ∃ c cs, Nat.toDigits 10 n = c :: cs ∧ c ≠ '0' := by
  induction n using Nat.strongRecOn with
  | ind n ih =>
    rw [Nat.toDigits_eq_if (by decide)]
    split
    next hlt =>
      have hne : ∀ m < 10, 0 < m → Nat.digitChar m ≠ '0' := by decide
      exact ⟨_, _, rfl, hne n hlt hpos⟩
    next hge =>
      obtain ⟨c, cs, hc, hne⟩ := ih (n / 10) (by omega) (by omega)
      exact ⟨c, _, by rw [hc]; rfl, hne⟩

theorem isDigit_zeros (n : Nat) : ∀ c ∈ List.replicate n '0', c.isDigit := fun c hc => by
  rw [List.eq_of_mem_replicate hc]
  decide

section Forms

variable (n : Nat)

/-- The digits after the point and zeros. -/
def small (zeros : Nat) : Spelling where
  whole := ['0']
  fraction := List.replicate zeros '0' ++ Nat.toDigits 10 n
  exponent := none
  digit_whole := isDigit_zeros 1
  digit_fraction := List.forall_mem_append.mpr ⟨isDigit_zeros zeros, isDigit_toDigits n⟩
  plain := .inl rfl

/-- The digits before zeros and an empty fraction. -/
def integral (hpos : 0 < n) (zeros : Nat) : Spelling where
  whole := Nat.toDigits 10 n ++ List.replicate zeros '0'
  fraction := ['0']
  exponent := none
  digit_whole := List.forall_mem_append.mpr ⟨isDigit_toDigits n, isDigit_zeros zeros⟩
  digit_fraction := isDigit_zeros 1
  plain := by
    obtain ⟨c, cs, hc, hne⟩ := toDigits_eq_cons hpos
    exact .inr ⟨c, cs ++ List.replicate zeros '0', by rw [hc]; rfl, hne⟩

/-- The digits with the point among them or after them. -/
def pointed (hpos : 0 < n) (place : Nat) (exponent : Option Int) : Spelling where
  whole := (Nat.toDigits 10 n).take (place + 1)
  fraction := (Nat.toDigits 10 n).drop (place + 1)
  exponent := exponent
  digit_whole := fun c hc => isDigit_toDigits n c (List.mem_of_mem_take hc)
  digit_fraction := fun c hc => isDigit_toDigits n c (List.mem_of_mem_drop hc)
  plain := by
    obtain ⟨c, cs, hc, hne⟩ := toDigits_eq_cons hpos
    exact .inr ⟨c, cs.take place, by rw [hc]; rfl, hne⟩

theorem chars_small (zeros : Nat) :
    (small n zeros).chars = '0' :: '.' :: (List.replicate zeros '0' ++ Nat.toDigits 10 n) := by
  have hne : List.replicate zeros '0' ++ Nat.toDigits 10 n ≠ [] :=
    List.append_ne_nil_of_right_ne_nil _ Nat.toDigits_ne_nil
  rw [chars, small, fractionChars_of_ne_nil hne, exponentChars, List.append_nil]
  rfl

theorem chars_pointed (hpos : 0 < n) {place : Nat} (exponent : Option Int)
    (hlong : place + 1 < (Nat.toDigits 10 n).length) :
    (pointed n hpos place exponent).chars = (Nat.toDigits 10 n).take (place + 1) ++
      '.' :: (Nat.toDigits 10 n).drop (place + 1) ++ exponentChars exponent := by
  have hne : (Nat.toDigits 10 n).drop (place + 1) ≠ [] := by
    rw [Ne, List.drop_eq_nil_iff]
    omega
  rw [chars, pointed, fractionChars_of_ne_nil hne, List.append_assoc]

/-- Without digits after it, the point is not written. -/
theorem chars_pointed_of_le (hpos : 0 < n) {place : Nat} (exponent : Option Int)
    (hshort : (Nat.toDigits 10 n).length ≤ place + 1) :
    (pointed n hpos place exponent).chars = Nat.toDigits 10 n ++ exponentChars exponent := by
  show (Nat.toDigits 10 n).take (place + 1) ++
    (fractionChars ((Nat.toDigits 10 n).drop (place + 1)) ++ exponentChars exponent) = _
  rw [List.take_of_length_le hshort, List.drop_of_length_le hshort]
  rfl

end Forms

variable {d : Decimal}

theorem spells_small {zeros : Nat}
    (h : (Nat.toDigits 10 d.digits).length + d.exponent = -zeros) : (small d.digits zeros).Spells d where
  isFloat := .inl (List.append_ne_nil_of_right_ne_nil _ Nat.toDigits_ne_nil)
  decimal := by
    refine ⟨0, ?_, ?_⟩
    · calc
        Nat.ofDigitChars 10 (List.replicate (zeros + 1) '0' ++ Nat.toDigits 10 d.digits) 0
        _ = Nat.ofDigitChars 10 (Nat.toDigits 10 d.digits) 0 := by
            rw [Nat.ofDigitChars_append, Nat.ofDigitChars_replicate_zero, Nat.mul_zero]
        _ = d.digits * 10 ^ 0 := by rw [ofDigitChars_toDigits, Nat.pow_zero, Nat.mul_one]
    · simp only [small, List.length_append, List.length_replicate, Option.getD_none]
      omega

theorem spells_integral (hpos : 0 < d.digits) {zeros : Nat} (h : d.exponent = zeros) :
    (integral d.digits hpos zeros).Spells d where
  isFloat := .inl (List.cons_ne_nil _ _)
  decimal := by
    refine ⟨zeros + 1, ?_, ?_⟩
    · show Nat.ofDigitChars 10 (Nat.toDigits 10 d.digits ++ List.replicate zeros '0' ++ ['0']) 0 = _
      rw [List.append_assoc, ← List.replicate_succ', Nat.ofDigitChars_append, ofDigitChars_toDigits,
        Nat.ofDigitChars_replicate_zero, Nat.mul_comm]
    · simp only [integral, List.length_singleton, Option.getD_none]
      omega

theorem spells_pointed (hpos : 0 < d.digits) {place : Nat} {exponent : Option Int}
    (hfloat : place + 1 < (Nat.toDigits 10 d.digits).length ∨ exponent ≠ none)
    (h : exponent.getD 0 - ((Nat.toDigits 10 d.digits).length - (place + 1) : Nat) = d.exponent) :
    (pointed d.digits hpos place exponent).Spells d where
  isFloat := hfloat.imp_left fun hlt => by
    rw [pointed, Ne, List.drop_eq_nil_iff]
    omega
  decimal := by
    refine ⟨0, ?_, ?_⟩
    · simp only [pointed]
      rw [List.take_append_drop, ofDigitChars_toDigits, Nat.pow_zero, Nat.mul_one]
    · simp only [pointed, List.length_drop]
      omega

/-- Whatever form a decimal is printed in, it is spelled. -/
theorem exists_spells (hpos : 0 < d.digits) :
    ∃ s : Spelling, d.write ⟨16, true⟩ = s.chars ∧ s.Spells d := by
  have hlength : 0 < (Nat.toDigits 10 d.digits).length := Nat.length_toDigits_pos
  have hleading : d.leading = (Nat.toDigits 10 d.digits).length - 1 + d.exponent := rfl
  unfold Decimal.write
  dsimp only
  split
  next hpositional =>
    split
    next hneg =>
      obtain ⟨zeros, hzeros⟩ : ∃ zeros : Nat, (-d.leading - 1).toNat = zeros := ⟨_, rfl⟩
      refine ⟨small d.digits zeros, ?_, spells_small (by omega)⟩
      rw [chars_small, hzeros]
      rfl
    next hnonneg =>
      split
      next hshort =>
        rw [Decimal.text] at hshort ⊢
        obtain ⟨zeros, hzeros⟩ := Int.eq_ofNat_of_zero_le (show 0 ≤ d.exponent by omega)
        refine ⟨integral d.digits hpos zeros, ?_, spells_integral hpos hzeros⟩
        rw [if_pos rfl, show d.leading.toNat + 1 - (Nat.toDigits 10 d.digits).length = zeros by omega]
        rfl
      next hlong =>
        have hlong := Nat.lt_of_not_le hlong
        refine ⟨pointed d.digits hpos d.leading.toNat none, ?_, spells_pointed hpos (.inl hlong) ?_⟩
        · rw [chars_pointed _ hpos none hlong, exponentChars, List.append_nil]
          rfl
        · rw [Decimal.text] at hlong
          rw [Option.getD_none]
          omega
  next hscientific =>
    refine ⟨pointed d.digits hpos 0 (some d.leading), ?_,
      spells_pointed hpos (.inr (Option.some_ne_none _)) ?_⟩
    · split
      next hone =>
        rw [chars_pointed_of_le _ hpos _ (Nat.le_of_eq hone)]
        rfl
      next hmore =>
        rw [Decimal.text] at hmore
        rw [chars_pointed _ hpos _ (by omega)]
        rfl
    · rw [Option.getD_some]
      omega

/-- A finite double is read back from its digits. -/
theorem value_float (negative : Bool) {rank : Nat} (hpos : 0 < rank) (hfinite : rank < Double.infinityRank)
    {s : Spelling} (hs : s.Spells d) (hd : d.RoundsTo rank) (rest : Text) :
    NumberLiteral.value ⟨negative, s.whole.map digitValue, s.fraction.map digitValue, s.exponent, rest⟩ =
      .ok (.float (.signed negative ⟨rank, Nat.lt_succ_of_lt hfinite⟩)) := by
  obtain ⟨hfloat, zeros, hdigits, hexponent⟩ := hs
  have hround := (d.roundsTo_zeros rank zeros).mpr hd
  rw [← hdigits, ← hexponent] at hround
  have hread := Double.ofDecimal_eq negative hpos hfinite hround
  rw [← ofDigits_map, List.map_append] at hread
  unfold NumberLiteral.value
  split
  next hfraction hnone =>
    rcases hfloat with h | h
    · exact absurd (List.map_eq_nil_iff.mp hfraction) h
    · exact absurd hnone h
  next => rw [List.length_map, hread]

end Spelling

/-! ### Numbers as values -/

/-- A number begins with no word. -/
theorem afterWord?_of_read? (word : String)
    (hword : ∀ t, NumberLiteral.read? (Text.ofString word ++ t) = none) {s : Text} {n : NumberLiteral}
    (h : NumberLiteral.read? s = some n) : Text.afterWord? word s = none := by
  cases hafter : Text.afterWord? word s with
  | none => rfl
  | some rest =>
    rw [Text.afterWord?_eq_some_iff.mp hafter, hword] at h
    cases h

theorem atom_of_read? {s : Text} {n : NumberLiteral} {v : Json} (hread : NumberLiteral.read? s = some n)
    (hvalue : n.value = .ok v) : atom s = .ok (v, n.rest) := by
  have hwords : word? s = none := by
    simp only [word?, words, List.findSome?_cons, List.findSome?_nil,
      afterWord?_of_read? "null" (fun _ => rfl) hread,
      afterWord?_of_read? "true" (fun _ => rfl) hread,
      afterWord?_of_read? "false" (fun _ => rfl) hread, Option.map_none]
  have hrefused : (refusedWords.find? fun word => (Text.afterWord? word s).isSome) = none := by
    simp only [refusedWords, List.find?_cons, List.find?_nil,
      afterWord?_of_read? "NaN" (fun _ => rfl) hread,
      afterWord?_of_read? "Infinity" (fun _ => rfl) hread,
      afterWord?_of_read? "-Infinity" (fun _ => rfl) hread, Option.isSome_none]
  rw [atom, hwords, hrefused, hread]
  dsimp only
  rw [hvalue]
  rfl

/-- The digits of an integer. -/
def Spelling.natural (n : Nat) : Spelling where
  whole := Nat.toDigits 10 n
  fraction := []
  exponent := none
  digit_whole := isDigit_toDigits n
  digit_fraction := fun _ hc => absurd hc List.not_mem_nil
  plain := by
    rcases Nat.eq_zero_or_pos n with rfl | hpos
    · exact .inl rfl
    · exact .inr (toDigits_eq_cons hpos)

/-- An integer that is not too long is read back. -/
theorem atom_intText {n : Int} (hshort : (Nat.toDigits 10 n.natAbs).length ≤ maxDigits) {rest : Text}
    (hrest : EndsNumber rest) : atom (Text.ofChars (intText n) ++ rest) = .ok (.int n, rest) := by
  have hchars : intText n =
      (if decide (n < 0) then ['-'] else []) ++ (Spelling.natural n.natAbs).chars := by
    rw [intText, Spelling.chars, Spelling.natural, Spelling.fractionChars, Spelling.exponentChars,
      List.append_nil, List.append_nil]
    simp only [decide_eq_true_eq]
  rw [hchars]
  refine atom_of_read? (Spelling.read?_chars _ _ hrest) ?_
  rw [Spelling.natural, NumberLiteral.value, List.map_nil]
  dsimp only
  rw [List.length_map, if_neg (Nat.not_lt.mpr hshort), ofDigits_map, Spelling.ofDigitChars_toDigits]
  simp only [decide_eq_true_eq, Except.ok.injEq, Json.int.injEq]
  omega

/-- The digits of zero as a double. -/
def Spelling.zero : Spelling where
  whole := ['0']
  fraction := ['0']
  exponent := none
  digit_whole := isDigit_zeros 1
  digit_fraction := isDigit_zeros 1
  plain := .inl rfl

theorem floatText_of_finite (negative : Bool) {rank : Fin (2047 * Nat.pow 2 52 + 1)}
    (hfinite : rank.val < Double.infinityRank) :
    floatText (.signed negative rank) = (if negative then ['-'] else []) ++
      (if rank.val = 0 then Spelling.zero.chars else (Double.shortest rank.val).write ⟨16, true⟩) := by
  have hne (b : Bool) : Double.signed negative rank ≠ Double.infinity b := fun h => by
    injection h with _ h
    rw [h] at hfinite
    exact absurd hfinite (Nat.lt_irrefl _)
  rw [floatText, if_neg Double.noConfusion, if_neg (hne false), if_neg (hne true), Double.text,
    Double.write, if_neg (Nat.ne_of_lt hfinite)]
  rfl

/-- A finite double is read back. -/
theorem atom_floatText {x : Double} (hfinite : x.isFinite) {rest : Text} (hrest : EndsNumber rest) :
    atom (Text.ofChars (floatText x) ++ rest) = .ok (.float x, rest) := by
  cases x with
  | nan => cases hfinite
  | signed negative rank =>
    have hfinite : rank.val < Double.infinityRank := of_decide_eq_true hfinite
    rw [floatText_of_finite negative hfinite]
    rcases Nat.eq_zero_or_pos rank.val with hzero | hpos
    · rw [if_pos hzero]
      obtain rfl : rank = ⟨0, by decide⟩ := Fin.ext hzero
      exact atom_of_read? (Spelling.read?_chars negative Spelling.zero hrest) rfl
    · rw [if_neg (Nat.ne_of_gt hpos)]
      have hround := Double.roundsTo_shortest hpos
      obtain ⟨s, hchars, hs⟩ := Spelling.exists_spells (Decimal.digits_pos hpos hround)
      rw [hchars]
      exact atom_of_read? (Spelling.read?_chars negative s hrest)
        (Spelling.value_float negative hpos hfinite hs hround rest)

/-- An infinite double is not read. -/
theorem atom_floatText_eq_error {x : Double} (hnumber : x ≠ .nan) (hinfinite : x.isFinite = false)
    (rest : Text) : ∃ word, atom (Text.ofChars (floatText x) ++ rest) = .error (.notJson word) := by
  cases x with
  | nan => exact absurd rfl hnumber
  | signed negative rank =>
    have hge : Double.infinityRank ≤ rank.val := Nat.not_lt.mp (of_decide_eq_false hinfinite)
    obtain rfl : rank = ⟨Double.infinityRank, by decide⟩ :=
      Fin.ext (Nat.le_antisymm (Nat.le_of_lt_succ rank.isLt) hge)
    cases negative with
    | false => exact ⟨"Infinity", rfl⟩
    | true => exact ⟨"-Infinity", rfl⟩

end DeltaPreview.Json
