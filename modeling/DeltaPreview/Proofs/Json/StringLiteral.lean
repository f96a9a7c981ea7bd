import DeltaPreview.Json.Printer
import DeltaPreview.Json.StringLiteral

/-!
# Printed strings read back

Every code point is escaped so that the reader of string literals finds it again
(`Json.stringBody_escape`), and nothing that is escaped looks like the closing quote.
-/

namespace DeltaPreview.Json

variable (opening : Text)

/-- The two digits of a control character. -/
theorem controlDigits : ∀ n < 0x20, (if n < 0x10 then ['0'] else []) ++ Nat.toDigits 16 n =
    [(n / 16).digitChar, (n % 16).digitChar] := by
  decide

theorem hexDigit?_digitChar : ∀ n < 16, hexDigit? (.char n.digitChar) = some n := by
  decide

theorem unicodeEscape_control {n : Nat} (hn : n < 0x20) {rest : Text} (hrest : rest ≠ []) :
    unicodeEscape (Text.ofChars ['0', '0', (n / 16).digitChar, (n % 16).digitChar] ++ rest) =
      .ok (.char (Char.ofNat n), rest) := by
  have hquad : hexQuad? (Text.ofChars ['0', '0', (n / 16).digitChar, (n % 16).digitChar] ++ rest) =
      some (n, rest) := by
    have hzero : hexDigit? (.char '0') = some 0 := by decide
    simp only [Text.ofChars_cons, Text.ofChars_nil, List.cons_append, List.nil_append, hexQuad?, hzero,
      hexDigit?_digitChar (n / 16) (by omega), hexDigit?_digitChar (n % 16) (by omega)]
    show some ((0 * 16 + n / 16) * 16 + n % 16, rest) = some (n, rest)
    rw [Nat.zero_mul, Nat.zero_add, Nat.div_add_mod']
  have hvalue : CodePoint.ofNat n = .char (Char.ofNat n) := dif_neg (by omega)
  have hdrop : (Text.ofChars ['0', '0', (n / 16).digitChar, (n % 16).digitChar] ++ rest).drop 4 = rest :=
    rfl
  unfold unicodeEscape
  rw [hquad, hdrop, if_neg hrest]
  dsimp only
  split
  · rw [if_neg (by omega), hvalue]
  · rw [hvalue]

theorem stringBody_of_shortEscape? {g : CodePoint} {c : Char} (h : shortEscape? g = some c) (rest : Text) :
    stringBody opening (.char '\\' :: g :: rest) =
      (stringBody opening rest).map fun (t, r) => (.char c :: t, r) := by
  rw [stringBody.eq_def]
  split
  next heq => cases heq
  next heq => cases heq
  next heq => cases heq
  next heq =>
    cases heq
    cases h
  next heq =>
    cases heq
    rw [h]
  next hother heq =>
    injection heq with hhead htail
    exact (hother g rest hhead.symm htail.symm).elim

theorem stringBody_of_unicodeEscape {s rest : Text} {g : CodePoint} (h : unicodeEscape s = .ok (g, rest)) :
    stringBody opening (.char '\\' :: .char 'u' :: s) =
      (stringBody opening rest).map fun (t, r) => (g :: t, r) := by
  rw [stringBody]
  split
  next heq =>
    rw [h] at heq
    cases heq
  next heq =>
    rw [h] at heq
    cases heq
    rfl

theorem stringBody_plain {g : CodePoint} (hquote : g ≠ .char '"') (hslash : g ≠ .char '\\')
    (hlarge : 0x20 ≤ g.value) (rest : Text) : stringBody opening (g :: rest) =
      (stringBody opening rest).map fun (t, r) => (g :: t, r) := by
  rw [stringBody.eq_def]
  split
  next heq => cases heq
  next heq => exact absurd (List.cons.inj heq).1 hquote
  next heq => exact absurd (List.cons.inj heq).1 hslash
  next heq => exact absurd (List.cons.inj heq).1 hslash
  next heq => exact absurd (List.cons.inj heq).1 hslash
  next heq =>
    cases heq
    rw [if_neg (Nat.not_lt.mpr hlarge)]

/-- The escapes of one letter stand for what they escape. -/
theorem shortEscape?_of_mem : ∀ p ∈ shortEscapes, shortEscape? (.char p.2) = some p.1 := by
  decide

/-- An escaped code point is read back. -/
theorem stringBody_escape (g : CodePoint) {rest : Text} (hrest : rest ≠ []) :
    stringBody opening (escape g ++ rest) =
      (stringBody opening rest).map fun (t, r) => (g :: t, r) := by
  cases g with
  | surrogate i =>
    have hlarge : 0x20 ≤ (CodePoint.surrogate i).value := by
      rw [CodePoint.value]
      omega
    exact stringBody_plain opening CodePoint.noConfusion CodePoint.noConfusion hlarge rest
  | char c =>
    unfold escape
    dsimp only
    split
    next e he =>
      obtain ⟨before, after, hmem, -⟩ := List.lookup_eq_some_iff.mp he
      have hread := shortEscape?_of_mem (c, e) (by rw [hmem]; simp)
      exact stringBody_of_shortEscape? opening hread rest
    next hplain =>
      split
      next hcontrol =>
        have hread := unicodeEscape_control hcontrol hrest
        rw [← controlDigits c.toNat hcontrol, Char.ofNat_toNat] at hread
        have hpad : Text.ofChars (if c.toNat < 0x10 then ['0'] else []) =
            if c.toNat < 0x10 then [.char '0'] else [] := by
          split <;> rfl
        rw [← hpad, List.append_assoc (Text.ofString _), ← Text.ofChars_append, List.append_assoc]
        exact stringBody_of_unicodeEscape opening hread
      next hlarge =>
        refine stringBody_plain opening (g := .char c) ?_ ?_ (Nat.not_lt.mp hlarge) rest
        · rintro ⟨⟩
          exact absurd hplain (by decide)
        · rintro ⟨⟩
          exact absurd hplain (by decide)

/-- A string literal is read back. -/
theorem stringBody_quoted (s rest : Text) :
    stringBody opening (s.flatMap escape ++ .char '"' :: rest) = .ok (s, rest) := by
  induction s with
  | nil => rw [List.flatMap_nil, List.nil_append, stringBody]
  | cons g s ih =>
    rw [List.flatMap_cons, List.append_assoc, stringBody_escape opening g (by simp), ih]
    rfl

end DeltaPreview.Json
