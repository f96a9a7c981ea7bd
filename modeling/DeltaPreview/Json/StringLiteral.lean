import DeltaPreview.Json.Error

/-!
# String literals

The body of a string literal runs to the closing quote.  Control characters must be escaped.  Two
Unicode escapes that name the halves of a surrogate pair are one character; a half on its own stays
a lone surrogate.
-/

namespace DeltaPreview.Json

/-- The value of a hexadecimal digit. -/
def hexDigit? : CodePoint → Option Nat
  | .surrogate _ => none
  | .char c =>
    if c.isDigit then some (c.toNat - '0'.toNat)
    else if 'a' ≤ c ∧ c ≤ 'f' then some (c.toNat - 'a'.toNat + 10)
    else if 'A' ≤ c ∧ c ≤ 'F' then some (c.toNat - 'A'.toNat + 10)
    else none

/-- The number that the first four code points spell in hexadecimal, and the text after them. -/
def hexQuad? : Text → Option (Nat × Text)
  | a :: b :: c :: d :: rest => do
    let a ← hexDigit? a
    let b ← hexDigit? b
    let c ← hexDigit? c
    let d ← hexDigit? d
    return (((a * 16 + b) * 16 + c) * 16 + d, rest)
  | _ => none

/-- The character that a backslash and a single character stand for. -/
def shortEscape? : CodePoint → Option Char
  | .char '"' => some '"'
  | .char '\\' => some '\\'
  | .char '/' => some '/'
  | .char 'b' => some '\x08'
  | .char 'f' => some '\x0c'
  | .char 'n' => some '\n'
  | .char 'r' => some '\r'
  | .char 't' => some '\t'
  | _ => none

/-- The code point of a Unicode escape and the text after it, given the text after `\u`.  The
escape must not reach the end of the text; a fault is reported at its letter. -/
def unicodeEscape (s : Text) : Except (Fault Text) (CodePoint × Text) :=
  if s.drop 4 = [] then .error (.at .invalidUnicodeEscape (.char 'u' :: s))
  else match hexQuad? s with
    | none => .error (.at .invalidUnicodeEscape (.char 'u' :: s))
    | some (n, rest) =>
      match rest with
      | .char '\\' :: .char 'u' :: more =>
        if 0xD800 ≤ n ∧ n < 0xDC00 ∧ more.drop 4 ≠ [] then
          match hexQuad? more with
          | none => .error (.at .invalidUnicodeEscape (.char 'u' :: more))
          | some (m, rest') =>
            if 0xDC00 ≤ m ∧ m < 0xE000 then
              .ok (CodePoint.ofNat (0x10000 + (n - 0xD800) * 0x400 + (m - 0xDC00)), rest')
            else .ok (CodePoint.ofNat n, rest)
        else .ok (CodePoint.ofNat n, rest)
      | _ => .ok (CodePoint.ofNat n, rest)

theorem hexQuad?_length {s rest : Text} {n : Nat} (h : hexQuad? s = some (n, rest)) :
    s.length = rest.length + 4 := by
  unfold hexQuad? at h
  split at h
  · simp only [Option.bind_eq_bind, Option.bind_eq_some_iff, Option.pure_def, Option.some.injEq,
      Prod.mk.injEq] at h
    obtain ⟨_, _, _, _, _, _, _, _, _, rfl⟩ := h
    simp
  · simp at h

theorem unicodeEscape_length {s rest : Text} {g : CodePoint}
    (h : unicodeEscape s = .ok (g, rest)) : rest.length < s.length := by
  unfold unicodeEscape at h
  split at h
  · simp at h
  · split at h
    · simp at h
    · rename_i n r hq
      have hr := hexQuad?_length hq
      split at h
      · split at h
        · split at h
          · simp at h
          · rename_i m r' hq'
            have hr' := hexQuad?_length hq'
            simp at hr
            split at h <;> simp at h <;> obtain ⟨-, rfl⟩ := h <;> simp <;> omega
        · simp at h
          obtain ⟨-, rfl⟩ := h
          omega
      · simp at h
        obtain ⟨-, rfl⟩ := h
        omega

/-- The contents of a string literal and the text after its closing quote.  `opening` is the text
from the opening quote on, where a missing closing quote is reported. -/
def stringBody (opening : Text) (s : Text) : Except (Fault Text) (Text × Text) :=
  match s with
  | [] => .error (.at .unterminatedString opening)
  | .char '"' :: rest => .ok ([], rest)
  | .char '\\' :: [] => .error (.at .unterminatedString opening)
  | .char '\\' :: .char 'u' :: rest =>
    match h : unicodeEscape rest with
    | .error fault => .error fault
    | .ok (g, after) =>
      have := unicodeEscape_length h
      (stringBody opening after).map fun (t, r) => (g :: t, r)
  | .char '\\' :: g :: rest =>
    match shortEscape? g with
    | none => .error (.at .invalidEscape (.char '\\' :: g :: rest))
    | some c => (stringBody opening rest).map fun (t, r) => (.char c :: t, r)
  | g :: rest =>
    if g.value < 0x20 then .error (.at .controlCharacter (g :: rest))
    else (stringBody opening rest).map fun (t, r) => (g :: t, r)
termination_by s.length
decreasing_by all_goals simp <;> omega

theorem stringBody_length {opening s t rest : Text} (h : stringBody opening s = .ok (t, rest)) :
    rest.length < s.length := by
  fun_induction stringBody opening s generalizing t rest with
  | case1 => simp at h
  | case2 r => simp at h; obtain ⟨-, rfl⟩ := h; simp
  | case3 => simp at h
  | case4 => simp at h
  | case5 r g after hu hlt ih =>
    simp only [Except.map] at h
    split at h <;> simp at h
    rename_i v hv
    obtain ⟨-, rfl⟩ := h
    have := ih hv
    simp; omega
  | case6 => simp at h
  | case7 g r _ c _ ih =>
    simp only [Except.map] at h
    split at h <;> simp at h
    rename_i v hv
    obtain ⟨-, rfl⟩ := h
    have := ih hv
    simp; omega
  | case8 => simp at h
  | case9 g r _ _ _ _ _ ih =>
    simp only [Except.map] at h
    split at h <;> simp at h
    rename_i v hv
    obtain ⟨-, rfl⟩ := h
    have := ih hv
    simp; omega

end DeltaPreview.Json
