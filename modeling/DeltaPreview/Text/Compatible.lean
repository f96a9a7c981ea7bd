import DeltaPreview.Text.Basic

/-!
# Characters that markup can hold

Control characters other than tab and the line ends, surrogates, and the two non-characters at the
end of the basic plane have no place in a markup tree.  A text is either cleared of them
(`Text.compatible`) or refused because of them (`Text.toMarkup`).
-/

namespace DeltaPreview

/-- A character that markup can hold. -/
def compatibleChar (c : Char) : Bool :=
  !(c.toNat < 0x9 || c.toNat == 0xB || c.toNat == 0xC ||
    (0xE ≤ c.toNat && c.toNat < 0x20) || c.toNat == 0xFFFE || c.toNat == 0xFFFF)

/-- The character of a number has that number. -/
theorem toNat_charOfNat {n : Nat} (h : n.isValidChar) : (Char.ofNat n).toNat = n := by
  rw [Char.ofNat, dif_pos h]
  rfl

/-- The characters of words are printable characters of ASCII. -/
theorem toNat_word {c : Char} (h : (c.isAlphanum || c == '-') = true) :
    0x20 < c.toNat ∧ c.toNat < 0x7F := by
  delta Char.isAlphanum Char.isAlpha Char.isUpper Char.isLower Char.isDigit at h
  simp only [Bool.or_eq_true, Bool.and_eq_true, decide_eq_true_eq, beq_iff_eq, ge_iff_le,
    UInt32.le_iff_toNat_le] at h
  have htoNat : c.toNat = c.val.toNat := rfl
  rcases h with ((⟨hlow, hhigh⟩ | ⟨hlow, hhigh⟩) | ⟨hlow, hhigh⟩) | rfl
  · simp at hlow hhigh
    omega
  · simp at hlow hhigh
    omega
  · simp at hlow hhigh
    omega
  · decide

namespace Text

/-- The characters of a text that markup can hold; the others are dropped. -/
def compatible (t : Text) : List Char := t.chars.filter compatibleChar

/-- Why a text cannot be put into a markup tree. -/
inductive Refusal where
  /-- The text from its first surrogate on, and how much stands before it. -/
  | surrogates (before : Nat) (run : List (Fin 2048))
  /-- A control character or a non-character. -/
  | incompatible
  deriving DecidableEq, Repr

/-- The surrogates at the beginning of a text. -/
def leadingSurrogates : Text → List (Fin 2048)
  | .surrogate i :: rest => i :: leadingSurrogates rest
  | _ => []

/-- The first run of surrogates of a text and the length of what precedes it. -/
def firstSurrogates : Text → Option (Nat × List (Fin 2048))
  | [] => none
  | .char _ :: rest => (firstSurrogates rest).map fun (n, run) => (n + 1, run)
  | .surrogate i :: rest => some (0, i :: leadingSurrogates rest)

/-- The characters of a text, all of which must be fit for markup. -/
def toMarkup (t : Text) : Except Refusal (List Char) :=
  match firstSurrogates t with
  | some (n, run) => .error (.surrogates n run)
  | none => if t.chars.all compatibleChar then .ok t.chars else .error .incompatible

theorem firstSurrogates_ofChars (cs : List Char) : firstSurrogates (ofChars cs) = none := by
  induction cs with
  | nil => rfl
  | cons c cs ih => simp [firstSurrogates, ih]

theorem toMarkup_ofChars {cs : List Char} (h : cs.all compatibleChar = true) :
    toMarkup (ofChars cs) = .ok cs := by
  simp [toMarkup, firstSurrogates_ofChars, h]

/-- A code point of a surrogate in four hexadecimal digits. -/
private def surrogateDigits (i : Fin 2048) : List Char := Nat.toDigits 16 (0xD800 + i.val)

namespace Refusal

/-- What is reported of a refused text. -/
def message : Refusal → Text
  | .surrogates n [i] =>
    ofString "'utf-8' codec can't encode character '\\u" ++ ofChars (surrogateDigits i) ++
      ofString "' in position " ++ Text.ofNat n ++ ofString ": surrogates not allowed"
  | .surrogates n run =>
    ofString "'utf-8' codec can't encode characters in position " ++ Text.ofNat n ++
      ofString "-" ++ Text.ofNat (n + run.length - 1) ++ ofString ": surrogates not allowed"
  | .incompatible =>
    ofString "All strings must be XML compatible: Unicode or ASCII, no NULL bytes or control characters"

end Refusal

theorem compatible_append (a b : Text) : compatible (a ++ b) = compatible a ++ compatible b := by
  simp [compatible]

@[simp] theorem compatible_nil : compatible [] = [] := rfl

/-- Clearing a text leaves only characters that markup can hold. -/
theorem all_compatible (t : Text) : (compatible t).all compatibleChar := by
  simp [compatible]

end Text

end DeltaPreview
