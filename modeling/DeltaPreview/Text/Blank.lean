import DeltaPreview.Text.Basic

/-!
# Blank code points

The blanks that trimming removes and that separate the symbols of a formula: the Unicode white
space characters, and the four separators `U+001C` to `U+001F`.
-/

namespace DeltaPreview

namespace CodePoint

/-- The ranges of the blank code points. -/
def blankRanges : List (Nat × Nat) := [
  (0x9, 0xD), (0x1C, 0x20), (0x85, 0x85), (0xA0, 0xA0), (0x1680, 0x1680), (0x2000, 0x200A),
  (0x2028, 0x2029), (0x202F, 0x202F), (0x205F, 0x205F), (0x3000, 0x3000)]

/-- A blank code point. -/
def isBlank (g : CodePoint) : Bool :=
  blankRanges.any fun r => r.1 ≤ g.value && g.value ≤ r.2

@[simp] theorem isBlank_surrogate (i : Fin 2048) : (surrogate i).isBlank = false := by
  have least : 0xD800 ≤ (surrogate i).value := Nat.le_add_right _ _
  have greatest : (surrogate i).value < 0xE000 := by simp only [value]; omega
  simp [isBlank, blankRanges]
  omega

end CodePoint

namespace Text

/-- The text without its leading blanks. -/
def trimLeft (t : Text) : Text := t.dropWhile CodePoint.isBlank

/-- The text without its trailing blanks. -/
def trimRight : Text → Text
  | [] => []
  | g :: rest =>
    match trimRight rest with
    | [] => if g.isBlank then [] else [g]
    | kept => g :: kept

/-- The text without the blanks at its two ends. -/
def trim (t : Text) : Text := trimRight (trimLeft t)

theorem trimRight_eq_self {t : Text} (h : ∀ g ∈ t.getLast?, g.isBlank = false) :
    trimRight t = t := by
  induction t with
  | nil => rfl
  | cons g rest ih =>
    cases rest with
    | nil => simp [trimRight, h g rfl]
    | cons g' rest =>
      rw [trimRight, ih h]

/-- Trimming keeps a text that neither begins nor ends with a blank. -/
theorem trim_eq_self {t : Text} (hhead : ∀ g ∈ t.head?, g.isBlank = false)
    (hlast : ∀ g ∈ t.getLast?, g.isBlank = false) : trim t = t := by
  have hleft : trimLeft t = t := by
    cases t with
    | nil => rfl
    | cons g rest => exact List.dropWhile_cons_of_neg (by simp [hhead g rfl])
  rw [trim, hleft, trimRight_eq_self hlast]

/-- A text of blanks alone, the empty one included. -/
def allBlank (t : Text) : Bool := t.all CodePoint.isBlank

end Text

end DeltaPreview
