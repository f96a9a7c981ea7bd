/-!
# Text as a list of code points

Documents reach the library as JSON, whose escapes can name one half of a surrogate pair on its
own.  No `Char` is such a half, so a text is a list of code points: characters, and surrogates that
stand alone.  Only the inner layers see the latter; markup is made of characters.
-/

namespace DeltaPreview

/-- A code point: a character, or the surrogate `U+D800 + offset` standing alone. -/
inductive CodePoint where
  | char (c : Char)
  | surrogate (offset : Fin 2048)
  deriving DecidableEq, Repr, Inhabited

/-- A text is the list of its code points. -/
abbrev Text := List CodePoint

namespace CodePoint

/-- The number of a code point. -/
def value : CodePoint → Nat
  | .char c => c.toNat
  | .surrogate i => 0xD800 + i.val

/-- The code point of a number.  Numbers above `U+10FFFF` do not occur; they would give `NUL`. -/
def ofNat (n : Nat) : CodePoint :=
  if h : 0xD800 ≤ n ∧ n < 0xE000 then .surrogate ⟨n - 0xD800, by omega⟩ else .char (Char.ofNat n)

/-- The character, unless the code point is a lone surrogate. -/
def toChar? : CodePoint → Option Char
  | .char c => some c
  | .surrogate _ => none

@[simp] theorem toChar?_char (c : Char) : (CodePoint.char c).toChar? = some c := rfl

@[simp] theorem toChar?_surrogate (i : Fin 2048) : (CodePoint.surrogate i).toChar? = none := rfl

@[simp] theorem value_char (c : Char) : (CodePoint.char c).value = c.toNat := rfl

end CodePoint

namespace Text

/-- The text of a list of characters. -/
def ofChars (cs : List Char) : Text := cs.map .char

/-- The text of a string. -/
def ofString (s : String) : Text := ofChars s.toList

instance : Coe String Text := ⟨ofString⟩

/-- The characters of a text; lone surrogates are left out. -/
def chars (t : Text) : List Char := t.filterMap CodePoint.toChar?

/-- The text as a string; lone surrogates are left out. -/
def toString (t : Text) : String := String.ofList t.chars

/-- Whether no surrogate stands alone in a text. -/
def isPaired (t : Text) : Bool := t.all fun g => g.toChar?.isSome

/-- The text after a word that begins it, if one does. -/
def afterWord? (word : String) (s : Text) : Option Text :=
  if (ofString word).isPrefixOf s then some (s.drop word.toList.length) else none

/-- A number in decimal digits. -/
def ofNat (n : Nat) : Text := ofChars (Nat.toDigits 10 n)

@[simp] theorem ofChars_nil : ofChars [] = [] := rfl

@[simp] theorem ofChars_cons (c : Char) (cs : List Char) :
    ofChars (c :: cs) = .char c :: ofChars cs := rfl

@[simp] theorem ofChars_append (a b : List Char) : ofChars (a ++ b) = ofChars a ++ ofChars b := by
  simp [ofChars]

@[simp] theorem chars_nil : chars [] = [] := rfl

@[simp] theorem chars_append (a b : Text) : chars (a ++ b) = chars a ++ chars b := by
  simp [chars]

@[simp] theorem chars_ofChars (cs : List Char) : chars (ofChars cs) = cs := by
  induction cs with
  | nil => rfl
  | cons c cs ih => simpa [chars, ofChars] using ih

theorem isPaired_iff {t : Text} : t.isPaired = true ↔ ∀ g ∈ t, ∃ c, g = .char c := by
  rw [isPaired, List.all_eq_true]
  constructor
  · intro h g hg
    cases g with
    | char c => exact ⟨c, rfl⟩
    | surrogate i => cases h _ hg
  · intro h g hg
    obtain ⟨c, rfl⟩ := h g hg
    rfl

theorem isPaired_append {s t : Text} :
    (s ++ t).isPaired = true ↔ s.isPaired = true ∧ t.isPaired = true := by
  rw [isPaired, List.all_append, Bool.and_eq_true]
  rfl

theorem isPaired_ofChars (cs : List Char) : (ofChars cs).isPaired = true := by
  refine isPaired_iff.mpr fun g hg => ?_
  obtain ⟨c, -, rfl⟩ := List.mem_map.mp hg
  exact ⟨c, rfl⟩

/-- A text in which no surrogate stands alone is the text of its characters. -/
theorem ofChars_chars {t : Text} (h : t.isPaired = true) : ofChars t.chars = t := by
  induction t with
  | nil => rfl
  | cons g t ih =>
    obtain ⟨⟨c, rfl⟩, ht⟩ := List.forall_mem_cons.mp (isPaired_iff.mp h)
    exact congrArg (.char c :: ·) (ih (isPaired_iff.mpr ht))

@[simp] theorem length_ofChars (cs : List Char) : (ofChars cs).length = cs.length := by
  simp [ofChars]

theorem afterWord?_eq_some_iff {word : String} {s rest : Text} :
    afterWord? word s = some rest ↔ s = ofString word ++ rest := by
  have hdrop (after : Text) : (ofString word ++ after).drop word.toList.length = after :=
    List.drop_left' (length_ofChars _)
  unfold afterWord?
  constructor
  · intro h
    split at h
    · rename_i hprefix
      obtain ⟨after, rfl⟩ := List.isPrefixOf_iff_prefix.mp hprefix
      rw [hdrop] at h
      rw [Option.some.inj h]
    · cases h
  · rintro rfl
    rw [if_pos (List.isPrefixOf_iff_prefix.mpr (List.prefix_append _ _)), hdrop]

theorem afterWord?_length {word : String} {s rest : Text} (h : afterWord? word s = some rest) :
    rest.length + word.toList.length = s.length := by
  rw [afterWord?_eq_some_iff.mp h, List.length_append, ofString, length_ofChars, Nat.add_comm]

@[simp] theorem ofString_inj {s t : String} : ofString s = ofString t ↔ s = t := by
  constructor
  · intro h
    have hchars : (ofString s).chars = (ofString t).chars := congrArg chars h
    rw [ofString, ofString, chars_ofChars, chars_ofChars] at hchars
    exact String.ext hchars
  · exact congrArg ofString

end Text

end DeltaPreview
