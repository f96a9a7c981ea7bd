import DeltaPreview.Proofs.Latex.Grammar
import DeltaPreview.Proofs.Latex.Spelling
import DeltaPreview.Proofs.Result

/-!
# The symbols of expressions

What the tables say of the tokens of expressions: every symbol is read back and stands for its leaf
(`Symbol.standsFor`), and commands, environments and delimiters are found under their names.
-/

namespace DeltaPreview.Latex

/-! ### Where elements begin and end -/

/-- A token that ends what stands in braces, in brackets, in a cell or between delimiters. -/
def Token.isBoundary : Token → Bool
  | .closeBrace => true
  | .closeBracket => true
  | .separator => true
  | .newRow => true
  | .ending _ => true
  | .word name => name == "right"
  | _ => false

/-- A token that may begin an element: it ends nothing and begins no script. -/
def Token.Begins (t : Token) : Prop := t.isBoundary = false ∧ t.isScript = false

theorem Token.begins_word {name : String} (h : name ≠ "right") : (word name).Begins :=
  ⟨by simpa [isBoundary] using h, rfl⟩

theorem Token.isScript_of_isBoundary {t : Token} (h : t.isBoundary = true) :
    t.isScript = false := by
  unfold isBoundary at h
  split at h <;> first | rfl | cases h

/-- A stop at boundaries only. -/
def Bounds (stop : Token → Bool) : Prop := ∀ t, stop t = true → t.isBoundary = true

theorem bounds_stopNever : Bounds stopNever := fun _ h => by cases h

theorem bounds_stopAt {mark : Token} (h : mark.isBoundary = true) : Bounds (stopAt mark) :=
  fun t ht => by rwa [eq_of_beq (show (t == mark) = true from ht)]

theorem bounds_stopAtCell (environment : String) : Bounds (stopAtCell environment) :=
  fun t ht => by
    have hcases : (t = .separator ∨ t = .newRow) ∨ t = .ending environment := by
      simpa [stopAtCell] using ht
    rcases hcases with (rfl | rfl) | rfl <;> rfl

theorem Token.Begins.stop_eq_false {t : Token} (ht : t.Begins) {stop : Token → Bool}
    (hstop : Bounds stop) : stop t = false :=
  Bool.eq_false_iff.mpr fun h => absurd (hstop t h) (by simp [ht.1])

/-- A token that is read back and stands for a leaf. -/
structure Token.StandsFor (t : Token) (l : Leaf) : Prop where
  spellable : t.Spellable
  begins : t.Begins
  meaning : t.meaning = .leaf l.kind (Text.ofChars l.text) l.role l.variant
  compatible : l.text.all compatibleChar = true

namespace Expression

/-! ### Symbols -/

/-- The leaf of a symbol. -/
def Symbol.leaf : Symbol → Leaf
  | letter c _ => ⟨.identifier, [c], .plain, none⟩
  | number value => ⟨.number, value.digits, .plain, none⟩
  | sign _ shown _ => ⟨.operator, [shown], .plain, none⟩
  | greek _ c _ => ⟨.identifier, [c], .plain, none⟩
  | operator _ c _ => ⟨.operator, [c], .plain, none⟩
  | function name _ => ⟨.identifier, name.toList, .plain, none⟩
  | large _ c _ => ⟨.operator, [c], .large, none⟩

/-- Whether a control word is read back. -/
def isControlWord (name : String) : Bool :=
  isWord name && !textCommands.contains name && name != "right"

theorem spellable_of_isControlWord {name : String} (h : isControlWord name = true) :
    (Token.word name).Spellable ∧ (Token.word name).Begins := by
  obtain ⟨⟨hword, htext⟩, hright⟩ : (isWord name = true ∧ name ∉ textCommands) ∧
      name ≠ "right" := by simpa [isControlWord] using h
  exact ⟨.word hword htext, Token.begins_word hright⟩

/-- Whether a control word is read back and stands for a leaf. -/
def isNameOf (l : Leaf) (name : String) : Bool :=
  isControlWord name &&
    decide (Meaning.ofWord name = .leaf l.kind (Text.ofChars l.text) l.role l.variant) &&
    l.text.all compatibleChar

theorem standsFor_of_isNameOf {l : Leaf} {name : String} (h : isNameOf l name = true) :
    (Token.word name).StandsFor l := by
  obtain ⟨⟨hword, hmeaning⟩, hcompatible⟩ : (isControlWord name = true ∧ _) ∧ _ := by
    simpa only [isNameOf, Bool.and_eq_true, decide_eq_true_eq] using h
  obtain ⟨hspellable, hbegins⟩ := spellable_of_isControlWord hword
  exact ⟨hspellable, hbegins, hmeaning, hcompatible⟩

theorem isNameOf_greek :
    ∀ p ∈ greekLetters, isNameOf ⟨.identifier, [p.2], .plain, none⟩ p.1 = true := by
  decide

theorem isNameOf_operator :
    ∀ p ∈ operators, isNameOf ⟨.operator, [p.2], .plain, none⟩ p.1 = true := by
  decide

theorem isNameOf_function :
    ∀ name ∈ functions, isNameOf ⟨.identifier, name.toList, .plain, none⟩ name = true := by
  decide

theorem isNameOf_large :
    ∀ p ∈ largeOperators, isNameOf ⟨.operator, [p.2], .large, none⟩ p.1 = true := by
  decide

theorem sign_spec : ∀ p ∈ signs,
    (isVisible p.1 = true ∧ p.1 ≠ '\\' ∧ p.1.isDigit = false ∧
      (Token.glyph (.char p.1)).isBoundary = false ∧ (Token.glyph (.char p.1)).isScript = false) ∧
    Meaning.ofGlyph (.char p.1) = .leaf .operator [.char p.2] .plain none ∧
    [p.2].all compatibleChar = true := by
  decide +kernel

theorem letter_spec : ∀ n < 128, (Char.ofNat n).isAlpha = true →
    (Char.ofNat n ≠ '\\' ∧ (Char.ofNat n).isDigit = false ∧
      (Token.glyph (.char (Char.ofNat n))).isBoundary = false ∧
      (Token.glyph (.char (Char.ofNat n))).isScript = false) ∧
    Meaning.ofGlyph (.char (Char.ofNat n)) =
      .leaf .identifier [.char (Char.ofNat n)] .plain none := by
  decide +kernel

theorem letter_standsFor {c : Char} (h : c.isAlpha = true) :
    (Token.glyph (.char c)).StandsFor ⟨.identifier, [c], .plain, none⟩ := by
  have hvisible := isVisible_of_isAlpha h
  have hlt : c.toNat < 128 := by
    simp only [isVisible, Bool.and_eq_true, decide_eq_true_eq] at hvisible
    omega
  have hspec := letter_spec c.toNat hlt
  rw [Char.ofNat_toNat] at hspec
  obtain ⟨⟨hslash, hdigit, hbegins⟩, hmeaning⟩ := hspec h
  exact ⟨.glyph hvisible hslash hdigit, hbegins, hmeaning,
    by simpa using compatibleChar_of_isVisible hvisible⟩

theorem number_standsFor (d : Decimal) :
    (Token.number d.digits).StandsFor ⟨.number, d.digits, .plain, none⟩ := by
  refine ⟨.number d, ⟨rfl, rfl⟩, rfl, List.all_eq_true.mpr fun b hb => ?_⟩
  obtain ⟨c, cs, hdigits, hc, hcs⟩ := digits_cons d
  rcases List.mem_cons.mp (hdigits ▸ hb) with rfl | hb
  · exact compatibleChar_of_isVisible (isVisible_of_isDigit hc)
  · rcases hcs b hb with hdigit | rfl
    · exact compatibleChar_of_isVisible (isVisible_of_isDigit hdigit)
    · decide

theorem Symbol.standsFor (s : Symbol) : s.token.StandsFor s.leaf := by
  cases s with
  | letter c h => exact letter_standsFor h
  | number d => exact number_standsFor d
  | sign c shown h =>
    obtain ⟨⟨hvisible, hslash, hdigit, hbegins⟩, hmeaning, hcompatible⟩ := sign_spec (c, shown) h
    exact ⟨.glyph hvisible hslash hdigit, hbegins, hmeaning, hcompatible⟩
  | greek name c h => exact standsFor_of_isNameOf (isNameOf_greek (name, c) h)
  | operator name c h => exact standsFor_of_isNameOf (isNameOf_operator (name, c) h)
  | function name h => exact standsFor_of_isNameOf (isNameOf_function name h)
  | large name c h => exact standsFor_of_isNameOf (isNameOf_large (name, c) h)

theorem takes_symbol (s : Symbol) (ts : List Token) :
    (Phrase.element s.token [.leaf s.leaf]).Takes ts ts := by
  have hleaf : leafOf s.leaf.kind (Text.ofChars s.leaf.text) s.leaf.role s.leaf.variant =
      .ok (Math.leaf s.leaf) := by
    rw [leafOf, Text.toMarkup_ofChars s.standsFor.compatible]
    rfl
  exact .leaf s.standsFor.meaning hleaf

/-! ### Commands and delimiters -/

theorem fraction_spec : ∀ name ∈ fractions, isControlWord name = true ∧
    Meaning.ofWord name = .fraction := by
  decide

theorem accent_spec : ∀ p ∈ accents, isControlWord p.1 = true ∧
    Meaning.ofWord p.1 = .accent p.2 := by
  decide

theorem command_spec : (isControlWord "binom" = true ∧ Meaning.ofWord "binom" = .binomial) ∧
    (isControlWord "sqrt" = true ∧ Meaning.ofWord "sqrt" = .radical) ∧
    (isControlWord "left" = true ∧ Meaning.ofWord "left" = .leftDelimiter) := by
  decide

/-- Environments have names of letters, and each is found under its name. -/
theorem environment_spec : ∀ p ∈ environments, isWord p.1 = true ∧
    environments.lookup p.1 = some p.2 := by
  decide

/-- The characters of delimiters are visible, and their names are words. -/
theorem delimiter_spec :
    (∀ c ∈ '.' :: delimiterGlyphs, isVisible c = true ∧ c ≠ '\\' ∧ c.isDigit = false) ∧
    (∀ p ∈ delimiterEscapes, isVisible p.1 = true ∧ p.1.isAlpha = false) ∧
    (∀ p ∈ delimiterWords, isControlWord p.1 = true) := by
  refine ⟨?_, by decide, by decide⟩
  have hall : ('.' :: delimiterGlyphs).all
      (fun c => isVisible c && c != '\\' && !c.isDigit) = true := by
    decide
  simpa [and_assoc] using hall

theorem Delimiter.spellable (d : Delimiter) : d.token.Spellable := by
  obtain ⟨t, text, h⟩ := d
  obtain ⟨hglyph, hescape, hword⟩ := delimiter_spec
  change t.Spellable
  unfold Token.delimiter? at h
  split at h
  · obtain ⟨hvisible, hslash, hdigit⟩ := hglyph '.' (by simp)
    exact .glyph hvisible hslash hdigit
  · split at h
    · rename_i c _ hmem
      have hmem := List.contains_iff_mem.mp hmem
      obtain ⟨hvisible, hslash, hdigit⟩ := hglyph c (List.mem_cons_of_mem _ hmem)
      exact .glyph hvisible hslash hdigit
    · cases h
  · obtain ⟨shown, hlookup, -⟩ := Option.map_eq_some_iff.mp h
    obtain ⟨hvisible, hletter⟩ := hescape _ (mem_of_lookup hlookup)
    exact .symbol hvisible hletter
  · obtain ⟨shown, hlookup, -⟩ := Option.map_eq_some_iff.mp h
    exact (spellable_of_isControlWord (hword _ (mem_of_lookup hlookup))).1
  · cases h

end Expression

end DeltaPreview.Latex
