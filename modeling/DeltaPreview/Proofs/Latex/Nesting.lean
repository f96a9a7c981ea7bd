import DeltaPreview.Proofs.Latex.Elements
import DeltaPreview.Proofs.Latex.Grammar
import DeltaPreview.Proofs.Result

/-!
# Brackets of formulas

Three kinds of tokens come in pairs: braces, the left and the right of delimiters, and the two ends of
an environment.  A formula that is accepted is balanced: every bracket is closed by its partner, and
brackets of different kinds do not cross (`balanced_of_typeset`).

Closing tokens are taken at several places, under different stops.  By induction on the grammar, every
phrase takes balanced tokens only (`takes_balanced`); the first token of an element and the end of an
environment are the only ones that a phrase takes without their partners.
-/

namespace DeltaPreview.Latex

/-! ### Balanced tokens -/

/-- The token that closes what a token opens. -/
def Token.closing? : Token → Option Token
  | .openBrace => some .closeBrace
  | .beginning environment => some (.ending environment)
  | .word name => if name = "left" then some (.word "right") else none
  | _ => none

/-- A token that closes something. -/
def Token.isClosing : Token → Bool
  | .closeBrace => true
  | .ending _ => true
  | .word name => name == "right"
  | _ => false

/-- A token that neither opens nor closes anything. -/
def Token.isPlain (t : Token) : Bool := t.closing?.isNone && !t.isClosing

/-- Tokens in which every opening token is closed by its partner, with balanced tokens between them,
and no other token closes anything. -/
inductive Balanced : List Token → Prop
  | nil : Balanced []
  | plain {t : Token} {ts : List Token} : t.isPlain = true → Balanced ts → Balanced (t :: ts)
  | pair {l r : Token} {inner ts : List Token} : l.closing? = some r → Balanced inner →
      Balanced ts → Balanced (l :: (inner ++ r :: ts))

theorem isClosing_of_closing? {l r : Token} (h : l.closing? = some r) : r.isClosing = true := by
  unfold Token.closing? at h
  split at h
  · cases h
    rfl
  · cases h
    rfl
  · split at h
    · cases h
      decide
    · cases h
  · cases h

namespace Balanced

theorem append {us ts : List Token} (hus : Balanced us) (hts : Balanced ts) :
    Balanced (us ++ ts) := by
  induction hus with
  | nil => exact hts
  | plain ht _ ih => exact .plain ht ih
  | pair hpair hinner _ _ ih =>
    rw [List.cons_append, List.append_assoc, List.cons_append]
    exact .pair hpair hinner ih

theorem single {t : Token} (ht : t.isPlain = true) : Balanced [t] := .plain ht .nil

/-- Balanced tokens between two partners. -/
theorem enclosed {l r : Token} {inner : List Token} (hpair : l.closing? = some r)
    (hinner : Balanced inner) : Balanced (l :: (inner ++ [r])) := .pair hpair hinner .nil

end Balanced

/-! ### What brackets mean -/

namespace Meaning

/-- The meanings of brackets. -/
def isBracket : Meaning → Bool
  | group => true
  | leftDelimiter => true
  | environment _ => true
  | strayBrace => true
  | strayEnd => true
  | _ => false

theorem mem_of_first {candidates : List (Option Meaning)} {m : Meaning}
    (h : first candidates = m) (hm : m ≠ undefined) : some m ∈ candidates := by
  unfold first at h
  cases hfind : candidates.findSome? id with
  | none =>
    rw [hfind] at h
    exact absurd h.symm hm
  | some found =>
    rw [hfind] at h
    obtain ⟨c, hc, hfound⟩ := List.exists_of_findSome?_eq_some hfind
    have hfound : c = some found := hfound
    have hsame : found = m := h
    rw [← hsame, ← hfound]
    exact hc

theorem when_eq_some {condition : Bool} {m n : Meaning} :
    when condition n = some m ↔ condition = true ∧ n = m := by
  cases condition <;> simp [when]

section Cases

variable {P : Meaning → Prop}

/-- What holds of everything that the tables say of words holds of the meaning of a word. -/
theorem ofWord_cases {name : String} (hundefined : P undefined)
    (hleaf : ∀ kind text role, P (leaf kind text role none))
    (hspace : ∀ w, spaceWords.lookup name = some w → P (space w))
    (haccent : ∀ c, accents.lookup name = some c → P (accent c)) (hfont : ∀ v, P (font v))
    (hleft : name = "left" → P leftDelimiter)
    (hother : ∀ m ∈ [fraction, binomial, radical, bigDelimiter, namelessEnvironment, strayEnd], P m) :
    P (ofWord name) := by
  obtain ⟨m, hm⟩ : ∃ m, ofWord name = m := ⟨_, rfl⟩
  rw [hm]
  by_cases hdefined : m = undefined
  · rw [hdefined]
    exact hundefined
  have hmem := mem_of_first hm hdefined
  -- One case for every entry of the list of candidates.
  simp only [List.mem_cons, List.not_mem_nil, or_false, eq_comm (a := some m),
    Option.map_eq_some_iff, when_eq_some] at hmem
  rcases hmem with ⟨c, -, rfl⟩ | ⟨c, -, rfl⟩ | ⟨c, -, rfl⟩ | ⟨w, hw, rfl⟩ | ⟨-, rfl⟩ | ⟨c, -, rfl⟩ |
    ⟨-, rfl⟩ | ⟨-, rfl⟩ | ⟨-, rfl⟩ | ⟨c, hc, rfl⟩ | ⟨v, -, rfl⟩ | ⟨-, rfl⟩ | ⟨hname, rfl⟩ | ⟨-, rfl⟩ |
    ⟨-, rfl⟩
  · exact hleaf ..
  · exact hleaf ..
  · exact hleaf ..
  · exact hspace w hw
  · exact hleaf ..
  · exact hleaf ..
  · exact hother _ (by simp)
  · exact hother _ (by simp)
  · exact hother _ (by simp)
  · exact haccent c hc
  · exact hfont v
  · exact hother _ (by simp)
  · exact hleft (by simpa using hname)
  · exact hother _ (by simp)
  · exact hother _ (by simp)

theorem ofEscape_cases {g : CodePoint} (hnewline : P newline) (hundefined : P undefined)
    (hleaf : ∀ kind text role, P (leaf kind text role none))
    (hspace : ∀ c w, spaceEscapes.lookup c = some w → P (space w)) : P (ofEscape g) := by
  unfold ofEscape
  split
  · exact hnewline
  · rename_i c _
    unfold first
    cases symbolEscapes.lookup c with
    | some _ => exact hleaf ..
    | none =>
      cases hw : spaceEscapes.lookup c with
      | some w => exact hspace c w hw
      | none => exact hundefined
  · exact hundefined

theorem ofGlyph_cases {g : CodePoint} (hgroup : P group) (hbrace : P strayBrace)
    (hseparator : P straySeparator) (hspace : P (space tildeWidth))
    (hleaf : ∀ kind text role, P (leaf kind text role none)) : P (ofGlyph g) := by
  unfold ofGlyph
  split
  · exact hgroup
  · exact hbrace
  · exact hseparator
  · exact hspace
  · split
    · exact hleaf ..
    · split
      · exact hleaf ..
      · split <;> exact hleaf ..

end Cases

/-- A word that is a bracket is the left of some delimiters, or it ends something. -/
theorem ofWord_isBracket {name : String} (h : (ofWord name).isBracket = true) :
    (ofWord name = leftDelimiter ∧ name = "left") ∨ ofWord name = strayEnd := by
  have hcases : (ofWord name).isBracket = false ∨ (ofWord name = leftDelimiter ∧ name = "left") ∨
      ofWord name = strayEnd :=
    ofWord_cases (P := fun m => m.isBracket = false ∨ (m = leftDelimiter ∧ name = "left") ∨
      m = strayEnd) (.inl rfl) (fun _ _ _ => .inl rfl) (fun _ _ => .inl rfl) (fun _ _ => .inl rfl)
      (fun _ => .inl rfl) (fun hname => .inr (.inl ⟨rfl, hname⟩)) (by simp [isBracket])
  simpa [h] using hcases

/-- A backslash and a code point are no bracket. -/
theorem ofEscape_isBracket (g : CodePoint) : (ofEscape g).isBracket = false :=
  ofEscape_cases (P := fun m => m.isBracket = false) rfl rfl (fun _ _ _ => rfl) fun _ _ _ => rfl

/-- A code point that is a bracket begins a group or is a brace that was not opened. -/
theorem ofGlyph_isBracket {g : CodePoint} (h : (ofGlyph g).isBracket = true) :
    (ofGlyph g = group ∧ g = .char '\x7b') ∨ ofGlyph g = strayBrace := by
  unfold ofGlyph at h
  split at h
  · exact .inl ⟨rfl, rfl⟩
  · exact .inr rfl
  · cases h
  · cases h
  · split at h
    · cases h
    · split at h
      · cases h
      · split at h <;> cases h

end Meaning

namespace Token

open Meaning

/-- A token whose meaning is no bracket is none. -/
theorem isPlain_of_meaning {t : Token} (h : t.meaning.isBracket = false) : t.isPlain = true := by
  cases t with
  | word name =>
    have hleft : name ≠ "left" := by
      rintro rfl
      exact absurd h (by decide)
    have hright : name ≠ "right" := by
      rintro rfl
      exact absurd h (by decide)
    simp [isPlain, closing?, isClosing, hleft, hright]
  | symbol g => rfl
  | backslash => rfl
  | text command gap body => rfl
  | beginning environment => cases h
  | ending environment => cases h
  | number digits => rfl
  | glyph g =>
    have hopen : g ≠ .char '\x7b' := by
      rintro rfl
      cases h
    have hclose : g ≠ .char '\x7d' := by
      rintro rfl
      cases h
    simp [isPlain, closing?, isClosing, hopen, hclose]

/-- The brackets that may stand where an element is expected; all others are astray there. -/
theorem bracket_cases {t : Token} (h : t.meaning.isBracket = true) :
    (t.meaning = .group ∧ t = .openBrace) ∨ (t.meaning = .leftDelimiter ∧ t = .word "left") ∨
      (∃ e, t.meaning = .environment e ∧ t = .beginning e) ∨ t.meaning = .strayBrace ∨
      t.meaning = .strayEnd := by
  cases t with
  | word name =>
    rcases ofWord_isBracket h with ⟨hleft, rfl⟩ | hend
    · exact .inr (.inl ⟨hleft, rfl⟩)
    · exact .inr (.inr (.inr (.inr hend)))
  | symbol g => exact absurd h (by simp [meaning, ofEscape_isBracket])
  | backslash => cases h
  | text command gap body =>
    change (ofTextCommand command body).isBracket = true at h
    unfold ofTextCommand at h
    split at h <;> cases h
  | beginning e => exact .inr (.inr (.inl ⟨e, rfl, rfl⟩))
  | ending e => exact .inr (.inr (.inr (.inr rfl)))
  | number digits => cases h
  | glyph g =>
    rcases ofGlyph_isBracket h with ⟨hgroup, rfl⟩ | hstray
    · exact .inl ⟨hgroup, rfl⟩
    · exact .inr (.inr (.inr (.inl hstray)))

theorem eq_openBrace {t : Token} (h : t.meaning = .group) : t = .openBrace := by
  have hcases := bracket_cases (t := t) (by rw [h]; rfl)
  simpa [h] using hcases

theorem eq_left {t : Token} (h : t.meaning = .leftDelimiter) : t = .word "left" := by
  have hcases := bracket_cases (t := t) (by rw [h]; rfl)
  simpa [h] using hcases

theorem eq_beginning {t : Token} {name : String} (h : t.meaning = .environment name) :
    t = .beginning name := by
  have hcases := bracket_cases (t := t) (by rw [h]; rfl)
  simpa [h] using hcases

/-- Delimiters are no brackets: those in braces are written with a backslash. -/
theorem isPlain_of_delimiter? {t : Token} {text : List Char} (h : t.delimiter? = some text) :
    t.isPlain = true := by
  cases t with
  | word name =>
    have hnone : (word "left").delimiter? = none ∧ (word "right").delimiter? = none := by
      decide
    have hleft : name ≠ "left" := by
      rintro rfl
      rw [hnone.1] at h
      cases h
    have hright : name ≠ "right" := by
      rintro rfl
      rw [hnone.2] at h
      cases h
    simp [isPlain, closing?, isClosing, hleft, hright]
  | glyph g =>
    have hopen : g ≠ .char '\x7b' := by
      rintro rfl
      cases h
    have hclose : g ≠ .char '\x7d' := by
      rintro rfl
      cases h
    simp [isPlain, closing?, isClosing, hopen, hclose]
  | beginning e => cases h
  | ending e => cases h
  | _ => rfl

theorem eq_of_isScript {t : Token} (h : t.isScript = true) : t = .superscript ∨ t = .subscript := by
  unfold isScript at h
  split at h
  · exact .inl rfl
  · exact .inr rfl
  · cases h

theorem isScript_of_endsArgument {t : Token} (h : t.endsArgument = false) : t.isScript = false := by
  refine Bool.eq_false_iff.mpr fun hscript => ?_
  rcases eq_of_isScript hscript with rfl | rfl <;> cases h

theorem isPlain_of_isScript {t : Token} (h : t.isScript = true) : t.isPlain = true := by
  rcases eq_of_isScript h with rfl | rfl <;> rfl

end Token

/-! ### What phrases take -/

/-- The tokens of a phrase are balanced, together with what stands before them: the first token of an
element, or the beginning of an environment. -/
def Phrase.Nests : Phrase → List Token → Prop
  | element t _, used => Balanced (t :: used)
  | rows environment _, used =>
    ∃ inner, used = inner ++ [.ending environment] ∧ Balanced inner
  | _, used => Balanced used

theorem takes_balanced {p : Phrase} {ts rest : List Token} (h : p.Takes ts rest) :
    ∃ used, ts = used ++ rest ∧ p.Nests used := by
  induction h with
  | sequenceEnd | sequenceStop | scriptsEnd | optionNone | columnsNone =>
    exact ⟨[], rfl, .nil⟩
  | @sequenceScripts _ t _ _ _ _ _ _ _ _ hscript _ _ _ iha ihs ihm =>
    obtain ⟨us, rfl, hus⟩ := iha
    obtain ⟨vs, rfl, hvs⟩ := ihs
    obtain ⟨ws, rfl, hws⟩ := ihm
    have hplain := Token.isPlain_of_isScript hscript
    exact ⟨t :: (us ++ vs ++ ws), by simp, .plain hplain ((hus.append hvs).append hws)⟩
  | @sequenceElement _ t _ _ _ _ _ _ _ _ _ _ _ _ ihb ihs ihm =>
    obtain ⟨us, rfl, hus⟩ := ihb
    obtain ⟨vs, rfl, hvs⟩ := ihs
    obtain ⟨ws, rfl, hws⟩ := ihm
    exact ⟨t :: us ++ vs ++ ws, by simp, (hus.append hvs).append hws⟩
  | @scriptsMore _ _ t _ _ _ _ hscript _ _ _ iha ihm =>
    obtain ⟨us, rfl, hus⟩ := iha
    obtain ⟨vs, rfl, hvs⟩ := ihm
    have hplain := Token.isPlain_of_isScript hscript
    exact ⟨t :: (us ++ vs), by simp, .plain hplain (hus.append hvs)⟩
  | argumentGroup _ ih =>
    obtain ⟨us, rfl, hus⟩ := ih
    exact ⟨.openBrace :: (us ++ [.closeBrace]), by simp, .enclosed rfl hus⟩
  | @argumentElement _ t _ _ _ _ _ ih =>
    obtain ⟨us, rfl, hus⟩ := ih
    exact ⟨t :: us, rfl, hus⟩
  | optionSome _ ih =>
    -- Brackets that enclose an option are no brackets of the three kinds.
    obtain ⟨us, rfl, hus⟩ := ih
    exact ⟨.openBracket :: (us ++ [.closeBracket]), by simp,
      .plain rfl (hus.append (.single rfl))⟩
  | @rowsEnd environment _ _ _ _ ih =>
    obtain ⟨us, rfl, hus⟩ := ih
    exact ⟨us ++ [.ending environment], by simp, us, rfl, hus⟩
  | @rowsCell environment _ _ _ _ _ _ _ ihc ihm =>
    obtain ⟨us, rfl, hus⟩ := ihc
    obtain ⟨-, rfl, inner, rfl, hinner⟩ := ihm
    exact ⟨us ++ .separator :: inner ++ [.ending environment], by simp, us ++ .separator :: inner,
      rfl, hus.append (.plain rfl hinner)⟩
  | @rowsRow environment _ _ _ _ _ _ _ ihc ihm =>
    obtain ⟨us, rfl, hus⟩ := ihc
    obtain ⟨-, rfl, inner, rfl, hinner⟩ := ihm
    exact ⟨us ++ .newRow :: inner ++ [.ending environment], by simp, us ++ .newRow :: inner,
      rfl, hus.append (.plain rfl hinner)⟩
  | leaf hmeaning | space hmeaning | newline hmeaning =>
    exact ⟨[], rfl, .single (Token.isPlain_of_meaning (by rw [hmeaning]; rfl))⟩
  | group hmeaning _ ih =>
    obtain ⟨us, rfl, hus⟩ := ih
    obtain rfl := Token.eq_openBrace hmeaning
    exact ⟨us ++ [.closeBrace], by simp, .enclosed rfl hus⟩
  | fraction hmeaning _ _ ih ih' | binomial hmeaning _ _ ih ih' | radical hmeaning _ _ ih ih' =>
    obtain ⟨us, rfl, hus⟩ := ih
    obtain ⟨vs, rfl, hvs⟩ := ih'
    have hplain := Token.isPlain_of_meaning (by rw [hmeaning]; rfl)
    exact ⟨us ++ vs, by simp, .plain hplain (hus.append hvs)⟩
  | accent hmeaning _ ih | font hmeaning _ ih =>
    obtain ⟨us, rfl, hus⟩ := ih
    have hplain := Token.isPlain_of_meaning (by rw [hmeaning]; rfl)
    exact ⟨us, rfl, .plain hplain hus⟩
  | @bigDelimiter t d _ _ hmeaning hdelimiter =>
    have hplain := Token.isPlain_of_meaning (by rw [hmeaning]; rfl)
    exact ⟨[d], rfl, .plain hplain (.single (Token.isPlain_of_delimiter? hdelimiter))⟩
  | @delimiters t l r _ _ _ _ _ hmeaning hleft _ hright ih =>
    obtain ⟨us, rfl, hus⟩ := ih
    obtain rfl := Token.eq_left hmeaning
    have hinner : Balanced (l :: us) := .plain (Token.isPlain_of_delimiter? hleft) hus
    have hafter : Balanced [r] := .single (Token.isPlain_of_delimiter? hright)
    exact ⟨l :: us ++ .word "right" :: [r], by simp, .pair rfl hinner hafter⟩
  | @environment _ name _ _ _ _ _ hmeaning _ _ _ ihc ihr =>
    obtain ⟨us, rfl, hus⟩ := ihc
    obtain ⟨-, rfl, inner, rfl, hinner⟩ := ihr
    obtain rfl := Token.eq_beginning hmeaning
    have hpair : (Token.beginning name).closing? = some (.ending name) := rfl
    have henclosed := Balanced.enclosed hpair (hus.append hinner)
    exact ⟨us ++ inner ++ [Token.ending name], by simp, henclosed⟩
  | columnsSome _ ih =>
    obtain ⟨us, rfl, hus⟩ := ih
    exact ⟨.openBrace :: (us ++ [.closeBrace]), by simp, .enclosed rfl hus⟩

/-! ### Formulas -/

theorem takes_of_parse {ts : List Token} {ms : List Math} (h : parse ts = .ok ms) :
    (Phrase.sequence stopNever ms).Takes ts [] := by
  unfold parse parseAs at h
  split at h
  · cases h
  · rename_i hsequence
    cases h
    exact Phrase.takes_iff.mpr ⟨_, hsequence⟩
  · cases h

/-- The tokens of a formula that is accepted are balanced. -/
theorem balanced_of_parse {ts : List Token} {ms : List Math} (h : parse ts = .ok ms) :
    Balanced ts := by
  obtain ⟨used, hts, hused⟩ := takes_balanced (takes_of_parse h)
  rw [hts, List.append_nil]
  exact hused

theorem parse_of_typeset {source markup : Text} {layout : Layout}
    (h : typeset source layout = .ok markup) : ∃ ms, parse (tokenize source.trim) = .ok ms := by
  rw [typeset, tree_eq] at h
  cases hparse : parse (tokenize source.trim) with
  | error fault =>
    rw [hparse] at h
    cases h
  | ok ms => exact ⟨ms, rfl⟩

/-- A formula source that is set has balanced tokens: braces, the left and the right of delimiters,
and environments of one name, none crossing another. -/
theorem balanced_of_typeset (source : Text) (layout : Layout) (markup : Text)
    (h : typeset source layout = .ok markup) : Balanced (tokenize source.trim) := by
  obtain ⟨ms, hms⟩ := parse_of_typeset h
  exact balanced_of_parse hms

/-- A pair of delimiters within an environment. -/
theorem balanced_of_typeset_sample :
    let source := Text.ofString "\\begin\x7bcases\x7d \\left( x \\right] \\end\x7bcases\x7d"
    ∃ markup, typeset source .inline = .ok markup ∧ Balanced (tokenize source.trim) := by
  intro source
  have hset : (typeset source .inline).toBool = true := by decide +kernel
  cases h : typeset source .inline with
  | error fault => simp [h, Except.toBool] at hset
  | ok markup => exact ⟨markup, rfl, balanced_of_typeset source .inline markup h⟩

end DeltaPreview.Latex
