import DeltaPreview.Proofs.Latex.Replacement
import DeltaPreview.Proofs.Latex.Trimming

/-!
# Braces around an argument

An argument is a braced group or a single element.  The two are read in different ways: the group as a
sequence that may have scripts and stops at its closing brace, and the element without looking at what
follows.  An element in braces stands for the same as without them, since neither a script nor another
element comes between it and the brace (`Phrase.Takes.braced`), so braces can be written around any argument
of a formula that is a single element (`parse_braced`, and `bodyOf?_braced` for sources).
-/

namespace DeltaPreview.Latex

/-! ### Elements in braces -/

/-- What the parser finds is unique. -/
theorem eq_of_parsed {α : Type} {bound : Nat} {found : Parse α bound} {a b : α} {ts us : List Token}
    (ha : ∃ h, found = .ok ⟨a, ts, h⟩) (hb : ∃ h, found = .ok ⟨b, us, h⟩) : a = b ∧ ts = us := by
  obtain ⟨_, ha⟩ := ha
  obtain ⟨_, hb⟩ := hb
  cases ha.symm.trans hb
  exact ⟨rfl, rfl⟩

namespace Phrase.Takes

variable {t : Token} {ms ns : List Math} {more after rest : List Token}

/-- An element that an argument may begin with stands in braces for what it stands for alone. -/
theorem braced (h : (element t ms).Takes more []) (hend : t.endsArgument = false)
    (after : List Token) :
    (argument ms).Takes (.openBrace :: t :: (more ++ .closeBrace :: after)) after := by
  have hscript := Token.isScript_of_endsArgument hend
  have hstop : stopAt .closeBrace t = false := by
    refine Bool.eq_false_iff.mpr fun hclose => ?_
    rw [eq_of_beq hclose] at hend
    cases hend
  have helement : (element t ms).Takes (more ++ .closeBrace :: after) (.closeBrace :: after) :=
    h.followed (.inl trivial)
  have hscripts : (scripts Scripts.none Scripts.none).Takes (.closeBrace :: after)
      (.closeBrace :: after) := by
    refine .scriptsEnd ?_
    rintro _ ⟨⟩
    rfl
  have hend : (sequence (stopAt .closeBrace) []).Takes (.closeBrace :: after) (.closeBrace :: after) :=
    .sequenceStop rfl
  have hsequence := Takes.sequenceElement hstop hscript helement hscripts hend
  rw [List.append_nil] at hsequence
  exact .argumentGroup hsequence

/-- An argument that is an element ends where the element ends, and so does the element in braces. -/
theorem argument_braced (h : (argument ms).Takes (t :: (more ++ after)) rest)
    (helement : (element t ns).Takes more []) (hopen : t ≠ .openBrace) :
    rest = after ∧ (argument ms).Takes (.openBrace :: t :: (more ++ .closeBrace :: after)) after := by
  cases h with
  | argumentGroup => exact absurd rfl hopen
  | argumentElement hend _ h =>
    have halone : (element t ns).Takes (more ++ after) after := helement.followed (.inl trivial)
    obtain ⟨rfl, rfl⟩ := eq_of_parsed h.accepted halone.accepted
    exact ⟨rfl, helement.braced hend _⟩

end Phrase.Takes

/-! ### Arguments of a single element -/

/-- A token and the tokens after it, if an argument is read then. -/
inductive Token.Awaits : Token → List Token → Prop
  | script {t : Token} (hscript : t.isScript = true) : Awaits t []
  | first {t : Token} (hmeaning : t.meaning.takesArgument = true) : Awaits t []
  /-- The second argument of a fraction or a binomial coefficient. -/
  | second {t : Token} {ms : List Math} {ts : List Token}
      (hmeaning : t.meaning = .fraction ∨ t.meaning = .binomial)
      (hfirst : (Phrase.argument ms).Takes ts []) : Awaits t ts
  /-- What stands under a root with an index. -/
  | radicand {t : Token} {ms : List Math} {ts : List Token} (hmeaning : t.meaning = .radical)
      (hindex : (Phrase.sequence (stopAt .closeBracket) ms).Takes ts [.closeBracket]) :
      Awaits t (.openBracket :: ts)

/-- An argument that is a single element without braces: the token and the tokens before it, and those of
the element.  Brackets right after a root are its index. -/
structure IsBare (t : Token) (inner : List Token) (first : Token) (more : List Token) : Prop where
  awaits : t.Awaits inner
  element : ∃ ms, (Phrase.element first ms).Takes more []
  noBrace : first ≠ .openBrace
  noIndex : t.meaning = .radical → inner = [] → first ≠ .openBracket

theorem Meaning.takesArgument_of_two {m : Meaning} (h : m = fraction ∨ m = binomial) :
    m.takesArgument = true := by
  rcases h with rfl | rfl <;> rfl

theorem Token.Awaits.takesArgument {t : Token} {inner : List Token} (h : t.Awaits inner) :
    t.takesArgument = true := by
  unfold Token.takesArgument
  cases h with
  | script hscript => rw [hscript, Bool.true_or]
  | first hmeaning => rw [hmeaning, Bool.or_true]
  | second hmeaning => rw [Meaning.takesArgument_of_two hmeaning, Bool.or_true]
  | radicand hmeaning => rw [hmeaning]; exact Bool.or_true _

/-- A script token is no command. -/
theorem isScript_of_takesArgument {t : Token} (h : t.meaning.takesArgument = true) :
    t.isScript = false := by
  refine Bool.eq_false_iff.mpr fun hscript => ?_
  obtain ⟨g, rfl⟩ : ∃ g, t = .glyph g := by
    rcases Token.eq_of_isScript hscript with rfl | rfl <;> exact ⟨_, rfl⟩
  rw [Token.meaning, Meaning.takesArgument_ofGlyph] at h
  cases h

/-! ### Braces around an argument of a command -/

namespace Phrase.Takes

variable {t first : Token} {ms ns earlier index : List Math} {ts more after rest : List Token}

/-- Braces can be written around the argument right after a command.  After a root, brackets would not be
this argument. -/
theorem first_braced (h : (element t ms).Takes (first :: (more ++ after)) rest)
    (hmeaning : t.meaning.takesArgument = true) (helement : (element first ns).Takes more [])
    (hopen : first ≠ .openBrace) (hindex : t.meaning = .radical → first ≠ .openBracket) :
    (element t ms).Takes (.openBrace :: first :: (more ++ .closeBrace :: after)) rest := by
  cases h with
  | fraction hfraction hnumerator hdenominator =>
    obtain ⟨rfl, hbraced⟩ := hnumerator.argument_braced helement hopen
    exact .fraction hfraction hbraced hdenominator
  | binomial hbinomial hupper hlower =>
    obtain ⟨rfl, hbraced⟩ := hupper.argument_braced helement hopen
    exact .binomial hbinomial hbraced hlower
  | radical hradical hoption hbase =>
    cases hoption with
    | optionNone =>
      obtain ⟨rfl, hbraced⟩ := hbase.argument_braced helement hopen
      exact .radical hradical (.optionNone (by simp)) hbraced
    | optionSome => exact absurd rfl (hindex hradical)
  | accent haccent hbase =>
    obtain ⟨rfl, hbraced⟩ := hbase.argument_braced helement hopen
    exact .accent haccent hbraced
  | font hfont hbody =>
    obtain ⟨rfl, hbraced⟩ := hbody.argument_braced helement hopen
    exact .font hfont hbraced
  | _ => simp_all [Meaning.takesArgument]

/-- Braces can be written around the second argument of a fraction or a binomial coefficient. -/
theorem second_braced (h : (element t ms).Takes (ts ++ first :: (more ++ after)) rest)
    (hmeaning : t.meaning = .fraction ∨ t.meaning = .binomial) (hfirst : (argument earlier).Takes ts [])
    (helement : (element first ns).Takes more []) (hopen : first ≠ .openBrace) :
    (element t ms).Takes (ts ++ .openBrace :: first :: (more ++ .closeBrace :: after)) rest := by
  have hafter (us : List Token) : (argument earlier).Takes (ts ++ us) us := hfirst.followed (.inl trivial)
  generalize hus : ts ++ first :: (more ++ after) = us at h
  cases h with
  | fraction hfraction hnumerator hdenominator =>
    subst hus
    obtain ⟨rfl, rfl⟩ := eq_of_parsed hnumerator.accepted (hafter _).accepted
    obtain ⟨rfl, hbraced⟩ := hdenominator.argument_braced helement hopen
    exact .fraction hfraction (hafter _) hbraced
  | binomial hbinomial hupper hlower =>
    subst hus
    obtain ⟨rfl, rfl⟩ := eq_of_parsed hupper.accepted (hafter _).accepted
    obtain ⟨rfl, hbraced⟩ := hlower.argument_braced helement hopen
    exact .binomial hbinomial (hafter _) hbraced
  | _ => simp_all

/-- Braces can be written around what stands under a root with an index. -/
theorem radicand_braced
    (h : (element t ms).Takes (.openBracket :: (ts ++ first :: (more ++ after))) rest)
    (hmeaning : t.meaning = .radical)
    (hindex : (sequence (stopAt .closeBracket) index).Takes ts [.closeBracket])
    (helement : (element first ns).Takes more []) (hopen : first ≠ .openBrace) :
    (element t ms).Takes
      (.openBracket :: (ts ++ .openBrace :: first :: (more ++ .closeBrace :: after))) rest := by
  have hafter (us : List Token) : (Phrase.option (some index)).Takes (.openBracket :: (ts ++ us)) us :=
    .optionSome (hindex.followed (.inr (List.cons_ne_nil _ _)))
  cases h with
  | radical hradical hoption hbase =>
    obtain ⟨rfl, rfl⟩ := eq_of_parsed hoption.accepted (hafter _).accepted
    obtain ⟨rfl, hbraced⟩ := hbase.argument_braced helement hopen
    exact .radical hradical (hafter _) hbraced
  | _ => simp_all

end Phrase.Takes

/-- Braces can be written around an argument that is a single element. -/
theorem IsBare.braced {t first : Token} {inner more after rest : List Token} {ms : List Math}
    (h : IsBare t inner first more)
    (htakes : (t.phrase ms).Takes (inner ++ first :: (more ++ after)) rest) :
    (t.phrase ms).Takes (inner ++ .openBrace :: first :: (more ++ .closeBrace :: after)) rest := by
  obtain ⟨ns, helement⟩ := h.element
  have hcommand (hmeaning : t.meaning.takesArgument = true) : t.phrase ms = .element t ms :=
    Token.phrase_of_not_isScript (isScript_of_takesArgument hmeaning) ms
  cases h.awaits with
  | script hscript =>
    rw [Token.phrase_of_isScript hscript] at htakes ⊢
    obtain ⟨rfl, hbraced⟩ := htakes.argument_braced helement h.noBrace
    exact hbraced
  | first hmeaning =>
    rw [hcommand hmeaning] at htakes ⊢
    exact htakes.first_braced hmeaning helement h.noBrace fun hradical => h.noIndex hradical rfl
  | second hmeaning hfirst =>
    rw [hcommand (Meaning.takesArgument_of_two hmeaning)] at htakes ⊢
    exact htakes.second_braced hmeaning hfirst helement h.noBrace
  | radicand hmeaning hindex =>
    rw [hcommand (by rw [hmeaning]; rfl)] at htakes ⊢
    exact htakes.radicand_braced hmeaning hindex helement h.noBrace

/-- Braces around an argument of a formula that is a single element change nothing. -/
theorem parse_braced {t first : Token} {front inner more after : List Token} {ms : List Math}
    (h : parse (front ++ t :: (inner ++ first :: (more ++ after))) = .ok ms)
    (hbare : IsBare t inner first more) :
    parse (front ++ t :: (inner ++ .openBrace :: first :: (more ++ .closeBrace :: after))) =
      .ok ms := by
  obtain ⟨ns, vs, htakes, hreplace⟩ := parse_replace h hbare.awaits.takesArgument
  exact hreplace _ (hbare.braced htakes)

/-! ### Parts of a source -/

/-- The part of a source that some of its tokens are read from.  It has no blanks at its end, but for one
that a backslash takes. -/
structure IsPart (s : Text) (ts us vs : List Token) (before part after : Text) : Prop where
  source : s = before ++ (part ++ after)
  tokens : tokenize s = ts ++ (us ++ vs)
  tokens_before : tokenize before = ts
  tokens_part : tokenize part = us
  tokens_after : tokenize after = vs
  last : (∀ g ∈ part.getLast?, g.isBlank = false) ∨ EndsInBlank part

/-- Whichever tokens follow one another, there is a part of the source that they are read from. -/
theorem exists_isPart {s : Text} {ts us vs : List Token} (h : tokenize s = ts ++ (us ++ vs)) :
    ∃ before part after, IsPart s ts us vs before part after := by
  obtain ⟨before, rest, rfl, hbefore, hrest⟩ := exists_cut h
  obtain ⟨part, after, rfl, hpart, hafter⟩ := exists_cut hrest
  obtain ⟨gap, hgap, htrim⟩ := Text.exists_trimRight part
  have hlast := Text.getLast_trimRight part
  generalize Text.trimRight part = body at htrim hlast
  by_cases hslash : .backslash ∈ tokenize body
  · refine ⟨before, part, after, rfl, h, hbefore, hpart, hafter, ?_⟩
    cases gap with
    | nil =>
      rw [List.append_nil] at htrim
      exact .inl (htrim ▸ hlast)
    | cons g gap =>
      obtain ⟨tokens, -, htokens⟩ := tokenize_append_backslash hslash hgap
      exact .inr ⟨tokens, g, (Bool.and_eq_true_iff.mp hgap).1, htrim ▸ htokens⟩
  · -- The blanks at the end of the part are no tokens of it.
    refine ⟨before, body, gap ++ after, ?_, h, hbefore, ?_, ?_, .inl hlast⟩
    · rw [htrim, List.append_assoc]
    · rw [← hpart, htrim, tokenize_append_gap hslash hgap]
    · rw [tokenize_blanks hgap, hafter]

namespace IsPart

variable {s before part after : Text} {ts us vs : List Token}

theorem endsInBlank {g : CodePoint} (h : IsPart s ts us vs before part after)
    (hblank : g.isBlank = true) (ws : List Token) (hlast : us ++ vs = ws ++ [.symbol g]) : EndsInBlank s :=
  ⟨ts ++ ws, g, hblank, by rw [h.tokens, hlast, List.append_assoc]⟩

/-- The tokens of the source with the part in braces. -/
theorem tokenize_braced (h : IsPart s ts us vs before part after)
    (hopen : ∀ t ∈ tokenize s, t.isOpen = false) :
    tokenize (before ++ (Token.braced part ++ after)) =
      ts ++ .openBrace :: (us ++ .closeBrace :: vs) := by
  rw [h.tokens, List.forall_mem_append, List.forall_mem_append, ← h.tokens_before, ← h.tokens_part] at hopen
  obtain ⟨hbefore, hpart, -⟩ := hopen
  have happend {s : Text} (c : Char) (more : Text) (hs : ∀ t ∈ tokenize s, t.isOpen = false)
      (hc : c = '\x7b' ∨ c = '\x7d') :
      tokenize (s ++ .char c :: more) = tokenize s ++ .glyph (.char c) :: tokenize more := by
    have hapart : StandsApart (.char c :: more) := by
      rintro _ ⟨⟩
      rcases hc with rfl | rfl <;> decide
    rw [tokenize_append (fun t ht => .inl (hs t ht)) hapart]
    rcases hc with rfl | rfl <;>
      rw [tokenize_other (by decide) (by decide) (by decide)]
  have hbraced : Token.braced part ++ after =
      .char '\x7b' :: (part ++ .char '\x7d' :: after) := by simp [Token.braced]
  rw [hbraced, happend _ _ hbefore (.inl rfl), happend _ _ hpart (.inr rfl), h.tokens_before,
    h.tokens_part, h.tokens_after]

/-- A source that does not end with a blank that means something does not end so with the braces. -/
theorem not_endsInBlank_braced (h : IsPart s ts us vs before part after)
    (hopen : ∀ t ∈ tokenize s, t.isOpen = false) (hends : ¬ EndsInBlank s) :
    ¬ EndsInBlank (before ++ (Token.braced part ++ after)) := by
  rintro ⟨ws, g, hblank, hws⟩
  rw [h.tokenize_braced hopen] at hws
  rcases List.eq_nil_or_concat vs with hvs | ⟨front, t, hvs⟩
  · rw [hvs, ← List.cons_append, ← List.append_assoc] at hws
    cases (List.append_inj' hws rfl).2
  · have hlast : (ts ++ .openBrace :: (us ++ .closeBrace :: front)) ++ [t] = ws ++ [.symbol g] := by
      rw [← hws, hvs]
      simp
    obtain ⟨-, ht⟩ := List.append_inj' hlast rfl
    cases ht
    exact hends (h.endsInBlank hblank (us ++ front) (by rw [hvs]; simp))

/-- Markup can hold the source with the braces if it can hold the source. -/
theorem fitsMarkup_braced (h : IsPart s ts us vs before part after) (hts : ts ≠ []) (hus : us ≠ [])
    (hends : ¬ EndsInBlank s) (hfits : s.trim.fitsMarkup = true) :
    (before ++ (Token.braced part ++ after)).trim.fitsMarkup = true := by
  have hleft : Text.trimLeft before ≠ [] := by
    intro hnil
    refine hts (h.tokens_before.symm.trans (tokenize_of_allBlank ?_))
    exact List.all_eq_true.mpr (List.dropWhile_eq_nil_iff.mp hnil)
  have hright : Text.trimRight after ≠ [] ∨ ∀ g ∈ part.getLast?, g.isBlank = false := by
    rcases h.last with hvisible | ⟨ws, g, hblank, hws⟩
    · exact .inr hvisible
    · -- A blank that a backslash takes does not stand at the end of the source.
      refine .inl fun hnil => hends (h.endsInBlank hblank ws ?_)
      obtain ⟨gap, hgap, hafter⟩ := Text.exists_trimRight after
      rw [hnil, List.nil_append] at hafter
      rw [← h.tokens_after, hafter, tokenize_of_allBlank hgap, List.append_nil, ← h.tokens_part, hws]
  have hne : part ≠ [] := by
    rintro rfl
    exact hus (h.tokens_part.symm.trans (by rw [tokenize]))
  have hbraces : Token.braced part ≠ [] := List.cons_ne_nil _ _
  have hlast : ∀ g ∈ (Token.braced part).getLast?, g.isBlank = false := by
    intro g hg
    rw [Token.braced, ← List.cons_append, List.getLast?_append_of_ne_nil _ (by simp)] at hg
    cases hg
    decide
  rw [h.source, Text.trim_around hne (.inl hleft) hright] at hfits
  rw [Text.trim_around hbraces (.inl hleft) (.inr hlast)]
  have hcompatible : compatibleChar '\x7b' = true ∧ compatibleChar '\x7d' = true := by decide
  simp only [Text.fitsMarkup, Token.braced, List.all_append, List.all_cons, List.all_nil,
    CodePoint.toChar?, Option.any_some, hcompatible, Bool.true_and, Bool.and_true] at hfits ⊢
  exact hfits

end IsPart

/-- Braces around an argument that is a single element change nothing.  Wherever the tokens of a source have
such an argument, there is a part of the source that it is read from, and with braces around this part the
source can be set as well, and has the same body. -/
theorem bodyOf?_braced {layout : Layout} {s : Text} {xs : List Markup} {t first : Token}
    {front inner more rest : List Token} (hset : bodyOf? layout s = some xs)
    (htokens : tokenize s = front ++ t :: inner ++ (first :: more ++ rest))
    (hbare : IsBare t inner first more) :
    (∃ before part after, IsPart s (front ++ t :: inner) (first :: more) rest before part after) ∧
    ∀ before part after, IsPart s (front ++ t :: inner) (first :: more) rest before part after →
      bodyOf? layout (before ++ (Token.braced part ++ after)) = some xs := by
  refine ⟨exists_isPart htokens, fun before part after hpart => ?_⟩
  obtain ⟨ms, hms, hfits, rfl⟩ := bodyOf?_eq_some_iff.mp hset
  have htrim := tokenize_trim_of_parse hms
  have hends := tokenize_trim_eq_iff.mp htrim
  have hopen := isOpen_of_parse hms
  rw [htrim] at hms hopen
  refine bodyOf?_eq_some_iff.mpr ⟨ms, ?_, ?_, rfl⟩
  · rw [tokenize_trim_eq_iff.mpr (hpart.not_endsInBlank_braced hopen hends),
      hpart.tokenize_braced hopen]
    rw [htokens] at hms
    have hbraced := parse_braced (by simpa using hms) hbare
    simpa using hbraced
  · exact hpart.fitsMarkup_braced (by simp) (List.cons_ne_nil _ _) hends hfits

/-- A root in the denominator of a fraction, in an exponent that has braces already. -/
theorem bodyOf?_braced_sample :
    let s := Text.ofString "y^\x7b\\frac 1\\sqrt x+2\x7d"
    let t := Text.ofString "y^\x7b\\frac 1\x7b\\sqrt x\x7d+2\x7d"
    ∃ xs, bodyOf? .display s = some xs ∧ bodyOf? .display t = some xs := by
  intro s t
  have hmeaning : (Token.glyph (.char 'x')).meaning = .leaf .identifier [.char 'x'] .plain none := by
    decide +kernel
  have hx : (Phrase.element (.glyph (.char 'x')) [.leaf ⟨.identifier, ['x'], .plain, none⟩]).Takes
      [] [] := .leaf hmeaning rfl
  have hroot := Phrase.Takes.radical (t := .word "sqrt") (by decide +kernel) (.optionNone (by decide))
    (.argumentElement (by decide +kernel) (by decide) hx)
  have hone : (Phrase.element (.number ['1']) [.leaf ⟨.number, ['1'], .plain, none⟩]).Takes [] [] :=
    .leaf rfl rfl
  have hbare : IsBare (.word "frac") [.number ['1']] (.word "sqrt") [.glyph (.char 'x')] :=
    ⟨.second (.inl (by decide +kernel)) (.argumentElement (by decide) (by decide) hone),
      ⟨_, hroot⟩, by decide, fun _ h => absurd h (by decide)⟩
  have htokens : tokenize s = [.glyph (.char 'y'), .superscript, .openBrace] ++ .word "frac" ::
      [.number ['1']] ++ (.word "sqrt" :: [.glyph (.char 'x')] ++
        [.glyph (.char '+'), .number ['2'], .closeBrace]) := by decide +kernel
  have hpart : IsPart s ([.glyph (.char 'y'), .superscript, .openBrace] ++ .word "frac" ::
      [.number ['1']]) (.word "sqrt" :: [.glyph (.char 'x')])
      [.glyph (.char '+'), .number ['2'], .closeBrace] (Text.ofString "y^\x7b\\frac 1")
      (Text.ofString "\\sqrt x") (Text.ofString "+2\x7d") := by
    refine ⟨by decide, htokens, by decide +kernel, by decide +kernel, by decide +kernel, .inl ?_⟩
    rintro _ ⟨⟩
    decide
  obtain ⟨xs, hset⟩ : ∃ xs, bodyOf? .display s = some xs :=
    Option.isSome_iff_exists.mp (by decide +kernel)
  exact ⟨xs, hset, (bodyOf?_braced hset htokens hbare).2 _ _ _ hpart⟩

end DeltaPreview.Latex
