import DeltaPreview.Proofs.Latex.Concatenation

/-!
# Replacing what a token takes

A script token, and a command that takes arguments, begins a phrase wherever it stands in a formula
(`Token.phrase`).  What the phrase takes can be replaced by tokens that stand for the same: every phrase
around it stands for what it stood for before (`Phrase.Takes.replaceable`), and so does the whole formula
(`parse_replace`).

A rule of the grammar takes tokens one by one and phrases one after the other.  A phrase sees the first token
only of what follows it, so a replacement in the second of two phrases leaves the first as it is
(`Replaceable.seq`); and the tokens at which phrases end, and the delimiters, begin none
(`Replaceable.past`, `Replaceable.skip`).
-/

namespace DeltaPreview.Latex

/-! ### Tokens that begin phrases with arguments -/

/-- The commands whose arguments are formulas. -/
def Meaning.takesArgument : Meaning → Bool
  | fraction => true
  | binomial => true
  | radical => true
  | accent _ => true
  | font _ => true
  | _ => false

theorem Meaning.takesArgument_ofGlyph (g : CodePoint) : (ofGlyph g).takesArgument = false :=
  ofGlyph_cases (P := fun m => m.takesArgument = false) rfl rfl rfl rfl fun _ _ _ => rfl

namespace Token

/-- A token after which an argument is read. -/
def takesArgument (t : Token) : Bool := t.isScript || t.meaning.takesArgument

/-- What stands after such a token. -/
def phrase (t : Token) (ms : List Math) : Phrase :=
  if t.isScript then .argument ms else .element t ms

variable {t : Token}

theorem phrase_of_isScript (h : t.isScript = true) (ms : List Math) :
    t.phrase ms = .argument ms := if_pos h

theorem phrase_of_not_isScript (h : t.isScript = false) (ms : List Math) :
    t.phrase ms = .element t ms := if_neg (by simp [h])

theorem takesArgument_glyph {g : CodePoint} (h : (glyph g).isScript = false) :
    (glyph g).takesArgument = false := by
  rw [takesArgument, h, Bool.false_or]
  exact Meaning.takesArgument_ofGlyph g

theorem takesArgument_symbol (g : CodePoint) : (symbol g).takesArgument = false :=
  Meaning.ofEscape_cases (P := fun m => m.takesArgument = false)
    rfl rfl (fun _ _ _ => rfl) (fun _ _ _ => rfl)

theorem takesArgument_of_delimiter? {text : List Char} (h : t.delimiter? = some text) :
    t.takesArgument = false := by
  have hglyphs : (delimiterGlyphs.all fun c => !(glyph (.char c)).isScript) = true := by decide
  have hwords : ∀ name ∈ delimiterWords.map Prod.fst, (word name).takesArgument = false := by
    decide +kernel
  unfold delimiter? at h
  split at h
  · exact takesArgument_glyph rfl
  · split at h
    · rename_i c _ hc
      have hscript := List.all_eq_true.mp hglyphs c (List.contains_iff_mem.mp hc)
      exact takesArgument_glyph (by simpa using hscript)
    · cases h
  · exact takesArgument_symbol _
  · obtain ⟨d, hd, -⟩ := Option.map_eq_some_iff.mp h
    exact hwords _ (List.mem_map_of_mem (mem_of_lookup hd))
  · cases h

end Token

/-! ### Tokens that can be replaced -/

/-- Among the tokens before the rest, what a token takes can be replaced by tokens that stand for the same,
and a property of the tokens holds then. -/
def Replaceable (P : List Token → Prop) (ts rest : List Token) : Prop :=
  ∀ front t us, ts = front ++ t :: us → rest.length ≤ us.length → t.takesArgument = true →
    ∃ ms vs, (t.phrase ms).Takes us vs ∧ ∀ us', (t.phrase ms).Takes us' vs → P (front ++ t :: us')

namespace Replaceable

variable {P Q : List Token → Prop} {t : Token} {ts after rest : List Token}

theorem imp (h : Replaceable P ts rest) (hmore : ∀ ts', P ts' → Q ts') : Replaceable Q ts rest := by
  intro front t us hts hrest ht
  obtain ⟨ms, vs, htakes, hreplace⟩ := h front t us hts hrest ht
  exact ⟨ms, vs, htakes, fun us' h' => hmore _ (hreplace us' h')⟩

/-- Where nothing is taken there is nothing to replace. -/
theorem nothing (ts : List Token) : Replaceable P ts ts := by
  intro front t us hts hrest
  have hlength := congrArg List.length hts
  simp only [List.length_append, List.length_cons] at hlength
  omega

/-- A token that takes no argument comes first. -/
theorem skip (ht : t.takesArgument = false) (h : Replaceable (fun ts' => P (t :: ts')) ts rest) :
    Replaceable P (t :: ts) rest := by
  intro front u us hts hrest hu
  cases front with
  | nil =>
    obtain ⟨rfl, rfl⟩ := List.cons.inj hts
    cases ht.symm.trans hu
  | cons v front =>
    obtain ⟨rfl, rfl⟩ := List.cons.inj hts
    exact h front u us rfl hrest hu

/-- A token comes first, and what it takes is the first thing to be replaced. -/
theorem cons {ms : List Math} (h : Replaceable (fun ts' => P (t :: ts')) ts rest)
    (hphrase : (t.phrase ms).Takes ts after)
    (hhere : ∀ ts', (t.phrase ms).Takes ts' after → P (t :: ts')) : Replaceable P (t :: ts) rest := by
  intro front u us hts hrest hu
  cases front with
  | nil =>
    obtain ⟨rfl, rfl⟩ := List.cons.inj hts
    exact ⟨ms, after, hphrase, hhere⟩
  | cons v front =>
    obtain ⟨rfl, rfl⟩ := List.cons.inj hts
    exact h front u us rfl hrest hu

theorem script {ms : List Math} (ht : t.isScript = true) (hargument : (Phrase.argument ms).Takes ts after)
    (hhere : ∀ ts', (Phrase.argument ms).Takes ts' after → P (t :: ts'))
    (h : Replaceable (fun ts' => P (t :: ts')) ts rest) : Replaceable P (t :: ts) rest := by
  rw [← Token.phrase_of_isScript ht] at hargument hhere
  exact h.cons hargument hhere

theorem element {ms : List Math} (ht : t.isScript = false)
    (helement : (Phrase.element t ms).Takes ts after)
    (hhere : ∀ ts', (Phrase.element t ms).Takes ts' after → P (t :: ts'))
    (h : Replaceable (fun ts' => P (t :: ts')) ts rest) : Replaceable P (t :: ts) rest := by
  rw [← Token.phrase_of_not_isScript ht] at helement hhere
  exact h.cons helement hhere

/-- One phrase comes after the other. -/
theorem seq {p : Phrase} (hp : p.Takes ts after) (hfirst : Replaceable (p.Takes · after) ts after)
    (hq : Q after) (hsecond : Replaceable Q after rest) :
    Replaceable (fun ts' => ∃ after', p.Takes ts' after' ∧ Q after') ts rest := by
  intro front t us hts hrest ht
  by_cases hwhere : after.length ≤ us.length
  · obtain ⟨ms, vs, htakes, hreplace⟩ := hfirst front t us hts hwhere ht
    exact ⟨ms, vs, htakes, fun us' h' => ⟨after, hreplace us' h', hq⟩⟩
  · -- The token stands in the second part, and the first part sees the first token of that only.
    obtain ⟨used, rfl⟩ := hp.suffix
    obtain ⟨middle, rfl, rfl⟩ : ∃ middle, front = used ++ middle ∧ after = middle ++ t :: us := by
      rcases List.append_eq_append_iff.mp hts with ⟨m, hm, hsplit⟩ | ⟨m, rfl, hsplit⟩
      · exact ⟨m, hm, hsplit⟩
      · cases m with
        | nil => exact ⟨[], by simp, by simpa using hsplit.symm⟩
        | cons u m =>
          obtain ⟨-, rfl⟩ := List.cons.inj hsplit
          simp at hwhere
    obtain ⟨ms, vs, htakes, hreplace⟩ := hsecond middle t us rfl hrest ht
    refine ⟨ms, vs, htakes, fun us' h' => ⟨middle ++ t :: us', ?_, hreplace us' h'⟩⟩
    rw [List.append_assoc]
    refine hp.exchanged ?_
    rw [List.head?_append, List.head?_append]
    rfl

/-- A token that takes no argument stands between one phrase and the other. -/
theorem past {p : Phrase} (h : Replaceable (p.Takes · (t :: after)) ts (t :: after))
    (hp : p.Takes ts (t :: after)) (ht : t.takesArgument = false) (hq : Q after)
    (hsecond : Replaceable Q after rest) :
    Replaceable (fun ts' => ∃ after', p.Takes ts' (t :: after') ∧ Q after') ts rest := by
  have htail : Replaceable (fun us => ∃ after', us = t :: after' ∧ Q after') (t :: after) rest :=
    .skip ht (hsecond.imp fun after' hafter' => ⟨after', rfl, hafter'⟩)
  refine (h.seq hp ⟨after, rfl, hq⟩ htail).imp ?_
  rintro ts' ⟨_, hp', after', rfl, hq'⟩
  exact ⟨after', hp', hq'⟩

/-- A phrase ends at a token that takes no argument. -/
theorem close {p : Phrase} (h : Replaceable (p.Takes · (t :: rest)) ts (t :: rest))
    (hp : p.Takes ts (t :: rest)) (ht : t.takesArgument = false) :
    Replaceable (p.Takes · (t :: rest)) ts rest := by
  refine (h.past hp ht (Q := (· = rest)) rfl (.nothing rest)).imp ?_
  rintro ts' ⟨_, hp', rfl⟩
  exact hp'

end Replaceable

namespace Phrase.Takes

/-- What a token takes anywhere in a phrase can be replaced by tokens that stand for the same. -/
theorem replaceable {p : Phrase} {ts rest : List Token} (h : p.Takes ts rest) :
    Replaceable (p.Takes · rest) ts rest := by
  induction h with
  | sequenceEnd | sequenceStop | scriptsEnd | optionNone | columnsNone => exact .nothing _
  | leaf | space | newline => exact .nothing _
  | sequenceScripts hstop hscript hargument hscripts hmore iha ihs ihm =>
    refine .script hscript hargument (fun _ h' => .sequenceScripts hstop hscript h' hscripts hmore) ?_
    refine (iha.seq hargument ⟨_, hscripts, hmore⟩ (ihs.seq hscripts hmore ihm)).imp ?_
    rintro _ ⟨_, h', _, hscripts', hmore'⟩
    exact .sequenceScripts hstop hscript h' hscripts' hmore'
  | sequenceElement hstop hscript hbase hscripts hmore ihb ihs ihm =>
    refine .element hscript hbase (fun _ h' => .sequenceElement hstop hscript h' hscripts hmore) ?_
    refine (ihb.seq hbase ⟨_, hscripts, hmore⟩ (ihs.seq hscripts hmore ihm)).imp ?_
    rintro _ ⟨_, h', _, hscripts', hmore'⟩
    exact .sequenceElement hstop hscript h' hscripts' hmore'
  | scriptsMore hscript hsingle hargument hmore iha ihm =>
    refine .script hscript hargument (fun _ h' => .scriptsMore hscript hsingle h' hmore) ?_
    refine (iha.seq hargument hmore ihm).imp ?_
    rintro _ ⟨_, h', hmore'⟩
    exact .scriptsMore hscript hsingle h' hmore'
  | argumentGroup hbody ih =>
    refine .skip (Token.takesArgument_glyph rfl) ?_
    exact (ih.close hbody (Token.takesArgument_glyph rfl)).imp fun _ h' => .argumentGroup h'
  | argumentElement hend hopen helement ih =>
    exact .element (Token.isScript_of_endsArgument hend) helement
      (fun _ h' => .argumentElement hend hopen h') (ih.imp fun _ h' => .argumentElement hend hopen h')
  | optionSome hbody ih =>
    refine .skip (Token.takesArgument_glyph rfl) ?_
    exact (ih.close hbody (Token.takesArgument_glyph rfl)).imp fun _ h' => .optionSome h'
  | columnsSome hbody ih =>
    refine .skip (Token.takesArgument_glyph rfl) ?_
    exact (ih.close hbody (Token.takesArgument_glyph rfl)).imp fun _ h' => .columnsSome h'
  | rowsEnd hcell ih => exact (ih.close hcell rfl).imp fun _ h' => .rowsEnd h'
  | rowsCell hcell hmore ihc ihm =>
    refine (ihc.past hcell (Token.takesArgument_glyph rfl) hmore ihm).imp ?_
    rintro _ ⟨_, hcell', hmore'⟩
    exact .rowsCell hcell' hmore'
  | rowsRow hcell hmore ihc ihm =>
    refine (ihc.past hcell (Token.takesArgument_symbol _) hmore ihm).imp ?_
    rintro _ ⟨_, hcell', hmore'⟩
    exact .rowsRow hcell' hmore'
  | group hmeaning hbody ih =>
    exact (ih.close hbody (Token.takesArgument_glyph rfl)).imp fun _ h' => .group hmeaning h'
  | fraction hmeaning hnumerator hdenominator ihn ihd =>
    refine (ihn.seq hnumerator hdenominator ihd).imp ?_
    rintro _ ⟨_, hnumerator', hdenominator'⟩
    exact .fraction hmeaning hnumerator' hdenominator'
  | binomial hmeaning hupper hlower ihu ihl =>
    refine (ihu.seq hupper hlower ihl).imp ?_
    rintro _ ⟨_, hupper', hlower'⟩
    exact .binomial hmeaning hupper' hlower'
  | radical hmeaning hindex hbase ihi ihb =>
    refine (ihi.seq hindex hbase ihb).imp ?_
    rintro _ ⟨_, hindex', hbase'⟩
    exact .radical hmeaning hindex' hbase'
  | accent hmeaning _ ih => exact ih.imp fun _ h' => .accent hmeaning h'
  | font hmeaning _ ih => exact ih.imp fun _ h' => .font hmeaning h'
  | bigDelimiter hmeaning hdelimiter =>
    exact .skip (Token.takesArgument_of_delimiter? hdelimiter) (.nothing _)
  | delimiters hmeaning hleft hbody hright ih =>
    refine .skip (Token.takesArgument_of_delimiter? hleft) ?_
    have hend := Token.takesArgument_of_delimiter? hright
    have hmark : (Token.word "right").takesArgument = false := by decide
    refine (ih.past hbody hmark (Q := (· = _)) rfl (.skip hend (.nothing _))).imp ?_
    rintro _ ⟨_, hbody', rfl⟩
    exact .delimiters hmeaning hleft hbody' hright
  | environment hmeaning hknown hcolumns hrows ihc ihr =>
    refine (ihc.seq hcolumns hrows ihr).imp ?_
    rintro _ ⟨_, hcolumns', hrows'⟩
    exact .environment hmeaning hknown hcolumns' hrows'

end Phrase.Takes

/-- What a token takes anywhere in a formula can be replaced by tokens that stand for the same. -/
theorem parse_replace {front us : List Token} {t : Token} {ms : List Math}
    (h : parse (front ++ t :: us) = .ok ms) (ht : t.takesArgument = true) :
    ∃ ns vs, (t.phrase ns).Takes us vs ∧
      ∀ us', (t.phrase ns).Takes us' vs → parse (front ++ t :: us') = .ok ms := by
  obtain ⟨ns, vs, htakes, hreplace⟩ :=
    (takes_of_parse h).replaceable front t us rfl (Nat.zero_le _) ht
  exact ⟨ns, vs, htakes, fun us' h' => parse_of_takes (hreplace us' h')⟩

end DeltaPreview.Latex
