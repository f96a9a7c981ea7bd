import DeltaPreview.Proofs.Latex.Math

/-!
# The grammar of formulas

`Phrase.Takes` says, rule by rule, which tokens stand for which formulas: a phrase stands at the
beginning of some tokens and leaves the others.  The parser accepts exactly what the grammar says
(`Phrase.takes_iff`), so what holds of all formulas can be proved by induction on the rules, and a
formula can be shown to be accepted by naming the rules.
-/

namespace DeltaPreview.Latex

/-- A kind of phrase, together with what the phrase stands for. -/
inductive Phrase where
  /-- Formulas, up to a token at which they stop. -/
  | sequence (stop : Token → Bool) (formulas : List Math)
  /-- Scripts, after those that were found before. -/
  | scripts (found all : Scripts Math)
  /-- The argument of a command or a script. -/
  | argument (formulas : List Math)
  /-- The optional argument in brackets. -/
  | option (formulas : Option (List Math))
  /-- The cells of an environment and its end. -/
  | rows (environment : String) (cells : List (List (List Math)))
  /-- What follows the first token of an element. -/
  | element (first : Token) (formulas : List Math)
  /-- The column specification of an environment. -/
  | columns (environment : String)

namespace Phrase

/-- A phrase stands at the beginning of some tokens and leaves the others. -/
inductive Takes : Phrase → List Token → List Token → Prop
  | sequenceEnd {stop : Token → Bool} : Takes (sequence stop []) [] []
  | sequenceStop {stop : Token → Bool} {t : Token} {ts : List Token} (hstop : stop t = true) :
      Takes (sequence stop []) (t :: ts) (t :: ts)
  /-- Scripts without a base. -/
  | sequenceScripts {stop : Token → Bool} {t : Token} {ts after after' rest : List Token}
      {ms more : List Math} {both : Scripts Math} (hstop : stop t = false) (hscript : t.isScript = true)
      (hargument : Takes (argument ms) ts after)
      (hscripts : Takes (scripts (Scripts.none.add t ms) both) after after')
      (hmore : Takes (sequence stop more) after' rest) :
      Takes (sequence stop (both.attach [] ++ more)) (t :: ts) rest
  /-- An element with its scripts. -/
  | sequenceElement {stop : Token → Bool} {t : Token} {ts after after' rest : List Token}
      {base more : List Math} {both : Scripts Math} (hstop : stop t = false)
      (hscript : t.isScript = false) (hbase : Takes (element t base) ts after)
      (hscripts : Takes (scripts Scripts.none both) after after')
      (hmore : Takes (sequence stop more) after' rest) :
      Takes (sequence stop (both.attach base ++ more)) (t :: ts) rest
  | scriptsEnd {found : Scripts Math} {ts : List Token} (hend : ∀ t ∈ ts.head?, t.isScript = false) :
      Takes (scripts found found) ts ts
  | scriptsMore {found all : Scripts Math} {t : Token} {ts after rest : List Token} {ms : List Math}
      (hscript : t.isScript = true) (hsingle : found.double? t = none)
      (hargument : Takes (argument ms) ts after)
      (hmore : Takes (scripts (found.add t ms) all) after rest) :
      Takes (scripts found all) (t :: ts) rest
  | argumentGroup {ms : List Math} {ts rest : List Token}
      (hbody : Takes (sequence (stopAt .closeBrace) ms) ts (.closeBrace :: rest)) :
      Takes (argument ms) (.openBrace :: ts) rest
  | argumentElement {ms : List Math} {t : Token} {ts rest : List Token}
      (hend : t.endsArgument = false) (hopen : t ≠ .openBrace)
      (helement : Takes (element t ms) ts rest) : Takes (argument ms) (t :: ts) rest
  | optionNone {ts : List Token} (hopen : ts.head? ≠ some .openBracket) :
      Takes (option none) ts ts
  | optionSome {ms : List Math} {ts rest : List Token}
      (hbody : Takes (sequence (stopAt .closeBracket) ms) ts (.closeBracket :: rest)) :
      Takes (option (some ms)) (.openBracket :: ts) rest
  | rowsEnd {environment : String} {cell : List Math} {ts rest : List Token}
      (hcell : Takes (sequence (stopAtCell environment) cell) ts (.ending environment :: rest)) :
      Takes (rows environment [[cell]]) ts rest
  | rowsCell {environment : String} {cell : List Math} {more : List (List (List Math))}
      {ts after rest : List Token}
      (hcell : Takes (sequence (stopAtCell environment) cell) ts (.separator :: after))
      (hmore : Takes (rows environment more) after rest) :
      Takes (rows environment (consCell cell more)) ts rest
  | rowsRow {environment : String} {cell : List Math} {more : List (List (List Math))}
      {ts after rest : List Token}
      (hcell : Takes (sequence (stopAtCell environment) cell) ts (.newRow :: after))
      (hmore : Takes (rows environment more) after rest) :
      Takes (rows environment ([cell] :: more)) ts rest
  | leaf {t : Token} {kind : LeafKind} {text : Text} {role : LeafRole} {variant : Option Variant}
      {m : Math} {ts : List Token} (hmeaning : t.meaning = .leaf kind text role variant)
      (hleaf : leafOf kind text role variant = .ok m) : Takes (element t [m]) ts ts
  | space {t : Token} {width : String} {ts : List Token} (hmeaning : t.meaning = .space width) :
      Takes (element t [.space width]) ts ts
  | newline {t : Token} {ts : List Token} (hmeaning : t.meaning = .newline) :
      Takes (element t [.newline]) ts ts
  | group {t : Token} {ms : List Math} {ts rest : List Token} (hmeaning : t.meaning = .group)
      (hbody : Takes (sequence (stopAt .closeBrace) ms) ts (.closeBrace :: rest)) :
      Takes (element t [.row ms]) ts rest
  | fraction {t : Token} {numerator denominator : List Math} {ts after rest : List Token}
      (hmeaning : t.meaning = .fraction) (hnumerator : Takes (argument numerator) ts after)
      (hdenominator : Takes (argument denominator) after rest) :
      Takes (element t [.fraction true (.single numerator) (.single denominator)]) ts rest
  | binomial {t : Token} {upper lower : List Math} {ts after rest : List Token}
      (hmeaning : t.meaning = .binomial) (hupper : Takes (argument upper) ts after)
      (hlower : Takes (argument lower) after rest) :
      Takes (element t [.fenced ['('] [.fraction false (.single upper) (.single lower)] [')']])
        ts rest
  | radical {t : Token} {index : Option (List Math)} {base : List Math}
      {ts after rest : List Token} (hmeaning : t.meaning = .radical)
      (hindex : Takes (option index) ts after) (hbase : Takes (argument base) after rest) :
      Takes (element t [.radical index base]) ts rest
  | accent {t : Token} {mark : Char} {base : List Math} {ts rest : List Token}
      (hmeaning : t.meaning = .accent mark) (hbase : Takes (argument base) ts rest) :
      Takes (element t [.accent (.single base) (.operator [mark] .fixed)]) ts rest
  | font {t : Token} {variant : Variant} {ms : List Math} {ts rest : List Token}
      (hmeaning : t.meaning = .font variant) (hbody : Takes (argument ms) ts rest) :
      Takes (element t (Math.withVariants variant ms)) ts rest
  | bigDelimiter {t d : Token} {text : List Char} {ts : List Token}
      (hmeaning : t.meaning = .bigDelimiter) (hdelimiter : d.delimiter? = some text) :
      Takes (element t [.leaf (.operator text .fixed)]) (d :: ts) ts
  | delimiters {t l r : Token} {left right : List Char} {ms : List Math} {ts rest : List Token}
      (hmeaning : t.meaning = .leftDelimiter) (hleft : l.delimiter? = some left)
      (hbody : Takes (sequence (stopAt (.word "right")) ms) ts (.word "right" :: r :: rest))
      (hright : r.delimiter? = some right) :
      Takes (element t [.fenced left ms right]) (l :: ts) rest
  | environment {t : Token} {name : String} {e : Environment} {cells : List (List (List Math))}
      {ts after rest : List Token} (hmeaning : t.meaning = .environment name)
      (hknown : environments.lookup name = some e) (hcolumns : Takes (columns name) ts after)
      (hrows : Takes (rows name cells) after rest) : Takes (element t [e.formula cells]) ts rest
  | columnsNone {name : String} {ts : List Token}
      (hnone : name ≠ "array" ∨ ts.head? ≠ some .openBrace) : Takes (columns name) ts ts
  | columnsSome {ms : List Math} {ts rest : List Token}
      (hbody : Takes (sequence (stopAt .closeBrace) ms) ts (.closeBrace :: rest)) :
      Takes (columns "array") (.openBrace :: ts) rest

/-- What the parser says of a phrase: it finds the phrase, and leaves the other tokens. -/
def Accepted : Phrase → List Token → List Token → Prop
  | sequence stop ms, ts, rest => ∃ h, Latex.sequence stop ts = .ok ⟨ms, rest, h⟩
  | scripts found all, ts, rest => ∃ h, Latex.scripts found ts = .ok ⟨all, rest, h⟩
  | argument ms, ts, rest => ∃ h, Latex.argument ts = .ok ⟨ms, rest, h⟩
  | option ms, ts, rest => ∃ h, Latex.optionalArgument ts = .ok ⟨ms, rest, h⟩
  | rows environment cells, ts, rest => ∃ h, Latex.rows environment ts = .ok ⟨cells, rest, h⟩
  | element t ms, ts, rest => ∃ h, Latex.element t ts = .ok ⟨ms, rest, h⟩
  | columns environment, ts, rest =>
    ∃ h, Latex.columns (α := Math) environment ts = .ok ⟨(), rest, h⟩

end Phrase

/-! ### The parser accepts what the grammar says -/

/-- The first script doubles none. -/
theorem Scripts.double?_none (t : Token) : (Scripts.none : Scripts Math).double? t = .none := by
  unfold Scripts.double?
  split <;> rfl

theorem expect_self (mark : Token) (ts : List Token) :
    expect mark (mark :: ts) = .ok ⟨(), ts, Nat.lt_add_one ts.length⟩ := if_pos rfl

theorem delimiter_of_delimiter? {d : Token} {text : List Char} (h : d.delimiter? = some text)
    (command : Token) (ts : List Token) :
    delimiter command (d :: ts) = .ok ⟨text, ts, Nat.lt_add_one ts.length⟩ := by
  simp [delimiter, h]

/-- A sequence up to a closing brace is a group. -/
theorem group_of_accepted {ts rest : List Token} {ms : List Math}
    (h : (Phrase.sequence (stopAt .closeBrace) ms).Accepted ts (.closeBrace :: rest)) :
    ∃ h, group ts = .ok ⟨ms, rest, h⟩ := by
  obtain ⟨hbound, hsequence⟩ := h
  have hrest : rest.length < ts.length := by simp at hbound; omega
  refine ⟨hrest, ?_⟩
  rw [group, hsequence]
  simp only [expect_self]

theorem Phrase.Takes.accepted {p : Phrase} {ts rest : List Token} (h : p.Takes ts rest) :
    p.Accepted ts rest := by
  induction h with
  | sequenceEnd => exact ⟨by simp, by rw [Latex.sequence]⟩
  | sequenceStop hstop => exact ⟨by simp, by rw [Latex.sequence, if_pos hstop]⟩
  | sequenceScripts hstop hscript _ _ _ iha ihs ihm =>
    obtain ⟨ha, hargument⟩ := iha
    obtain ⟨hs, hscripts⟩ := ihs
    obtain ⟨hm, hmore⟩ := ihm
    refine ⟨by simp; omega, ?_⟩
    rw [Latex.sequence]
    simp [hstop, hscript, hargument, hscripts, hmore]
  | sequenceElement hstop hscript _ _ _ ihb ihs ihm =>
    obtain ⟨hb, hbase⟩ := ihb
    obtain ⟨hs, hscripts⟩ := ihs
    obtain ⟨hm, hmore⟩ := ihm
    refine ⟨by simp; omega, ?_⟩
    rw [Latex.sequence]
    simp [hstop, hscript, hbase, hscripts, hmore]
  | @scriptsEnd found ts hend =>
    refine ⟨by simp, ?_⟩
    cases ts with
    | nil => rw [Latex.scripts]
    | cons t ts =>
      have ht : t.isScript = false := hend t rfl
      rw [Latex.scripts]
      simp [ht]
  | scriptsMore hscript hsingle _ _ iha ihm =>
    obtain ⟨ha, hargument⟩ := iha
    obtain ⟨hm, hmore⟩ := ihm
    refine ⟨by simp; omega, ?_⟩
    rw [Latex.scripts]
    simp [hscript, hsingle, hargument, hmore]
  | argumentGroup _ ih =>
    obtain ⟨hg, hgroup⟩ := group_of_accepted ih
    have hopen : Token.openBrace.endsArgument = false := rfl
    refine ⟨by simp; omega, ?_⟩
    rw [Latex.argument]
    simp [hopen, hgroup]
  | argumentElement hend hopen _ ih =>
    obtain ⟨he, helement⟩ := ih
    refine ⟨by simp; omega, ?_⟩
    rw [Latex.argument]
    simp [hend, hopen, helement]
  | @optionNone ts hopen =>
    refine ⟨by simp, ?_⟩
    rw [optionalArgument]
    intro rest hts
    simp [hts] at hopen
  | optionSome _ ih =>
    obtain ⟨hbound, hsequence⟩ := ih
    refine ⟨by simp at hbound ⊢; omega, ?_⟩
    rw [optionalArgument, hsequence]
    simp only [expect_self]
  | rowsEnd _ ih =>
    obtain ⟨hbound, hsequence⟩ := ih
    refine ⟨by simp at hbound; omega, ?_⟩
    rw [Latex.rows, hsequence]
    simp
  | rowsCell _ _ ihc ihm =>
    obtain ⟨hbound, hsequence⟩ := ihc
    obtain ⟨hm, hmore⟩ := ihm
    refine ⟨by simp at hbound; omega, ?_⟩
    rw [Latex.rows, hsequence]
    simp [hmore]
  | rowsRow _ _ ihc ihm =>
    obtain ⟨hbound, hsequence⟩ := ihc
    obtain ⟨hm, hmore⟩ := ihm
    refine ⟨by simp at hbound; omega, ?_⟩
    rw [Latex.rows, hsequence]
    simp [hmore]
  | leaf hmeaning hleaf =>
    refine ⟨by simp, ?_⟩
    rw [Latex.element, hmeaning]
    simp only [hleaf]
  | space hmeaning =>
    refine ⟨by simp, ?_⟩
    rw [Latex.element, hmeaning]
    simp only [build_space]
  | newline hmeaning =>
    refine ⟨by simp, ?_⟩
    rw [Latex.element, hmeaning]
    simp only [build_newline]
  | group hmeaning _ ih =>
    obtain ⟨hg, hgroup⟩ := group_of_accepted ih
    refine ⟨by omega, ?_⟩
    rw [Latex.element, hmeaning]
    simp only [hgroup, build_row]
  | fraction hmeaning _ _ ihn ihd =>
    obtain ⟨hn, hnumerator⟩ := ihn
    obtain ⟨hd, hdenominator⟩ := ihd
    refine ⟨by omega, ?_⟩
    rw [Latex.element, hmeaning]
    simp only [hnumerator, hdenominator, build_fraction]
  | binomial hmeaning _ _ ihu ihl =>
    obtain ⟨hu, hupper⟩ := ihu
    obtain ⟨hl, hlower⟩ := ihl
    refine ⟨by omega, ?_⟩
    rw [Latex.element, hmeaning]
    simp only [hupper, hlower, build_fraction, build_fenced]
  | radical hmeaning _ _ ihi ihb =>
    obtain ⟨hi, hindex⟩ := ihi
    obtain ⟨hb, hbase⟩ := ihb
    refine ⟨by omega, ?_⟩
    rw [Latex.element, hmeaning]
    simp only [hindex, hbase, build_radical]
  | accent hmeaning _ ih =>
    obtain ⟨hb, hbase⟩ := ih
    refine ⟨by omega, ?_⟩
    rw [Latex.element, hmeaning]
    simp only [hbase, build_accent]
  | font hmeaning _ ih =>
    obtain ⟨hb, hbody⟩ := ih
    refine ⟨by omega, ?_⟩
    rw [Latex.element, hmeaning]
    simp only [hbody, build_withVariants]
  | @bigDelimiter t d text ts hmeaning hdelimiter =>
    refine ⟨by simp only [List.length_cons]; omega, ?_⟩
    rw [Latex.element, hmeaning]
    simp only [delimiter_of_delimiter? hdelimiter t ts, build_leaf]
  | @delimiters t l r left right ms ts rest hmeaning hleft _ hright ih =>
    obtain ⟨hbound, hsequence⟩ := ih
    refine ⟨by simp at hbound ⊢; omega, ?_⟩
    rw [Latex.element, hmeaning]
    simp only [delimiter_of_delimiter? hleft t ts, hsequence, if_true,
      delimiter_of_delimiter? hright (.word "right") rest, build_fenced]
  | environment hmeaning hknown _ _ ihc ihr =>
    obtain ⟨hc, hcolumns⟩ := ihc
    obtain ⟨hr, hrows⟩ := ihr
    refine ⟨by omega, ?_⟩
    rw [Latex.element, hmeaning]
    simp only [hknown, hcolumns, hrows, Environment.build_eq_formula]
  | @columnsNone name ts hnone =>
    refine ⟨by simp, ?_⟩
    unfold Latex.columns
    split
    · rename_i rest
      have hname : name ≠ "array" := by simpa using hnone
      rw [if_neg hname]
    · rfl
  | columnsSome _ ih =>
    obtain ⟨hg, hgroup⟩ := group_of_accepted ih
    refine ⟨by simp; omega, ?_⟩
    rw [Latex.columns, if_pos rfl]
    simp only [hgroup]

/-! ### The grammar says what the parser accepts -/

theorem eq_of_expect {mark : Token} {ts : List Token} {p : Parsed Unit ts.length}
    (h : expect mark ts = .ok p) : ts = mark :: p.rest := by
  unfold expect at h
  split at h
  · cases h
  · split at h
    · rename_i heq
      cases h
      rw [heq]
    · cases h

theorem delimiter_eq_ok {command : Token} {ts : List Token} {p : Parsed (List Char) ts.length}
    (h : delimiter command ts = .ok p) : ∃ d, ts = d :: p.rest ∧ d.delimiter? = some p.value := by
  unfold delimiter at h
  split at h
  · cases h
  · rename_i t rest
    split at h
    · rename_i text htext
      cases h
      exact ⟨t, rfl, htext⟩
    · cases h

mutual

theorem takes_sequence {stop : Token → Bool} {ts : List Token}
    {p : Parsed (List Math) (ts.length + 1)} (h : sequence stop ts = .ok p) :
    (Phrase.sequence stop p.value).Takes ts p.rest := by
  unfold sequence at h
  split at h
  · cases h
    exact .sequenceEnd
  · rename_i t rest
    split at h
    · rename_i hstop
      cases h
      exact .sequenceStop hstop
    · rename_i hstop
      have hstop : stop t = false := by simpa using hstop
      split at h
      · rename_i hscript
        split at h
        · cases h
        · rename_i ms after hafter hargument
          split at h
          · cases h
          · rename_i both after' hafter' hscripts
            split at h
            · cases h
            · rename_i more last hlast hmore
              cases h
              exact .sequenceScripts hstop hscript (takes_argument hargument)
                (takes_scripts hscripts) (takes_sequence hmore)
      · rename_i hscript
        have hscript : t.isScript = false := by simpa using hscript
        split at h
        · cases h
        · rename_i base after hafter hbase
          split at h
          · cases h
          · rename_i both after' hafter' hscripts
            split at h
            · cases h
            · rename_i more last hlast hmore
              cases h
              exact .sequenceElement hstop hscript (takes_element hbase)
                (takes_scripts hscripts) (takes_sequence hmore)
termination_by 4 * ts.length + 1
decreasing_by all_goals (subst_vars; simp only [List.length_cons] at *; omega)

theorem takes_scripts {found : Scripts Math} {ts : List Token} {p : Parsed (Scripts Math) (ts.length + 1)}
    (h : scripts found ts = .ok p) : (Phrase.scripts found p.value).Takes ts p.rest := by
  unfold scripts at h
  split at h
  · cases h
    exact .scriptsEnd (by simp)
  · rename_i t rest
    split at h
    · rename_i hscript
      split at h
      · cases h
      · rename_i hsingle
        split at h
        · cases h
        · rename_i ms after hafter hargument
          split at h
          · cases h
          · rename_i both last hlast hmore
            cases h
            exact .scriptsMore hscript hsingle (takes_argument hargument) (takes_scripts hmore)
    · rename_i hscript
      cases h
      exact .scriptsEnd (by simpa using hscript)
termination_by 4 * ts.length
decreasing_by all_goals (subst_vars; simp only [List.length_cons] at *; omega)

theorem takes_argument {ts : List Token} {p : Parsed (List Math) ts.length}
    (h : argument ts = .ok p) : (Phrase.argument p.value).Takes ts p.rest := by
  unfold argument at h
  split at h
  · cases h
  · rename_i t rest
    split at h
    · cases h
    · rename_i hend
      split at h
      · rename_i hopen
        split at h
        · cases h
        · rename_i ms after hafter hgroup
          cases h
          rw [hopen]
          exact .argumentGroup (takes_group hgroup)
      · rename_i hopen
        split at h
        · cases h
        · rename_i ms after hafter helement
          cases h
          exact .argumentElement (by simpa using hend) hopen (takes_element helement)
termination_by 4 * ts.length
decreasing_by all_goals (subst_vars; simp only [List.length_cons] at *; omega)

theorem takes_group {ts : List Token} {p : Parsed (List Math) ts.length}
    (h : group ts = .ok p) :
    (Phrase.sequence (stopAt .closeBrace) p.value).Takes ts (.closeBrace :: p.rest) := by
  unfold group at h
  split at h
  · cases h
  · rename_i ms after hafter hbody
    split at h
    · cases h
    · rename_i rest hrest hclose
      cases h
      have hbody : (Phrase.sequence (stopAt .closeBrace) ms).Takes ts after := takes_sequence hbody
      rwa [eq_of_expect hclose] at hbody
termination_by 4 * ts.length + 2
decreasing_by all_goals omega

theorem takes_option {ts : List Token} {p : Parsed (Option (List Math)) (ts.length + 1)}
    (h : optionalArgument ts = .ok p) : (Phrase.option p.value).Takes ts p.rest := by
  unfold optionalArgument at h
  split at h
  · rename_i rest
    split at h
    · cases h
    · rename_i ms after hafter hbody
      split at h
      · cases h
      · rename_i last hlast hclose
        cases h
        have hbody : (Phrase.sequence (stopAt .closeBracket) ms).Takes rest after :=
          takes_sequence hbody
        rw [eq_of_expect hclose] at hbody
        exact .optionSome hbody
  · rename_i hopen
    cases h
    refine .optionNone fun hhead => ?_
    obtain ⟨rest, hts⟩ := List.head?_eq_some_iff.mp hhead
    exact hopen rest hts
termination_by 4 * ts.length
decreasing_by all_goals (subst_vars; simp only [List.length_cons] at *; omega)

theorem takes_rows {environment : String} {ts : List Token}
    {p : Parsed (List (List (List Math))) ts.length} (h : rows environment ts = .ok p) :
    (Phrase.rows environment p.value).Takes ts p.rest := by
  unfold rows at h
  split at h
  · cases h
  · cases h
  · rename_i cell t after hafter hcell
    have hshorter : after.length < ts.length := by simpa using hafter
    have hcell : (Phrase.sequence (stopAtCell environment) cell).Takes ts (t :: after) :=
      takes_sequence hcell
    split at h
    · rename_i hseparator
      split at h
      · cases h
      · rename_i more last hlast hmore
        cases h
        rw [hseparator] at hcell
        exact .rowsCell hcell (takes_rows hmore)
    · split at h
      · rename_i hrow
        split at h
        · cases h
        · rename_i more last hlast hmore
          cases h
          rw [hrow] at hcell
          exact .rowsRow hcell (takes_rows hmore)
      · split at h
        · rename_i hend
          cases h
          rw [hend] at hcell
          exact .rowsEnd hcell
        · cases h
termination_by 4 * ts.length + 2
decreasing_by all_goals omega

theorem takes_element {t : Token} {ts : List Token} {p : Parsed (List Math) (ts.length + 1)}
    (h : element t ts = .ok p) : (Phrase.element t p.value).Takes ts p.rest := by
  unfold element at h
  cases hmeaning : t.meaning with
  | leaf kind text role variant =>
    simp only [hmeaning] at h
    split at h
    · cases h
    · rename_i hleaf
      cases h
      exact .leaf hmeaning hleaf
  | space width =>
    simp only [hmeaning] at h
    cases h
    exact .space hmeaning
  | newline =>
    simp only [hmeaning] at h
    cases h
    exact .newline hmeaning
  | group =>
    simp only [hmeaning] at h
    split at h
    · cases h
    · rename_i hgroup
      cases h
      exact .group hmeaning (takes_group hgroup)
  | fraction =>
    simp only [hmeaning] at h
    split at h
    · cases h
    · rename_i hnumerator
      split at h
      · cases h
      · rename_i hdenominator
        cases h
        exact .fraction hmeaning (takes_argument hnumerator) (takes_argument hdenominator)
  | binomial =>
    simp only [hmeaning] at h
    split at h
    · cases h
    · rename_i hupper
      split at h
      · cases h
      · rename_i hlower
        cases h
        exact .binomial hmeaning (takes_argument hupper) (takes_argument hlower)
  | radical =>
    simp only [hmeaning] at h
    split at h
    · cases h
    · rename_i hindex
      split at h
      · cases h
      · rename_i hbase
        cases h
        exact .radical hmeaning (takes_option hindex) (takes_argument hbase)
  | accent mark =>
    simp only [hmeaning] at h
    split at h
    · cases h
    · rename_i hbase
      cases h
      exact .accent hmeaning (takes_argument hbase)
  | font variant =>
    simp only [hmeaning] at h
    split at h
    · cases h
    · rename_i hbody
      cases h
      exact .font hmeaning (takes_argument hbody)
  | bigDelimiter =>
    simp only [hmeaning] at h
    split at h
    · cases h
    · rename_i text rest hrest hdelimiter
      cases h
      obtain ⟨d, hts, htext⟩ : ∃ d, ts = d :: rest ∧ d.delimiter? = some text :=
        delimiter_eq_ok hdelimiter
      simpa only [hts, build_leaf] using Phrase.Takes.bigDelimiter hmeaning htext
  | leftDelimiter =>
    simp only [hmeaning] at h
    split at h
    · cases h
    · rename_i left inside hinside hleft
      obtain ⟨l, hts, hl⟩ : ∃ l, ts = l :: inside ∧ l.delimiter? = some left :=
        delimiter_eq_ok hleft
      split at h
      · cases h
      · cases h
      · rename_i content mark after hafter hbody
        have hbody : (Phrase.sequence (stopAt (.word "right")) content).Takes inside
          (mark :: after) := takes_sequence hbody
        split at h
        · rename_i hmark
          split at h
          · cases h
          · rename_i right rest hrest hright
            cases h
            obtain ⟨r, hr, hdelimiter⟩ : ∃ r, after = r :: rest ∧ r.delimiter? = some right :=
              delimiter_eq_ok hright
            rw [hmark, hr] at hbody
            simpa only [hts, build_fenced] using Phrase.Takes.delimiters hmeaning hl hbody hdelimiter
        · cases h
  | environment name =>
    simp only [hmeaning] at h
    split at h
    · cases h
    · rename_i hknown
      split at h
      · cases h
      · rename_i hcolumns
        split at h
        · cases h
        · rename_i hrows
          cases h
          exact .environment hmeaning hknown (takes_columns hcolumns) (takes_rows hrows)
  | namelessEnvironment => simp [hmeaning] at h
  | strayBrace => simp [hmeaning] at h
  | straySeparator => simp [hmeaning] at h
  | strayEnd => simp [hmeaning] at h
  | undefined => simp [hmeaning] at h
termination_by 4 * ts.length + 3
decreasing_by all_goals omega

theorem takes_columns {environment : String} {ts : List Token} {p : Parsed Unit (ts.length + 1)}
    (h : columns (α := Math) environment ts = .ok p) : (Phrase.columns environment).Takes ts p.rest := by
  unfold columns at h
  split at h
  · rename_i rest
    split at h
    · rename_i harray
      split at h
      · cases h
      · rename_i hgroup
        cases h
        rw [harray]
        exact .columnsSome (takes_group hgroup)
    · rename_i hname
      cases h
      exact .columnsNone (.inl hname)
  · rename_i hopen
    cases h
    refine .columnsNone (.inr fun hhead => ?_)
    obtain ⟨rest, hts⟩ := List.head?_eq_some_iff.mp hhead
    exact hopen rest hts
termination_by 4 * ts.length
decreasing_by all_goals (subst_vars; simp only [List.length_cons] at *; omega)

end

/-- The grammar describes the parser. -/
theorem Phrase.takes_iff {p : Phrase} {ts rest : List Token} :
    p.Takes ts rest ↔ p.Accepted ts rest := by
  refine ⟨Takes.accepted, fun h => ?_⟩
  cases p with
  | sequence stop ms => exact takes_sequence h.2
  | scripts found all => exact takes_scripts h.2
  | argument ms => exact takes_argument h.2
  | option ms => exact takes_option h.2
  | rows environment cells => exact takes_rows h.2
  | element t ms => exact takes_element h.2
  | columns environment => exact takes_columns h.2

end DeltaPreview.Latex
