import DeltaPreview.Proofs.Latex.Lexical
import DeltaPreview.Proofs.Latex.Presentation
import DeltaPreview.Proofs.Latex.Setting

/-!
# Formulas one after the other

Two sources with a space between them are set as one formula whose body holds the elements of the first
and then those of the second (`tree_append_space`), unless the second begins with a script.

Of what follows it a phrase sees the first token only (`Phrase.Takes.exchanged`), and an element does not
see that (`Phrase.Takes.followed`), so a sequence that runs to the end goes on with another one
(`Phrase.Takes.append_sequence`).  The tokens of the whole source are those of the two parts since a formula
has no idle token, and so no open one (`not_idle_of_parse`, `isOpen_of_parse`).  Trimming removes the blanks
at the ends of the parts that are borders of the whole; the others stay in the annotation, and markup must be
able to hold them.
-/

namespace DeltaPreview.Latex

/-! ### Phrases before other tokens -/

namespace Phrase

/-- A phrase that ends with the tokens, and also if these go on. -/
def EndsBefore : Phrase → List Token → Prop
  | sequence _ _, _ => False
  | option _, _ => False
  | columns _, _ => False
  | scripts _ _, more => ∀ t ∈ more.head?, t.isScript = false
  | _, _ => True

namespace Takes

variable {ts rest more : List Token}

theorem argument_ne_nil {ms : List Math} (h : (argument ms).Takes ts rest) : ts ≠ [] := by
  cases h <;> exact List.cons_ne_nil _ _

theorem rows_ne_nil {environment : String} {cells : List (List (List Math))}
    (h : (rows environment cells).Takes ts rest) : ts ≠ [] := by
  obtain ⟨-, rfl, inner, rfl, -⟩ := takes_balanced h
  simp

/-- A phrase does not depend on what comes after the tokens that follow it. -/
theorem before {p : Phrase} {us vs tail : List Token} (h : p.Takes us (vs ++ tail)) :
    ∃ us', us = us' ++ tail ∧ p.Takes us' vs := by
  generalize hrest : vs ++ tail = rest at h
  induction h generalizing vs with
  | sequenceEnd =>
    obtain ⟨rfl, rfl⟩ := List.append_eq_nil_iff.mp hrest
    exact ⟨[], rfl, .sequenceEnd⟩
  | sequenceStop hstop =>
    refine ⟨vs, hrest.symm, ?_⟩
    cases vs with
    | nil => exact .sequenceEnd
    | cons u vs =>
      cases hrest
      exact .sequenceStop hstop
  | @sequenceScripts _ t _ _ _ _ _ _ _ hstop hscript _ _ _ iha ihs ihm =>
    obtain ⟨last, rfl, hmore⟩ := ihm hrest
    obtain ⟨after, rfl, hscripts⟩ := ihs rfl
    obtain ⟨first, rfl, hargument⟩ := iha rfl
    exact ⟨t :: first, rfl, .sequenceScripts hstop hscript hargument hscripts hmore⟩
  | @sequenceElement _ t _ _ _ _ _ _ _ hstop hscript _ _ _ ihb ihs ihm =>
    obtain ⟨last, rfl, hmore⟩ := ihm hrest
    obtain ⟨after, rfl, hscripts⟩ := ihs rfl
    obtain ⟨first, rfl, hbase⟩ := ihb rfl
    exact ⟨t :: first, rfl, .sequenceElement hstop hscript hbase hscripts hmore⟩
  | scriptsEnd hend =>
    refine ⟨vs, hrest.symm, .scriptsEnd fun t ht => hend t ?_⟩
    rw [← hrest, List.head?_append, Option.mem_def.mp ht]
    rfl
  | @scriptsMore _ _ t _ _ _ _ hscript hsingle _ _ iha ihm =>
    obtain ⟨last, rfl, hmore⟩ := ihm hrest
    obtain ⟨first, rfl, hargument⟩ := iha rfl
    exact ⟨t :: first, rfl, .scriptsMore hscript hsingle hargument hmore⟩
  | argumentGroup _ ih =>
    subst hrest
    obtain ⟨inner, rfl, hbody⟩ := ih List.cons_append
    exact ⟨.openBrace :: inner, rfl, .argumentGroup hbody⟩
  | @argumentElement _ t _ _ hend hopen _ ih =>
    obtain ⟨inner, rfl, helement⟩ := ih hrest
    exact ⟨t :: inner, rfl, .argumentElement hend hopen helement⟩
  | optionNone hopen =>
    refine ⟨vs, hrest.symm, .optionNone fun hhead => hopen ?_⟩
    rw [← hrest, List.head?_append, hhead]
    rfl
  | optionSome _ ih =>
    subst hrest
    obtain ⟨inner, rfl, hbody⟩ := ih List.cons_append
    exact ⟨.openBracket :: inner, rfl, .optionSome hbody⟩
  | @rowsEnd environment _ _ _ _ ih =>
    subst hrest
    obtain ⟨inner, rfl, hcell⟩ := ih List.cons_append
    exact ⟨inner, rfl, .rowsEnd hcell⟩
  | rowsCell _ _ ihc ihm =>
    obtain ⟨after, rfl, hmore⟩ := ihm hrest
    obtain ⟨inner, rfl, hcell⟩ := ihc List.cons_append
    exact ⟨inner, rfl, .rowsCell hcell hmore⟩
  | rowsRow _ _ ihc ihm =>
    obtain ⟨after, rfl, hmore⟩ := ihm hrest
    obtain ⟨inner, rfl, hcell⟩ := ihc List.cons_append
    exact ⟨inner, rfl, .rowsRow hcell hmore⟩
  | leaf hmeaning hleaf => exact ⟨vs, hrest.symm, .leaf hmeaning hleaf⟩
  | space hmeaning => exact ⟨vs, hrest.symm, .space hmeaning⟩
  | newline hmeaning => exact ⟨vs, hrest.symm, .newline hmeaning⟩
  | group hmeaning _ ih =>
    subst hrest
    obtain ⟨inner, rfl, hbody⟩ := ih List.cons_append
    exact ⟨inner, rfl, .group hmeaning hbody⟩
  | fraction hmeaning _ _ ihn ihd =>
    obtain ⟨after, rfl, hdenominator⟩ := ihd hrest
    obtain ⟨first, rfl, hnumerator⟩ := ihn rfl
    exact ⟨first, rfl, .fraction hmeaning hnumerator hdenominator⟩
  | binomial hmeaning _ _ ihu ihl =>
    obtain ⟨after, rfl, hlower⟩ := ihl hrest
    obtain ⟨first, rfl, hupper⟩ := ihu rfl
    exact ⟨first, rfl, .binomial hmeaning hupper hlower⟩
  | radical hmeaning _ _ ihi ihb =>
    obtain ⟨after, rfl, hbase⟩ := ihb hrest
    obtain ⟨first, rfl, hindex⟩ := ihi rfl
    exact ⟨first, rfl, .radical hmeaning hindex hbase⟩
  | accent hmeaning _ ih =>
    obtain ⟨first, rfl, hbase⟩ := ih hrest
    exact ⟨first, rfl, .accent hmeaning hbase⟩
  | font hmeaning _ ih =>
    obtain ⟨first, rfl, hbody⟩ := ih hrest
    exact ⟨first, rfl, .font hmeaning hbody⟩
  | @bigDelimiter _ d _ _ hmeaning hdelimiter =>
    subst hrest
    exact ⟨d :: vs, rfl, .bigDelimiter hmeaning hdelimiter⟩
  | @delimiters _ l r _ _ _ _ _ hmeaning hleft _ hright ih =>
    subst hrest
    have hsplit : (.word "right" :: r :: vs) ++ tail = Token.word "right" :: r :: (vs ++ tail) := rfl
    obtain ⟨inner, rfl, hbody⟩ := ih hsplit
    exact ⟨l :: inner, rfl, .delimiters hmeaning hleft hbody hright⟩
  | environment hmeaning hknown _ _ ihc ihr =>
    obtain ⟨after, rfl, hrows⟩ := ihr hrest
    obtain ⟨first, rfl, hcolumns⟩ := ihc rfl
    exact ⟨first, rfl, .environment hmeaning hknown hcolumns hrows⟩
  | @columnsNone name ts hnone =>
    refine ⟨vs, hrest.symm, .columnsNone (hnone.imp_right fun hopen hhead => hopen ?_)⟩
    rw [← hrest, List.head?_append, hhead]
    rfl
  | columnsSome _ ih =>
    subst hrest
    obtain ⟨inner, rfl, hbody⟩ := ih List.cons_append
    exact ⟨.openBrace :: inner, rfl, .columnsSome hbody⟩

theorem ne_nil {p : Phrase} (h : p.Takes ts rest) (hrest : rest ≠ []) : ts ≠ [] := by
  have hsplit : p.Takes ts ([] ++ rest) := h
  obtain ⟨front, rfl, -⟩ := hsplit.before
  exact List.append_ne_nil_of_right_ne_nil front hrest

/-- What follows a phrase does not change it, if the phrase ends before it or before some other token. -/
theorem followed {p : Phrase} (h : p.Takes ts rest) (hrest : p.EndsBefore more ∨ rest ≠ []) :
    p.Takes (ts ++ more) (rest ++ more) := by
  induction h with
  | sequenceEnd => simp [EndsBefore] at hrest
  | sequenceStop hstop => exact .sequenceStop hstop
  | sequenceScripts hstop hscript _ _ hmore iha ihs ihm =>
    have hafter := hmore.ne_nil (hrest.resolve_left id)
    exact .sequenceScripts hstop hscript (iha (.inl trivial)) (ihs (.inr hafter)) (ihm hrest)
  | sequenceElement hstop hscript _ _ hmore ihb ihs ihm =>
    have hafter := hmore.ne_nil (hrest.resolve_left id)
    exact .sequenceElement hstop hscript (ihb (.inl trivial)) (ihs (.inr hafter)) (ihm hrest)
  | @scriptsEnd found ts hend =>
    refine .scriptsEnd ?_
    cases ts with
    | nil => exact hrest.resolve_right (by simp)
    | cons t ts => exact hend
  | scriptsMore hscript hsingle _ _ iha ihm =>
    exact .scriptsMore hscript hsingle (iha (.inl trivial)) (ihm hrest)
  | argumentGroup _ ih => exact .argumentGroup (ih (.inr (List.cons_ne_nil _ _)))
  | argumentElement hend hopen _ ih => exact .argumentElement hend hopen (ih (.inl trivial))
  | @optionNone ts hopen =>
    refine .optionNone ?_
    cases ts with
    | nil => simp [EndsBefore] at hrest
    | cons t ts => exact hopen
  | optionSome _ ih => exact .optionSome (ih (.inr (List.cons_ne_nil _ _)))
  | rowsEnd _ ih => exact .rowsEnd (ih (.inr (List.cons_ne_nil _ _)))
  | rowsCell _ _ ihc ihm =>
    exact .rowsCell (ihc (.inr (List.cons_ne_nil _ _))) (ihm (.inl trivial))
  | rowsRow _ _ ihc ihm =>
    exact .rowsRow (ihc (.inr (List.cons_ne_nil _ _))) (ihm (.inl trivial))
  | leaf hmeaning hleaf => exact .leaf hmeaning hleaf
  | space hmeaning => exact .space hmeaning
  | newline hmeaning => exact .newline hmeaning
  | group hmeaning _ ih => exact .group hmeaning (ih (.inr (List.cons_ne_nil _ _)))
  | fraction hmeaning _ _ ihn ihd =>
    exact .fraction hmeaning (ihn (.inl trivial)) (ihd (.inl trivial))
  | binomial hmeaning _ _ ihu ihl =>
    exact .binomial hmeaning (ihu (.inl trivial)) (ihl (.inl trivial))
  | radical hmeaning _ hbase ihi ihb =>
    exact .radical hmeaning (ihi (.inr hbase.argument_ne_nil)) (ihb (.inl trivial))
  | accent hmeaning _ ih => exact .accent hmeaning (ih (.inl trivial))
  | font hmeaning _ ih => exact .font hmeaning (ih (.inl trivial))
  | bigDelimiter hmeaning hdelimiter => exact .bigDelimiter hmeaning hdelimiter
  | delimiters hmeaning hleft _ hright ih =>
    exact .delimiters hmeaning hleft (ih (.inr (List.cons_ne_nil _ _))) hright
  | environment hmeaning hknown _ hrows ihc ihr =>
    exact .environment hmeaning hknown (ihc (.inr hrows.rows_ne_nil)) (ihr (.inl trivial))
  | @columnsNone name ts hnone =>
    refine .columnsNone ?_
    cases ts with
    | nil => simp [EndsBefore] at hrest
    | cons t ts => exact hnone
  | columnsSome _ ih => exact .columnsSome (ih (.inr (List.cons_ne_nil _ _)))

/-- Of what follows it, a phrase sees the first token only. -/
theorem exchanged {p : Phrase} {front rest' : List Token} (h : p.Takes (front ++ rest) rest)
    (hhead : rest.head? = rest'.head?) : p.Takes (front ++ rest') rest' := by
  cases rest with
  | nil =>
    obtain rfl : rest' = [] := List.head?_eq_none_iff.mp hhead.symm
    exact h
  | cons t rest =>
    obtain ⟨rest'', rfl⟩ := List.head?_eq_some_iff.mp hhead.symm
    have hsplit : p.Takes (front ++ t :: rest) ([t] ++ rest) := h
    obtain ⟨inner, hinner, htakes⟩ := hsplit.before
    obtain rfl : front ++ [t] = inner :=
      List.append_cancel_right (by rw [List.append_assoc]; exact hinner)
    have hfollowed : p.Takes (front ++ [t] ++ rest'') ([t] ++ rest'') :=
      htakes.followed (.inr (List.cons_ne_nil t []))
    simpa using hfollowed

/-- A sequence that runs to the end goes on with another sequence. -/
theorem append_sequence {stop : Token → Bool} {ms ns : List Math} {last : List Token}
    (h : (sequence stop ms).Takes ts []) (hmore : (sequence stop ns).Takes more last)
    (hhead : ∀ t ∈ more.head?, t.isScript = false) :
    (sequence stop (ms ++ ns)).Takes (ts ++ more) last := by
  generalize hp : sequence stop ms = p at h
  generalize hrest : ([] : List Token) = rest at h
  induction h generalizing ms with
  | sequenceEnd =>
    cases hp
    exact hmore
  | sequenceStop => cases hrest
  | sequenceScripts hstop hscript hargument hscripts _ _ _ ihm =>
    cases hp
    rw [List.append_assoc]
    exact .sequenceScripts hstop hscript (hargument.followed (.inl trivial))
      (hscripts.followed (.inl hhead)) (ihm rfl hrest)
  | sequenceElement hstop hscript hbase hscripts _ _ _ ihm =>
    cases hp
    rw [List.append_assoc]
    exact .sequenceElement hstop hscript (hbase.followed (.inl trivial))
      (hscripts.followed (.inl hhead)) (ihm rfl hrest)
  | _ => cases hp

/-- After a sequence that runs to the end, what is wrong is what is wrong with the sequence that follows. -/
theorem append_error {stop : Token → Bool} {ms : List Math} {fault : Fault}
    (h : (sequence stop ms).Takes ts []) (hmore : Latex.sequence (α := Math) stop more = .error fault)
    (hhead : ∀ t ∈ more.head?, t.isScript = false) :
    Latex.sequence (α := Math) stop (ts ++ more) = .error fault := by
  have hafter {p : Phrase} {ts rest : List Token} (h : p.Takes ts rest)
      (hrest : p.EndsBefore more ∨ rest ≠ []) : p.Takes (ts ++ more) (rest ++ more) := h.followed hrest
  generalize hp : sequence stop ms = p at h
  generalize hrest : ([] : List Token) = rest at h
  induction h generalizing ms with
  | sequenceEnd =>
    cases hp
    exact hmore
  | sequenceStop => cases hrest
  | sequenceScripts hstop hscript hargument hscripts _ _ _ ihm =>
    cases hp
    obtain ⟨_, hargument⟩ := (hafter hargument (.inl trivial)).accepted
    obtain ⟨_, hscripts⟩ := (hafter hscripts (.inl hhead)).accepted
    rw [List.cons_append, Latex.sequence]
    simp [hstop, hscript, hargument, hscripts, ihm rfl hrest]
  | sequenceElement hstop hscript hbase hscripts _ _ _ ihm =>
    cases hp
    obtain ⟨_, hbase⟩ := (hafter hbase (.inl trivial)).accepted
    obtain ⟨_, hscripts⟩ := (hafter hscripts (.inl hhead)).accepted
    rw [List.cons_append, Latex.sequence]
    simp [hstop, hscript, hbase, hscripts, ihm rfl hrest]
  | _ => cases hp

/-- A sequence that runs to the end does not depend on where it would stop. -/
theorem unstopped {stop : Token → Bool} {ms : List Math}
    (h : (sequence stop ms).Takes ts []) : (sequence stopNever ms).Takes ts [] := by
  generalize hp : sequence stop ms = p at h
  generalize hrest : ([] : List Token) = rest at h ⊢
  induction h generalizing ms with
  | sequenceEnd =>
    cases hp
    exact .sequenceEnd
  | sequenceStop => cases hrest
  | sequenceScripts hstop hscript hargument hscripts _ _ _ ihm =>
    cases hp
    exact .sequenceScripts rfl hscript hargument hscripts (ihm rfl hrest)
  | sequenceElement hstop hscript hbase hscripts _ _ _ ihm =>
    cases hp
    exact .sequenceElement rfl hscript hbase hscripts (ihm rfl hrest)
  | _ => cases hp

end Takes

end Phrase

theorem parse_of_takes {ts : List Token} {ms : List Math}
    (h : (Phrase.sequence stopNever ms).Takes ts []) : parse ts = .ok ms := by
  obtain ⟨hbound, hsequence⟩ := Phrase.takes_iff.mp h
  simp only [parse, parseAs, hsequence]

theorem parse_append {ts more : List Token} {ms ns : List Math} (hms : parse ts = .ok ms)
    (hns : parse more = .ok ns) (hhead : ∀ t ∈ more.head?, t.isScript = false) :
    parse (ts ++ more) = .ok (ms ++ ns) :=
  parse_of_takes ((takes_of_parse hms).append_sequence (takes_of_parse hns) hhead)

/-! ### Idle tokens -/

namespace Token

/-- A token that no phrase takes: it begins nothing, ends nothing and is no delimiter. -/
structure Idle (t : Token) : Prop where
  meaning : t.meaning = .undefined ∨ t.meaning = .namelessEnvironment ∨
    t.meaning = .strayEnd ∧ ∃ name, t = .word name ∧ name ≠ "right"
  delimiter? : t.delimiter? = none

/-- An open token is idle. -/
theorem idle_of_isOpen {t : Token} (h : t.isOpen = true) : t.Idle := by
  have htext : ∀ name ∈ textCommands, Meaning.ofWord name = .undefined ∧
      (word name).delimiter? = none := by decide
  have hbegin : Meaning.ofWord "begin" = .namelessEnvironment := by decide
  have hend : Meaning.ofWord "end" = .strayEnd := by decide
  cases t with
  | word name =>
    have hname : name ∈ textCommands ∨ name = "begin" ∨ name = "end" := by
      simpa [isOpen, or_assoc] using h
    rcases hname with hname | rfl | rfl
    · exact ⟨.inl (htext name hname).1, (htext name hname).2⟩
    · exact ⟨.inr (.inl hbegin), rfl⟩
    · exact ⟨.inr (.inr ⟨hend, "end", rfl, by decide⟩), rfl⟩
  | backslash => exact ⟨.inl rfl, rfl⟩
  | _ => cases h

variable {t : Token}

theorem not_idle_of_delimiter? {text : List Char} (h : t.delimiter? = some text) : ¬ t.Idle := by
  intro hidle
  rw [hidle.delimiter?] at h
  cases h

theorem not_idle_of_meaning (h : t.meaning ≠ .undefined ∧ t.meaning ≠ .namelessEnvironment ∧
    t.meaning ≠ .strayEnd) : ¬ t.Idle := by
  intro hidle
  rcases hidle.meaning with hmeaning | hmeaning | ⟨hmeaning, -⟩
  · exact h.1 hmeaning
  · exact h.2.1 hmeaning
  · exact h.2.2 hmeaning

theorem not_idle_glyph (g : CodePoint) : ¬ (glyph g).Idle :=
  not_idle_of_meaning (Meaning.ofGlyph_cases
    (P := fun m => m ≠ .undefined ∧ m ≠ .namelessEnvironment ∧ m ≠ .strayEnd)
    (by simp) (by simp) (by simp) (by simp) (by simp))

theorem not_idle_newRow : ¬ newRow.Idle := not_idle_of_meaning (by decide)

theorem not_idle_of_isScript (h : t.isScript = true) : ¬ t.Idle := by
  rcases eq_of_isScript h with rfl | rfl <;> exact not_idle_glyph _

theorem not_idle_right : ¬ (word "right").Idle := by
  intro hidle
  have hmeaning : (word "right").meaning = .strayEnd := by decide
  rcases hidle.meaning with h | h | ⟨-, name, hname, hne⟩
  · cases hmeaning.symm.trans h
  · cases hmeaning.symm.trans h
  · cases hname
    exact hne rfl

theorem not_idle_ending (environment : String) : ¬ (ending environment).Idle := by
  intro hidle
  rcases hidle.meaning with h | h | ⟨-, name, hname, -⟩ <;> contradiction

end Token

theorem Phrase.Takes.not_idle {t : Token} {ms : List Math} {ts rest : List Token}
    (h : (element t ms).Takes ts rest) : ¬ t.Idle := by
  intro hidle
  have hmeaning := hidle.meaning
  cases h <;> simp_all

/-- The idle tokens of a list are among those that are left of it. -/
def LeavesIdle (ts rest : List Token) : Prop := ∀ t ∈ ts, t.Idle → t ∈ rest

namespace LeavesIdle

variable {t : Token} {ts after rest : List Token}

theorem refl (ts : List Token) : LeavesIdle ts ts := fun _ ht _ => ht

theorem trans (h : LeavesIdle ts after) (h' : LeavesIdle after rest) : LeavesIdle ts rest :=
  fun t ht hidle => h' t (h t ht hidle) hidle

theorem cons (ht : ¬ t.Idle) (h : LeavesIdle ts rest) : LeavesIdle (t :: ts) rest := by
  intro u hu hidle
  rcases List.mem_cons.mp hu with rfl | hu
  · exact absurd hidle ht
  · exact h u hu hidle

/-- The token at which something ends is taken, too. -/
theorem past (h : LeavesIdle ts (t :: rest)) (ht : ¬ t.Idle) : LeavesIdle ts rest :=
  h.trans (cons ht (refl rest))

end LeavesIdle

/-- A phrase takes no idle token. -/
theorem Phrase.Takes.leavesIdle {p : Phrase} {ts rest : List Token} (h : p.Takes ts rest) :
    LeavesIdle ts rest := by
  induction h with
  | sequenceEnd | sequenceStop | scriptsEnd | optionNone | columnsNone => exact .refl _
  | leaf | space | newline => exact .refl _
  | sequenceScripts _ hscript _ _ _ iha ihs ihm =>
    exact .cons (Token.not_idle_of_isScript hscript) (iha.trans (ihs.trans ihm))
  | sequenceElement _ _ hbase _ _ ihb ihs ihm =>
    exact .cons hbase.not_idle (ihb.trans (ihs.trans ihm))
  | scriptsMore hscript _ _ _ iha ihm =>
    exact .cons (Token.not_idle_of_isScript hscript) (iha.trans ihm)
  | argumentGroup _ ih => exact .cons (Token.not_idle_glyph _) (ih.past (Token.not_idle_glyph _))
  | argumentElement _ _ helement ih => exact .cons helement.not_idle ih
  | optionSome _ ih => exact .cons (Token.not_idle_glyph _) (ih.past (Token.not_idle_glyph _))
  | rowsEnd _ ih => exact ih.past (Token.not_idle_ending _)
  | rowsCell _ _ ihc ihm => exact (ihc.past (Token.not_idle_glyph _)).trans ihm
  | rowsRow _ _ ihc ihm => exact (ihc.past Token.not_idle_newRow).trans ihm
  | group _ _ ih => exact ih.past (Token.not_idle_glyph _)
  | fraction _ _ _ ih ih' | binomial _ _ _ ih ih' | radical _ _ _ ih ih' => exact ih.trans ih'
  | accent _ _ ih | font _ _ ih => exact ih
  | bigDelimiter _ hdelimiter =>
    exact .cons (Token.not_idle_of_delimiter? hdelimiter) (.refl _)
  | delimiters _ hleft _ hright ih =>
    have hafter := (ih.past Token.not_idle_right).past (Token.not_idle_of_delimiter? hright)
    exact .cons (Token.not_idle_of_delimiter? hleft) hafter
  | environment _ _ _ _ ihc ihr => exact ihc.trans ihr
  | columnsSome _ ih => exact .cons (Token.not_idle_glyph _) (ih.past (Token.not_idle_glyph _))

/-- The tokens of a formula are not idle. -/
theorem not_idle_of_parse {ts : List Token} {ms : List Math} (h : parse ts = .ok ms) :
    ∀ t ∈ ts, ¬ t.Idle := by
  intro t ht hidle
  cases (takes_of_parse h).leavesIdle t ht hidle

theorem isOpen_of_parse {ts : List Token} {ms : List Math} (h : parse ts = .ok ms) :
    ∀ t ∈ ts, t.isOpen = false := by
  intro t ht
  refine Bool.eq_false_iff.mpr fun hopen => ?_
  exact not_idle_of_parse h t ht (Token.idle_of_isOpen hopen)

/-! ### Sources with a space between them -/

theorem tokenize_blanks {gap : Text} (h : gap.allBlank = true) (s : Text) :
    tokenize (gap ++ s) = tokenize s := by
  induction gap with
  | nil => rfl
  | cons g gap ih =>
    obtain ⟨hg, hgap⟩ := Bool.and_eq_true_iff.mp h
    rw [List.cons_append, tokenize_blank hg, ih hgap]

/-- The tokens of two sources with a space between them. -/
theorem tokenize_append_space {a b : Text} (hopen : ∀ t ∈ tokenize a.trim, t.isOpen = false) :
    tokenize (a ++ .char ' ' :: b).trim = tokenize a.trim ++ tokenize b.trim := by
  obtain ⟨gap, hgap, htrim, hempty⟩ := Text.trim_append_space a b
  rw [htrim]
  cases gap with
  | nil =>
    rcases hempty rfl with ha | hb
    · rw [ha, tokenize]
      rfl
    · rw [hb, List.append_nil, List.append_nil, tokenize, List.append_nil]
  | cons g gap =>
    have hblank : GoesOnBlank (g :: gap ++ b.trim) := by
      rintro _ ⟨⟩
      exact (Bool.and_eq_true_iff.mp hgap).1
    rw [tokenize_append_blank hopen hblank, tokenize_blanks hgap]

/-! ### Trees of sources with a space between them -/

/-- The elements of the row that stands beside the annotation in the tree of a formula. -/
def body? : Markup → Option (List Markup)
  | .element span [.element math [.element semantics [.element row body, .element annotation _]]] =>
    if [span.name, math.name, semantics.name, row.name, annotation.name] =
        ["span", "math", "semantics", "mrow", "annotation"] then some body
    else none
  | _ => none

theorem body?_wrap (layout : Layout) (body : List Markup) (source : List Char) :
    body? (wrap layout body source) = some body := by
  cases layout <;> rfl

/-- The elements of the body of a source, if the source can be set. -/
def bodyOf? (layout : Layout) (source : Text) : Option (List Markup) :=
  (tree layout source).toOption.bind body?

theorem bodyOf?_eq_some_iff {layout : Layout} {source : Text} {xs : List Markup} :
    bodyOf? layout source = some xs ↔
      ∃ ms, parse (tokenize source.trim) = .ok ms ∧ source.trim.fitsMarkup = true ∧
        markups layout ms = xs := by
  constructor
  · intro h
    obtain ⟨m, hm, hbody⟩ := Option.bind_eq_some_iff.mp h
    obtain ⟨ms, hms, hfits, rfl⟩ := tree_eq_ok_iff.mp (toOption_eq_some_iff.mp hm)
    rw [body?_wrap] at hbody
    exact ⟨ms, hms, hfits, Option.some.inj hbody⟩
  · rintro ⟨ms, hms, hfits, rfl⟩
    have hm : tree layout source = .ok (wrap layout (markups layout ms) source.trim.chars) :=
      tree_eq_ok_iff.mpr ⟨ms, hms, hfits, rfl⟩
    exact Option.bind_eq_some_iff.mpr ⟨_, toOption_eq_some_iff.mpr hm, body?_wrap ..⟩

/-- The tree of two sources with a space between them has the body of the first and then that of the
second, if the second does not begin with a script and markup can hold the blanks that are kept between
them; and else it is the blanks that are refused. -/
theorem tree_append_space {layout : Layout} {a b : Text} {m n : Markup}
    (ha : tree layout a = .ok m) (hb : tree layout b = .ok n)
    (hhead : ∀ t ∈ (tokenize b.trim).head?, t.isScript = false) :
    ((a ++ .char ' ' :: b).trim.fitsMarkup = true →
      ∃ whole xs ys, tree layout (a ++ .char ' ' :: b) = .ok whole ∧ body? m = some xs ∧
        body? n = some ys ∧ body? whole = some (xs ++ ys)) ∧
    ((a ++ .char ' ' :: b).trim.fitsMarkup = false →
      tree layout (a ++ .char ' ' :: b) = .error (.refused .incompatible)) := by
  obtain ⟨ms, hms, hafits, rfl⟩ := tree_eq_ok_iff.mp ha
  obtain ⟨ns, hns, hbfits, rfl⟩ := tree_eq_ok_iff.mp hb
  have htokens := tokenize_append_space (b := b) (isOpen_of_parse hms)
  have hparse : parse (tokenize (a ++ .char ' ' :: b).trim) = .ok (ms ++ ns) := by
    rw [htokens]
    exact parse_append hms hns hhead
  constructor
  · intro hfits
    refine ⟨_, _, _, tree_eq_ok_iff.mpr ⟨_, hparse, hfits, rfl⟩, body?_wrap .., body?_wrap .., ?_⟩
    rw [body?_wrap, markups_append]
  · intro hrefused
    obtain ⟨gap, hgap, htrim, -⟩ := Text.trim_append_space a b
    have hpaired : (a ++ .char ' ' :: b).trim.isPaired = true := by
      rw [htrim, Text.isPaired, List.all_append, List.all_append]
      exact Bool.and_eq_true_iff.mpr ⟨Text.isPaired_of_fitsMarkup hafits,
        Bool.and_eq_true_iff.mpr ⟨Text.isPaired_of_allBlank hgap,
          Text.isPaired_of_fitsMarkup hbfits⟩⟩
    rw [tree_eq]
    rw [hparse, Text.toMarkup_eq_incompatible hrefused hpaired]

/-- A root that an index could follow, and brackets after it. -/
theorem tree_append_space_sample :
    let a := Text.ofString "\\sqrt x"
    let b := Text.ofString "[y]"
    ∃ m n whole xs ys, tree .display a = .ok m ∧ tree .display b = .ok n ∧
      tree .display (a ++ .char ' ' :: b) = .ok whole ∧ body? m = some xs ∧ body? n = some ys ∧
      body? whole = some (xs ++ ys) := by
  intro a b
  obtain ⟨m, ha⟩ : ∃ m, tree .display a = .ok m := exists_of_toBool (by decide +kernel)
  obtain ⟨n, hb⟩ : ∃ n, tree .display b = .ok n := exists_of_toBool (by decide +kernel)
  obtain ⟨whole, xs, ys, hset⟩ := (tree_append_space ha hb (by decide +kernel)).1 (by decide +kernel)
  exact ⟨m, n, whole, xs, ys, ha, hb, hset⟩

/-- A form feed at the end of a source is trimmed, and one before a space is not: no markup can hold it. -/
theorem inner_blank_refused :
    ¬ ∀ (layout : Layout) (a b : Text) (m n : Markup), tree layout a = .ok m →
      tree layout b = .ok n → (∀ t ∈ (tokenize b.trim).head?, t.isScript = false) →
      ∃ whole xs ys, tree layout (a ++ .char ' ' :: b) = .ok whole ∧ body? m = some xs ∧
        body? n = some ys ∧ body? whole = some (xs ++ ys) := by
  intro h
  obtain ⟨m, ha⟩ : ∃ m, tree .inline (Text.ofString "x\x0c") = .ok m :=
    exists_of_toBool (by decide +kernel)
  obtain ⟨n, hb⟩ : ∃ n, tree .inline (Text.ofString "y") = .ok n :=
    exists_of_toBool (by decide +kernel)
  obtain ⟨whole, -, -, hset, -⟩ := h .inline _ _ m n ha hb (by decide +kernel)
  have hrefused : (tree .inline (Text.ofString "x\x0c" ++ .char ' ' :: Text.ofString "y")).toBool =
      false := by decide +kernel
  rw [hset] at hrefused
  cases hrefused

end DeltaPreview.Latex
