import DeltaPreview.Proofs.Latex.Nesting

/-!
# What is open

The tokens of a formula alone say what is open at each place between them: groups, delimiters, environments and
the indices of roots (`Nest`).  A phrase that is accepted closes everything that it opens and nothing else, and
the separators and line ends in it that are inside of nothing are those at which it might have stopped
(`Phrase.Takes.leveled`).

Most brackets tell on their own what they open or close.  A closing bracket ends the index of a root only if no
command takes it as an argument, as the fraction does in `\sqrt[\frac]2]{x}`, so the arguments that are still to
come are counted; and the delimiter after `\left`, `\right` or `\big` is passed over.
-/

namespace DeltaPreview.Latex

/-! ### Tokens -/

/-- What a token says of the next one. -/
inductive Awaits where
  | nothing
  /-- The next token is a delimiter, and opens or closes nothing. -/
  | delimiter
  /-- The next token opens the index of a root if it is a bracket. -/
  | index
  deriving DecidableEq, Repr

namespace Meaning

def awaits : Meaning → Awaits
  | leftDelimiter => .delimiter
  | bigDelimiter => .delimiter
  | radical => .index
  | _ => .nothing

def arity : Meaning → Nat
  | fraction => 2
  | binomial => 2
  | radical => 1
  | accent _ => 1
  | font _ => 1
  | _ => 0

end Meaning

namespace Token

/-- What is awaited after a token. -/
def awaits (t : Token) : Awaits := if t = .word "right" then .delimiter else t.meaning.awaits

/-- How many arguments a token takes. -/
def arity (t : Token) : Nat := if t.isScript then 1 else t.meaning.arity

end Token

/-! ### Places -/

/-- What is open at a place between tokens. -/
structure Nest where
  awaits : Awaits
  /-- How many arguments are still to come. -/
  pending : Nat
  /-- The partners that are still to come, from the innermost on, and how many arguments are after them. -/
  opened : List (Token × Nat)
  deriving DecidableEq, Repr

namespace Nest

/-- Nothing is open. -/
def start : Nest := ⟨.nothing, 0, []⟩

/-- Whether a token closes what is innermost. -/
def closes (s : Nest) (t : Token) : Bool :=
  (t.isClosing || t == .closeBracket) && s.pending == 0 && s.opened.head?.any (·.1 == t)

/-- What is open after a token. -/
def step (s : Nest) (t : Token) : Nest :=
  if s.awaits = .delimiter then { s with awaits := .nothing }
  else if s.awaits = .index ∧ t = .openBracket then
    -- The index is no argument: those that were to come still are, after it.
    ⟨.nothing, 0, (.closeBracket, s.pending) :: s.opened⟩
  else if s.closes t then ⟨t.awaits, (s.opened.head?.map Prod.snd).getD 0, s.opened.tail⟩
  else match t.closing? with
    | some r => ⟨t.awaits, 0, (r, s.pending - 1) :: s.opened⟩
    | none => ⟨t.awaits, s.pending - 1 + t.arity, s.opened⟩

/-- What is open after some tokens. -/
def after (s : Nest) (ts : List Token) : Nest := ts.foldl step s

/-- Tokens, each with what is open before it. -/
def levels (s : Nest) : List Token → List (Token × List (Token × Nat))
  | [] => []
  | t :: ts => (t, s.opened) :: (s.step t).levels ts

end Nest

/-! ### Steps -/

namespace Token

/-- A token that may end a cell. -/
def isMark (t : Token) : Bool := t == .separator || t == .newRow

theorem eq_of_isMark {t : Token} (h : t.isMark = true) : t = .separator ∨ t = .newRow := by
  simpa [isMark] using h

theorem isMark_of_delimiter? {t : Token} {text : List Char} (h : t.delimiter? = some text) :
    t.isMark = false := by
  have hnone : separator.delimiter? = none ∧ newRow.delimiter? = none := by decide
  refine Bool.eq_false_iff.mpr fun hmark => ?_
  rcases eq_of_isMark hmark with rfl | rfl
  · rw [hnone.1] at h
    cases h
  · rw [hnone.2] at h
    cases h

theorem isMark_of_endsArgument {t : Token} (h : t.endsArgument = false) : t.isMark = false := by
  refine Bool.eq_false_iff.mpr fun hmark => ?_
  rcases eq_of_isMark hmark with rfl | rfl <;> cases h

theorem isMark_of_opening {t r : Token} (h : t.closing? = some r) : t.isMark = false := by
  refine Bool.eq_false_iff.mpr fun hmark => ?_
  rcases eq_of_isMark hmark with rfl | rfl <;> cases h

theorem isMark_of_isScript {t : Token} (h : t.isScript = true) : t.isMark = false := by
  rcases eq_of_isScript h with rfl | rfl <;> rfl

theorem awaits_of_meaning {t : Token} {m : Meaning} (h : t.meaning = m) (hm : m ≠ .strayEnd) :
    t.awaits = m.awaits := by
  have hright : t ≠ .word "right" := by
    rintro rfl
    exact hm h.symm
  rw [awaits, if_neg hright, h]

/-- A single code point says nothing of what follows it. -/
theorem awaits_glyph (g : CodePoint) : (glyph g).awaits = .nothing := by
  change (Meaning.ofGlyph g).awaits = .nothing
  exact Meaning.ofGlyph_cases (P := fun m => m.awaits = .nothing) rfl rfl rfl rfl fun _ _ _ => rfl

theorem awaits_of_isScript {t : Token} (h : t.isScript = true) : t.awaits = .nothing := by
  rcases eq_of_isScript h with rfl | rfl <;> exact awaits_glyph _

theorem isClosing_of_opening {t r : Token} (h : t.closing? = some r) : t.isClosing = false := by
  unfold closing? at h
  split at h
  · rfl
  · rfl
  · split at h
    · rename_i hname
      rw [hname]
      decide
    · cases h
  · cases h

end Token

namespace Nest

variable {s : Nest} {t r : Token} {k : Nat} {o : List (Token × Nat)}

theorem levels_cons (t : Token) (us : List Token) :
    s.levels (t :: us) = (t, s.opened) :: (s.step t).levels us := rfl

theorem after_append (us vs : List Token) : s.after (us ++ vs) = (s.after us).after vs :=
  List.foldl_append

theorem levels_append (us vs : List Token) :
    s.levels (us ++ vs) = s.levels us ++ (s.after us).levels vs := by
  induction us generalizing s with
  | nil => rfl
  | cons u us ih =>
    rw [List.cons_append, levels_cons, levels_cons, ih, List.cons_append]
    rfl

theorem map_fst_levels (us : List Token) : (s.levels us).map Prod.fst = us := by
  induction us generalizing s with
  | nil => rfl
  | cons u us ih => rw [levels_cons, List.map_cons, ih]

/-- A token is neither a delimiter nor the beginning of an index. -/
def Ready (s : Nest) (t : Token) : Prop :=
  s.awaits = .nothing ∨ s.awaits = .index ∧ t ≠ .openBracket

theorem closes_of_pending (h : 0 < s.pending) : s.closes t = false := by
  have hpending : (s.pending == 0) = false := beq_eq_false_iff_ne.mpr (Nat.ne_of_gt h)
  simp [closes, hpending]

theorem closes_of_closing? (h : t.closing? = some r) : s.closes t = false := by
  have hbracket : (t == .closeBracket) = false := by
    refine beq_eq_false_iff_ne.mpr ?_
    rintro rfl
    cases h
  simp [closes, hbracket, Token.isClosing_of_opening h]

theorem Ready.ordinary (hs : s.Ready t) :
    s.awaits ≠ .delimiter ∧ ¬ (s.awaits = .index ∧ t = .openBracket) := by
  rcases hs with h | ⟨h, ht⟩
  · simp [h]
  · simp [h, ht]

theorem step_opening (hs : s.Ready t) (h : t.closing? = some r) :
    s.step t = ⟨t.awaits, 0, (r, s.pending - 1) :: s.opened⟩ := by
  obtain ⟨hdelimiter, hindex⟩ := hs.ordinary
  rw [step, if_neg hdelimiter, if_neg hindex, if_neg (by simp [closes_of_closing? h]), h]

theorem step_plain (hs : s.Ready t) (hclose : s.closes t = false) (h : t.isPlain = true) :
    s.step t = ⟨t.awaits, s.pending - 1 + t.arity, s.opened⟩ := by
  obtain ⟨hdelimiter, hindex⟩ := hs.ordinary
  have hnone : t.closing? = none := by
    simp only [Token.isPlain, Bool.and_eq_true, Option.isNone_iff_eq_none] at h
    exact h.1
  rw [step, if_neg hdelimiter, if_neg hindex, if_neg (by simp [hclose]), hnone]

theorem step_closing (h : (t.isClosing || t == .closeBracket) = true) :
    (⟨.nothing, 0, (t, k) :: o⟩ : Nest).step t = ⟨t.awaits, k, o⟩ := by
  simp [step, closes, h]

/-- A separator and a row end leave everything as it is where they end a cell. -/
theorem step_mark (h : t.isMark = true) : (⟨.nothing, 0, o⟩ : Nest).step t = ⟨.nothing, 0, o⟩ := by
  rcases Token.eq_of_isMark h with rfl | rfl <;> rfl

/-- Only the partner that is to come next closes something. -/
theorem eq_of_closes (h : (⟨.nothing, 0, (r, k) :: o⟩ : Nest).closes t = true) : r = t := by
  simpa [closes] using (Bool.and_eq_true_iff.mp h).2

theorem closes_of_isScript (h : t.isScript = true) : s.closes t = false := by
  rcases Token.eq_of_isScript h with rfl | rfl <;> rfl

theorem step_script (h : t.isScript = true) :
    (⟨.nothing, 0, o⟩ : Nest).step t = ⟨.nothing, 1, o⟩ := by
  have harity : t.arity = 1 := if_pos h
  rw [step_plain (.inl rfl) (closes_of_isScript h) (Token.isPlain_of_isScript h),
    Token.awaits_of_isScript h, harity]
  rfl

theorem step_delimiter : (⟨.delimiter, k, o⟩ : Nest).step t = ⟨.nothing, k, o⟩ := if_pos rfl

theorem step_index :
    (⟨.index, k, o⟩ : Nest).step .openBracket = ⟨.nothing, 0, (.closeBracket, k) :: o⟩ := rfl

end Nest

/-! ### What phrases leave open -/

/-- Tokens lead from one nest to another and close nothing that was open before them.  Where nothing else is
open, those of them that may end a cell are borders of a certain kind. -/
structure Passes (border : Token → Prop) (s s' : Nest) (us : List Token) : Prop where
  after : s.after us = s'
  above : ∀ x ∈ s.levels us, s.opened <:+ x.2
  marked : ∀ x ∈ s.levels us, x.2 = s.opened → x.1.isMark = true → border x.1

namespace Passes

variable {border border' : Token → Prop} {s s' s'' inside : Nest} {us vs : List Token}
  {l r t : Token}

theorem nil : Passes border s s [] := ⟨rfl, by simp [Nest.levels], by simp [Nest.levels]⟩

theorem single (hstep : s.step t = s') (hmark : t.isMark = true → border t) :
    Passes border s s' [t] where
  after := hstep
  above := by simp [Nest.levels]
  marked := by simpa [Nest.levels] using hmark

theorem append (h : Passes border s s' us) (hsame : s'.opened = s.opened)
    (h' : Passes border s' s'' vs) : Passes border s s'' (us ++ vs) where
  after := by rw [Nest.after_append, h.after, h'.after]
  above := by
    intro x hx
    rw [Nest.levels_append, h.after] at hx
    rcases List.mem_append.mp hx with hx | hx
    · exact h.above x hx
    · exact hsame ▸ h'.above x hx
  marked := by
    intro x hx hlevel
    rw [Nest.levels_append, h.after] at hx
    rcases List.mem_append.mp hx with hx | hx
    · exact h.marked x hx hlevel
    · exact h'.marked x hx (hlevel.trans hsame.symm)

theorem cons (h : Passes border s s' [t]) (hsame : s'.opened = s.opened)
    (h' : Passes border s' s'' vs) : Passes border s s'' (t :: vs) := h.append hsame h'

theorem mono (h : Passes border s s' us)
    (hborder : ∀ t, t.isMark = true → border t → border' t) : Passes border' s s' us :=
  ⟨h.after, h.above, fun x hx hlevel hmark => hborder x.1 hmark (h.marked x hx hlevel hmark)⟩

/-- Tokens between two partners are inside of something else, whatever they are. -/
theorem enclosed {frame : Token × Nat} (hopen : s.step l = inside)
    (hframe : inside.opened = frame :: s.opened) (h : Passes border' inside s' us)
    (hsame : s'.opened = inside.opened) (hclose : s'.step r = s'') (hl : l.isMark = false) :
    Passes border s s'' (l :: (us ++ [r])) := by
  have hlevels : s.levels (l :: (us ++ [r])) =
      (l, s.opened) :: (inside.levels us ++ [(r, inside.opened)]) := by
    rw [Nest.levels_cons, hopen, Nest.levels_append, h.after, Nest.levels_cons, hsame]
    rfl
  -- The closing partner counts as inside, too: it is still to come where it stands.
  have hinside : ∀ x ∈ inside.levels us ++ [(r, inside.opened)], inside.opened <:+ x.2 := by
    intro x hx
    rcases List.mem_append.mp hx with hx | hx
    · exact h.above x hx
    · obtain rfl := List.mem_singleton.mp hx
      exact List.suffix_refl _
  have hbelow : s.opened <:+ inside.opened := hframe ▸ List.suffix_cons frame s.opened
  refine ⟨?_, ?_, ?_⟩
  · have hrest : inside.after (us ++ [r]) = s'' := by
      rw [Nest.after_append, h.after]
      exact hclose
    rw [← hrest, ← hopen]
    rfl
  · intro x hx
    rw [hlevels] at hx
    rcases List.mem_cons.mp hx with rfl | hx
    · exact List.suffix_refl _
    · exact hbelow.trans (hinside x hx)
  · intro x hx hlevel hmark
    rw [hlevels] at hx
    rcases List.mem_cons.mp hx with rfl | hx
    · rw [hl] at hmark
      cases hmark
    · -- What is inside is one level up at least.
      have hlength := (hinside x hx).length_le
      rw [hlevel, hframe, List.length_cons] at hlength
      omega

/-- Tokens between brackets. -/
theorem brackets {k : Nat} (hready : s.Ready l) (hpair : l.closing? = some r) (hk : k = s.pending - 1)
    (h : Passes border' ⟨l.awaits, 0, (r, k) :: s.opened⟩ ⟨.nothing, 0, (r, k) :: s.opened⟩ us) :
    Passes border s ⟨r.awaits, k, s.opened⟩ (l :: (us ++ [r])) := by
  subst hk
  have hclosing : (r.isClosing || r == .closeBracket) = true := by
    rw [isClosing_of_closing? hpair, Bool.true_or]
  exact .enclosed (Nest.step_opening hready hpair) rfl h rfl (Nest.step_closing hclosing)
    (Token.isMark_of_opening hpair)

/-- The first token of an element that is no bracket. -/
theorem command {m : Meaning} (hmeaning : t.meaning = m) (hm : m.isBracket = false)
    (hscript : t.isScript = false) (hready : s.Ready t) (hclose : s.closes t = false) :
    Passes (· = t) s ⟨m.awaits, s.pending - 1 + m.arity, s.opened⟩ [t] := by
  have hend : m ≠ .strayEnd := by
    rintro rfl
    cases hm
  have harity : t.arity = m.arity := by simp [Token.arity, hscript, hmeaning]
  have hplain := Token.isPlain_of_meaning (hmeaning ▸ hm)
  refine .single ?_ fun _ => rfl
  rw [Nest.step_plain hready hclose hplain, Token.awaits_of_meaning hmeaning hend, harity]

/-- A delimiter after the token that awaits it. -/
theorem delimiter {k : Nat} {o : List (Token × Nat)} {text : List Char}
    (h : t.delimiter? = some text) : Passes border ⟨.delimiter, k, o⟩ ⟨.nothing, k, o⟩ [t] := by
  refine .single Nest.step_delimiter fun hmark => ?_
  rw [Token.isMark_of_delimiter? h] at hmark
  cases hmark

end Passes

/-- No token that may end a cell is a border. -/
abbrev Inner : Nest → Nest → List Token → Prop := Passes fun _ => False

theorem Inner.passes {border : Token → Prop} {s s' : Nest} {us : List Token} (h : Inner s s' us) :
    Passes border s s' us := h.mono fun _ _ => False.elim

/-- What the tokens of a phrase, and those that are left, make of what is open.  A sequence stops at least where
what is innermost is closed. -/
def Phrase.Leveled : Phrase → List Token → List Token → Prop
  | sequence stop _, used, _ =>
    ∀ o, (∀ t, (⟨.nothing, 0, o⟩ : Nest).closes t = true → stop t = true) →
      Passes (fun t => stop t = false) ⟨.nothing, 0, o⟩ ⟨.nothing, 0, o⟩ used
  | scripts _ _, used, _ => ∀ o, Inner ⟨.nothing, 0, o⟩ ⟨.nothing, 0, o⟩ used
  | argument _, used, _ =>
    ∀ s : Nest, (∀ t ∈ used.head?, s.Ready t) → 0 < s.pending →
      Inner s ⟨.nothing, s.pending - 1, s.opened⟩ used
  | option _, used, rest =>
    used = [] ∧ rest.head? ≠ some .openBracket ∨
      ∀ k o, Inner ⟨.index, k, o⟩ ⟨.nothing, k, o⟩ used
  | rows environment _, used, _ =>
    ∃ inner, used = inner ++ [.ending environment] ∧
      ∀ k o, Passes (fun _ => True) ⟨.nothing, 0, (.ending environment, k) :: o⟩
        ⟨.nothing, 0, (.ending environment, k) :: o⟩ inner
  | element t _, used, _ =>
    ∀ s : Nest, t.isScript = false → s.Ready t → s.closes t = false →
      Passes (· = t) s ⟨.nothing, s.pending - 1, s.opened⟩ (t :: used)
  | columns _, used, _ => ∀ o, Inner ⟨.nothing, 0, o⟩ ⟨.nothing, 0, o⟩ used

section Leveled

variable {border : Token → Prop} {ms : List Math} {us rest : List Token}

theorem argument_passes (h : (Phrase.argument ms).Leveled us rest) (k : Nat)
    (o : List (Token × Nat)) : Passes border ⟨.nothing, k + 1, o⟩ ⟨.nothing, k, o⟩ us :=
  (h ⟨.nothing, k + 1, o⟩ (fun _ _ => .inl rfl) (Nat.succ_pos k)).passes

/-- A sequence between two partners stops at the second. -/
theorem sequence_passes {stop : Token → Bool} {r : Token}
    (h : (Phrase.sequence stop ms).Leveled us rest) (hstop : stop r = true) (k : Nat)
    (o : List (Token × Nat)) :
    Passes (fun t => stop t = false) ⟨.nothing, 0, (r, k) :: o⟩ ⟨.nothing, 0, (r, k) :: o⟩ us :=
  h _ fun _ hcloses => Nest.eq_of_closes hcloses ▸ hstop

/-- A script and its argument. -/
theorem script_passes {t : Token} (hscript : t.isScript = true)
    (h : (Phrase.argument ms).Leveled us rest) (o : List (Token × Nat)) :
    Passes border ⟨.nothing, 0, o⟩ ⟨.nothing, 0, o⟩ (t :: us) := by
  have hfirst : Passes border ⟨.nothing, 0, o⟩ ⟨.nothing, 1, o⟩ [t] :=
    .single (Nest.step_script hscript) (by simp [Token.isMark_of_isScript hscript])
  exact hfirst.cons rfl (argument_passes h 0 o)

/-- A group, wherever it stands. -/
theorem group_passes (h : (Phrase.sequence (stopAt .closeBrace) ms).Leveled us rest) {s : Nest}
    (hready : s.Ready .openBrace) :
    Passes border s ⟨.nothing, s.pending - 1, s.opened⟩ (.openBrace :: (us ++ [.closeBrace])) :=
  .brackets hready rfl rfl (sequence_passes h (beq_self_eq_true _) _ _)

/-- A cell before other cells of an environment. -/
theorem cell_passes {environment : String} {t : Token} {inner : List Token} {k : Nat}
    {o : List (Token × Nat)} (hmark : t.isMark = true)
    (h : (Phrase.sequence (stopAtCell environment) ms).Leveled us rest)
    (hinner : Passes (fun _ => True) ⟨.nothing, 0, (.ending environment, k) :: o⟩
      ⟨.nothing, 0, (.ending environment, k) :: o⟩ inner) :
    Passes (fun _ => True) ⟨.nothing, 0, (.ending environment, k) :: o⟩
      ⟨.nothing, 0, (.ending environment, k) :: o⟩ (us ++ t :: inner) := by
  have hcell := sequence_passes (r := .ending environment) h (by simp [stopAtCell]) k o
  have hrest := Passes.cons (.single (Nest.step_mark hmark) fun _ => trivial) rfl hinner
  exact (hcell.mono fun _ _ _ => trivial).append rfl hrest

end Leveled

namespace Phrase.Takes

/-- What the tokens of a phrase make of what is open. -/
theorem leveled {p : Phrase} {ts rest : List Token} (h : p.Takes ts rest) :
    ∃ used, ts = used ++ rest ∧ p.Leveled used rest := by
  -- Each rule takes one token or the tokens of its parts, one after the other, at the level where it began.
  induction h with
  | sequenceEnd | sequenceStop => exact ⟨[], rfl, fun o _ => .nil⟩
  | scriptsEnd | columnsNone => exact ⟨[], rfl, fun o => .nil⟩
  | optionNone hopen => exact ⟨[], rfl, .inl ⟨rfl, hopen⟩⟩
  | @sequenceScripts stop t _ _ _ _ _ _ _ hstop hscript _ _ _ iha ihs ihm =>
    obtain ⟨us, rfl, hus⟩ := iha
    obtain ⟨vs, rfl, hvs⟩ := ihs
    obtain ⟨ws, rfl, hws⟩ := ihm
    refine ⟨t :: us ++ vs ++ ws, by simp, fun o ho => ?_⟩
    exact ((script_passes hscript hus o).append rfl (hvs o).passes).append rfl (hws o ho)
  | @sequenceElement stop t _ _ _ _ _ _ _ hstop hscript _ _ _ ihb ihs ihm =>
    obtain ⟨us, rfl, hus⟩ := ihb
    obtain ⟨vs, rfl, hvs⟩ := ihs
    obtain ⟨ws, rfl, hws⟩ := ihm
    refine ⟨t :: us ++ vs ++ ws, by simp, fun o ho => ?_⟩
    -- The sequence would have stopped at a token that closes something.
    have hclose : (⟨.nothing, 0, o⟩ : Nest).closes t = false :=
      Bool.eq_false_iff.mpr fun hclose => by simp [ho t hclose] at hstop
    have hbase : Passes (fun t => stop t = false) ⟨.nothing, 0, o⟩ ⟨.nothing, 0, o⟩ (t :: us) :=
      (hus _ hscript (.inl rfl) hclose).mono fun _ _ ht => ht ▸ hstop
    exact (hbase.append rfl (hvs o).passes).append rfl (hws o ho)
  | @scriptsMore _ _ t _ _ _ _ hscript _ _ _ iha ihm =>
    obtain ⟨us, rfl, hus⟩ := iha
    obtain ⟨vs, rfl, hvs⟩ := ihm
    exact ⟨t :: us ++ vs, by simp, fun o => (script_passes hscript hus o).append rfl (hvs o)⟩
  | argumentGroup _ ih =>
    obtain ⟨us, rfl, hus⟩ := ih
    exact ⟨.openBrace :: (us ++ [.closeBrace]), by simp,
      fun s hready _ => group_passes hus (hready _ rfl)⟩
  | @argumentElement _ t _ _ hend hopen _ ih =>
    obtain ⟨us, rfl, hus⟩ := ih
    refine ⟨t :: us, rfl, fun s hready hpending => ?_⟩
    have helement := hus s (Token.isScript_of_endsArgument hend) (hready t rfl)
      (Nest.closes_of_pending hpending)
    refine helement.mono fun u hmark hu => ?_
    rw [hu, Token.isMark_of_endsArgument hend] at hmark
    cases hmark
  | optionSome _ ih =>
    obtain ⟨us, rfl, hus⟩ := ih
    refine ⟨.openBracket :: (us ++ [.closeBracket]), by simp, .inr fun k o => ?_⟩
    have hinside := sequence_passes (r := .closeBracket) hus (beq_self_eq_true _) k o
    refine .enclosed Nest.step_index rfl hinside rfl ?_ rfl
    rw [Nest.step_closing rfl, Token.awaits_glyph]
  | @rowsEnd environment _ _ _ _ ih =>
    obtain ⟨us, rfl, hus⟩ := ih
    refine ⟨us ++ [.ending environment], by simp, us, rfl, fun k o => ?_⟩
    exact (sequence_passes hus (by simp [stopAtCell]) k o).mono fun _ _ _ => trivial
  | @rowsCell environment _ _ _ _ _ _ _ ihc ihm =>
    obtain ⟨us, rfl, hus⟩ := ihc
    obtain ⟨-, rfl, inner, rfl, hinner⟩ := ihm
    exact ⟨us ++ .separator :: inner ++ [.ending environment], by simp, us ++ .separator :: inner,
      rfl, fun k o => cell_passes rfl hus (hinner k o)⟩
  | @rowsRow environment _ _ _ _ _ _ _ ihc ihm =>
    obtain ⟨us, rfl, hus⟩ := ihc
    obtain ⟨-, rfl, inner, rfl, hinner⟩ := ihm
    exact ⟨us ++ .newRow :: inner ++ [.ending environment], by simp, us ++ .newRow :: inner,
      rfl, fun k o => cell_passes rfl hus (hinner k o)⟩
  | leaf hmeaning | space hmeaning | newline hmeaning =>
    exact ⟨[], rfl, fun s hscript hready hclose => .command hmeaning rfl hscript hready hclose⟩
  | group hmeaning _ ih =>
    obtain ⟨us, rfl, hus⟩ := ih
    obtain rfl := Token.eq_openBrace hmeaning
    exact ⟨us ++ [.closeBrace], by simp, fun s _ hready _ => group_passes hus hready⟩
  | fraction hmeaning _ _ ih ih' | binomial hmeaning _ _ ih ih' =>
    obtain ⟨us, rfl, hus⟩ := ih
    obtain ⟨vs, rfl, hvs⟩ := ih'
    refine ⟨us ++ vs, by simp, fun s hscript hready hclose => ?_⟩
    have hcommand := Passes.command hmeaning rfl hscript hready hclose
    exact hcommand.cons rfl ((argument_passes hus _ _).append rfl (argument_passes hvs _ _))
  | radical hmeaning _ _ ih ih' =>
    obtain ⟨us, rfl, hus⟩ := ih
    obtain ⟨vs, rfl, hvs⟩ := ih'
    refine ⟨us ++ vs, by simp, fun s hscript hready hclose => ?_⟩
    have hcommand := Passes.command hmeaning rfl hscript hready hclose
    refine hcommand.cons rfl ?_
    rcases hus with ⟨rfl, hnone⟩ | hus
    · -- The argument does not begin with a bracket: that would have been an index.
      refine (hvs _ (fun t ht => .inr ⟨rfl, ?_⟩) (Nat.succ_pos _)).passes
      rintro rfl
      rw [List.head?_append, Option.mem_def.mp ht] at hnone
      exact hnone rfl
    · exact (hus _ _).passes.append rfl (argument_passes hvs _ _)
  | accent hmeaning _ ih | font hmeaning _ ih =>
    obtain ⟨us, rfl, hus⟩ := ih
    refine ⟨us, rfl, fun s hscript hready hclose => ?_⟩
    have hcommand := Passes.command hmeaning rfl hscript hready hclose
    exact hcommand.cons rfl (argument_passes hus _ _)
  | @bigDelimiter t d _ _ hmeaning hdelimiter =>
    refine ⟨[d], rfl, fun s hscript hready hclose => ?_⟩
    have hcommand := Passes.command hmeaning rfl hscript hready hclose
    exact hcommand.cons rfl (.delimiter hdelimiter)
  | @delimiters t l r _ _ _ _ _ hmeaning hleft _ hright ih =>
    obtain ⟨us, rfl, hus⟩ := ih
    obtain rfl := Token.eq_left hmeaning
    refine ⟨l :: us ++ .word "right" :: [r], by simp, fun s _ hready _ => ?_⟩
    have hinside := sequence_passes hus (beq_self_eq_true _) (s.pending - 1) s.opened
    have hbody := (Passes.delimiter hleft).cons rfl hinside
    have hpair : Passes (· = .word "left") s ⟨.delimiter, s.pending - 1, s.opened⟩
        (.word "left" :: (l :: us ++ [.word "right"])) := .brackets hready rfl rfl hbody
    simpa using hpair.append rfl (.delimiter hright)
  | @environment _ name _ _ _ _ _ hmeaning _ _ _ ihc ihr =>
    obtain ⟨us, rfl, hus⟩ := ihc
    obtain ⟨-, rfl, inner, rfl, hinner⟩ := ihr
    obtain rfl := Token.eq_beginning hmeaning
    refine ⟨us ++ inner ++ [Token.ending name], by simp, fun s _ hready _ => ?_⟩
    exact .brackets hready rfl rfl ((hus _).passes.append rfl (hinner _ _))
  | columnsSome _ ih =>
    obtain ⟨us, rfl, hus⟩ := ih
    exact ⟨.openBrace :: (us ++ [.closeBrace]), by simp,
      fun o => group_passes (s := ⟨.nothing, 0, o⟩) hus (.inl rfl)⟩

end Phrase.Takes

end DeltaPreview.Latex
