import DeltaPreview.Proofs.Latex.Cursor
import DeltaPreview.Proofs.Latex.Lexical
import DeltaPreview.Proofs.Latex.Presentation
import DeltaPreview.Proofs.Latex.Symbol

/-!
# Every source is set or refused for a reason

The parser comes to an end on all tokens (`progress`): its position stays within them, every pass of a loop
takes a token, leaves the loop or finds a fault, no element is looked for at the end, and what is parsed as a
whole formula is all of the tokens.

A source is set, or it breaks a rule of the notation, or it holds something that markup cannot hold, and only
such a source is refused for it (`typesetter_outcome`): what a leaf is made of stands in the source
(`Token.fitsMarkup_of_leaf`), or in a table whose characters markup can hold.
-/

namespace DeltaPreview.Latex

/-! ### Leaves that markup cannot hold -/

namespace Meaning

/-- A meaning whose leaf, if it is one, can stand in markup. -/
def fitsMarkup : Meaning → Bool
  | leaf _ text _ _ => text.fitsMarkup
  | _ => true

/-- A table of characters that markup can hold. -/
def tableFits {α : Type} (entries : List (α × Char)) : Bool := entries.all fun p => compatibleChar p.2

/-- The characters and names of the tables can stand in markup. -/
theorem tables_fit :
    tableFits greekLetters = true ∧ tableFits operators = true ∧ tableFits symbolWords = true ∧
    tableFits largeOperators = true ∧ tableFits symbolEscapes = true ∧
    tableFits operatorGlyphs = true ∧
    (functions.all fun name => (Text.ofString name).fitsMarkup) = true := by
  decide

/-- The character of an entry of such a table, as a text. -/
theorem fitsMarkup_of_tableFits {α : Type} [BEq α] [LawfulBEq α] {key : α} {entries : List (α × Char)}
    {c : Char} (htable : tableFits entries = true) (h : entries.lookup key = some c) :
    Text.fitsMarkup [.char c] = true := by
  have hc := List.all_eq_true.mp htable (key, c) (mem_of_lookup h)
  simpa [Text.fitsMarkup] using hc

/-- A leaf that is made of an entry of a table of characters. -/
theorem fitsMarkup_of_lookup {α : Type} [BEq α] [LawfulBEq α] {key : α} {entries : List (α × Char)}
    (htable : tableFits entries = true) (kind : LeafKind) (role : LeafRole) {m : Meaning}
    (h : some m = (entries.lookup key).map fun c => leaf kind [.char c] role none) :
    m.fitsMarkup = true := by
  obtain ⟨c, hc, rfl⟩ := Option.map_eq_some_iff.mp h.symm
  exact fitsMarkup_of_tableFits htable hc

theorem fitsMarkup_of_map {α : Type} {found : Option α} {f : α → Meaning}
    (hf : ∀ a, (f a).fitsMarkup = true) {m : Meaning} (h : some m = found.map f) :
    m.fitsMarkup = true := by
  obtain ⟨a, -, rfl⟩ := Option.map_eq_some_iff.mp h.symm
  exact hf a

theorem fitsMarkup_of_when {condition : Bool} {n m : Meaning}
    (hn : condition = true → n.fitsMarkup = true) (h : some m = when condition n) :
    m.fitsMarkup = true := by
  obtain ⟨hcondition, rfl⟩ := when_eq_some.mp h.symm
  exact hn hcondition

/-- The leaf of a control word comes from a table. -/
theorem fitsMarkup_ofWord (name : String) : (ofWord name).fitsMarkup = true := by
  obtain ⟨hgreek, hoperators, hsymbols, hlarge, -, -, hfunctions⟩ := tables_fit
  by_cases hundefined : ofWord name = undefined
  · rw [hundefined]
    rfl
  have hmem := mem_of_first rfl hundefined
  rw [← ofWord] at hmem
  generalize ofWord name = m at hmem
  -- One case for every entry of the list of candidates.
  simp only [List.mem_cons, List.not_mem_nil, or_false] at hmem
  rcases hmem with h | h | h | h | h | h | h | h | h | h | h | h | h | h | h
  · exact fitsMarkup_of_lookup hgreek .identifier .plain h
  · exact fitsMarkup_of_lookup hoperators .operator .plain h
  · exact fitsMarkup_of_lookup hsymbols .operator .plain h
  · exact fitsMarkup_of_map (fun _ => rfl) h
  · have hfunction (hname : functions.contains name = true) : (identifier name).fitsMarkup = true :=
      List.all_eq_true.mp hfunctions name (List.contains_iff_mem.mp hname)
    exact fitsMarkup_of_when hfunction h
  · exact fitsMarkup_of_lookup hlarge .operator .large h
  · exact fitsMarkup_of_when (fun _ => rfl) h
  · exact fitsMarkup_of_when (fun _ => rfl) h
  · exact fitsMarkup_of_when (fun _ => rfl) h
  · exact fitsMarkup_of_map (fun _ => rfl) h
  · exact fitsMarkup_of_map (fun _ => rfl) h
  all_goals exact fitsMarkup_of_when (fun _ => rfl) h

/-- So does that of a backslash and a character. -/
theorem fitsMarkup_ofEscape (g : CodePoint) : (ofEscape g).fitsMarkup = true := by
  obtain ⟨-, -, -, -, hescapes, -⟩ := tables_fit
  unfold ofEscape
  split
  · rfl
  · rename_i c _
    by_cases hundefined : first [(symbolEscapes.lookup c).map operator,
        (spaceEscapes.lookup c).map space] = undefined
    · rw [hundefined]
      rfl
    have hmem := mem_of_first rfl hundefined
    generalize first [(symbolEscapes.lookup c).map operator,
      (spaceEscapes.lookup c).map space] = m at hmem ⊢
    simp only [List.mem_cons, List.not_mem_nil, or_false] at hmem
    rcases hmem with h | h
    · exact fitsMarkup_of_lookup hescapes .operator .plain h
    · exact fitsMarkup_of_map (fun _ => rfl) h
  · rfl

/-- The leaf of a code point is the code point itself, or it comes from a table. -/
theorem fitsMarkup_ofGlyph {g : CodePoint} (hg : Text.fitsMarkup [g] = true) :
    (ofGlyph g).fitsMarkup = true := by
  obtain ⟨-, -, -, -, -, hglyphs, -⟩ := tables_fit
  unfold ofGlyph
  split
  · rfl
  · rfl
  · rfl
  · rfl
  · split
    · exact hg
    · split
      · exact hg
      · split
        · rename_i c hc
          obtain ⟨d, -, hd⟩ := Option.bind_eq_some_iff.mp hc
          exact fitsMarkup_of_tableFits hglyphs hd
        · exact hg

/-- The text of a text command stands between its braces. -/
theorem fitsMarkup_ofTextCommand {command : String} {body : Text} (hbody : body.fitsMarkup = true) :
    (ofTextCommand command body).fitsMarkup = true := by
  unfold ofTextCommand
  split
  · exact Text.fitsMarkup_of_subset hbody (Text.trim_subset body)
  · exact hbody

end Meaning

/-- Markup can hold the leaf of a token if it can hold the token. -/
theorem Token.fitsMarkup_meaning {t : Token} (h : t.spelled.fitsMarkup = true) :
    t.meaning.fitsMarkup = true := by
  cases t with
  | word name => exact Meaning.fitsMarkup_ofWord name
  | symbol g => exact Meaning.fitsMarkup_ofEscape g
  | backslash => rfl
  | text command gap body =>
    refine Meaning.fitsMarkup_ofTextCommand (Text.fitsMarkup_of_subset h fun g hg => ?_)
    simp [spelled, braced, hg]
  | beginning environment => rfl
  | ending environment => rfl
  | number digits => exact h
  | glyph g => exact Meaning.fitsMarkup_ofGlyph h

/-! ### Faults and their reasons -/

namespace Cursor

/-- A fault that the parser may find in some tokens: a broken rule, but not that a formula is over before its
tokens are, or a token that markup cannot hold. -/
def Justified (tokens : List Token) : Fault → Prop
  | .malformed fault => ∀ t, fault ≠ .unexpected t
  | .refused _ => ∃ t ∈ tokens, t.spelled.fitsMarkup = false

/-- A run finds justified faults only. -/
def Sound (tokens : List Token) {α : Type} (run : Run α) : Prop :=
  ∀ fault, run = .error (.fault fault) → Justified tokens fault

section Sound

variable {tokens : List Token} {steps pos : Nat}

theorem Sound.ok {α : Type} (a : α) : Sound tokens (.ok a : Run α) := by
  rintro _ ⟨⟩

theorem Sound.outOfSteps {α : Type} : Sound tokens (.error .outOfSteps : Run α) := by
  rintro _ ⟨⟩

theorem Sound.malformed {α : Type} {fault : SyntaxFault} (h : ∀ t, fault ≠ .unexpected t) :
    Sound tokens (.error (.fault (.malformed fault)) : Run α) := by
  rintro _ ⟨⟩
  exact h

theorem Sound.bind {α β : Type} {run : Run α} {more : α → Run β} (h : Sound tokens run)
    (hmore : ∀ a, Sound tokens (more a)) : Sound tokens (run >>= more) := by
  intro fault hfault
  cases run with
  | error halt =>
    cases hfault
    exact h fault rfl
  | ok a => exact hmore a fault hfault

theorem expect_sound (mark : Token) (pos : Nat) : Sound tokens (expect tokens mark pos) := by
  unfold expect
  simp only
  split
  · exact .ok _
  · exact .malformed (by rintro _ ⟨⟩)

theorem delimiter_sound (command : Token) (pos : Nat) :
    Sound tokens (delimiter tokens command pos) := by
  unfold delimiter
  simp only
  split
  · exact .ok _
  · exact .malformed (by rintro _ ⟨⟩)

/-- All routines find justified faults only. -/
structure AllSound (tokens : List Token) (steps : Nat) : Prop where
  sequence : ∀ stop pos, Sound tokens (sequence tokens stop steps pos)
  sequencePass : ∀ stop pos, Sound tokens (sequencePass tokens stop steps pos)
  scripts : ∀ found pos, Sound tokens (scripts tokens found steps pos)
  scriptsPass : ∀ found pos, Sound tokens (scriptsPass tokens found steps pos)
  argument : ∀ pos, Sound tokens (argument tokens steps pos)
  group : ∀ pos, Sound tokens (group tokens steps pos)
  optionalArgument : ∀ pos, Sound tokens (optionalArgument tokens steps pos)
  rows : ∀ environment pos, Sound tokens (rows tokens environment steps pos)
  rowsPass : ∀ environment pos, Sound tokens (rowsPass tokens environment steps pos)
  element : ∀ pos, Sound tokens (element tokens steps pos)
  columns : ∀ environment pos, Sound tokens (columns tokens environment steps pos)

theorem sequencePass_sound (ih : AllSound tokens steps) (stop : Token → Bool) :
    Sound tokens (sequencePass tokens stop (steps + 1) pos) := by
  rw [sequencePass]
  split
  · exact .ok _
  · split
    · exact .ok _
    · split
      · exact (ih.scripts _ _).bind fun _ => .ok _
      · exact (ih.element _).bind fun _ => (ih.scripts _ _).bind fun _ => .ok _

theorem ne_unexpected_of_double? {found : Scripts Math} {t : Token} {fault : SyntaxFault}
    (h : found.double? t = some fault) (u : Token) : fault ≠ .unexpected u := by
  unfold Scripts.double? at h
  split at h
  · obtain ⟨_, -, rfl⟩ := Option.map_eq_some_iff.mp h
    rintro ⟨⟩
  · obtain ⟨_, -, rfl⟩ := Option.map_eq_some_iff.mp h
    rintro ⟨⟩

theorem scriptsPass_sound (ih : AllSound tokens steps) (found : Scripts Math) :
    Sound tokens (scriptsPass tokens found (steps + 1) pos) := by
  rw [scriptsPass]
  split
  · exact .ok _
  · split
    · split
      · rename_i hdouble
        exact .malformed (ne_unexpected_of_double? hdouble)
      · exact (ih.argument _).bind fun _ => .ok _
    · exact .ok _

theorem rowsPass_sound (ih : AllSound tokens steps) (environment : String) :
    Sound tokens (rowsPass tokens environment (steps + 1) pos) := by
  rw [rowsPass]
  refine (ih.sequence _ _).bind fun found => ?_
  simp only
  split
  · exact .ok _
  · split
    · exact .ok _
    · split
      · exact .ok _
      · exact .malformed (by rintro _ ⟨⟩)

theorem argument_sound (ih : AllSound tokens steps) :
    Sound tokens (argument tokens (steps + 1) pos) := by
  rw [argument]
  split
  · exact .malformed (by rintro _ ⟨⟩)
  · split
    · exact .malformed (by rintro _ ⟨⟩)
    · split
      · exact ih.group _
      · exact ih.element _

theorem leafOf_eq_error {kind : LeafKind} {text : Text} {role : LeafRole} {variant : Option Variant}
    {fault : Fault} (h : leafOf (α := Math) kind text role variant = .error fault) :
    text.fitsMarkup = false ∧ ∃ refusal, fault = .refused refusal := by
  unfold leafOf at h
  split at h
  · rename_i refusal hrefused
    cases h
    exact ⟨Text.fitsMarkup_of_toMarkup_eq_error hrefused, refusal, rfl⟩
  · cases h

/-- The leaf of a token is refused only if markup cannot hold the token. -/
theorem leaf_sound {t : Token} (ht : t ∈ tokens) {kind : LeafKind} {text : Text} {role : LeafRole}
    {variant : Option Variant} (hmeaning : t.meaning = .leaf kind text role variant) {fault : Fault}
    (h : leafOf (α := Math) kind text role variant = .error fault) : Justified tokens fault := by
  obtain ⟨htext, refusal, rfl⟩ := leafOf_eq_error h
  refine ⟨t, ht, Bool.eq_false_iff.mpr fun hfits => ?_⟩
  have hleaf := Token.fitsMarkup_meaning hfits
  rw [hmeaning] at hleaf
  rw [Meaning.fitsMarkup, htext] at hleaf
  cases hleaf

theorem element_sound (ih : AllSound tokens steps) :
    Sound tokens (element tokens (steps + 1) pos) := by
  rw [element]
  cases hcurrent : tokens[pos]? with
  | none =>
    rw [advance_of_none hcurrent]
    rintro _ ⟨⟩
  | some t =>
    rw [advance_of_some hcurrent]
    simp only
    cases hmeaning : t.meaning with
    | leaf kind text role variant =>
      simp only
      cases hleaf : leafOf (α := Math) kind text role variant with
      | error fault =>
        rintro _ ⟨⟩
        exact leaf_sound (List.mem_of_getElem? hcurrent) hmeaning hleaf
      | ok m => exact .ok _
    | space | newline => exact .ok _
    | group => exact (ih.group _).bind fun _ => .ok _
    | fraction | binomial => exact (ih.argument _).bind fun _ => (ih.argument _).bind fun _ => .ok _
    | radical => exact (ih.optionalArgument _).bind fun _ => (ih.argument _).bind fun _ => .ok _
    | accent | font => exact (ih.argument _).bind fun _ => .ok _
    | bigDelimiter => exact (delimiter_sound _ _).bind fun _ => .ok _
    | leftDelimiter =>
      refine (delimiter_sound _ _).bind fun _ => (ih.sequence _ _).bind fun found => ?_
      split
      · exact (delimiter_sound _ _).bind fun _ => .ok _
      · exact .malformed (by rintro _ ⟨⟩)
    | environment name =>
      simp only
      split
      · exact .malformed (by rintro _ ⟨⟩)
      · exact (ih.columns _ _).bind fun _ => (ih.rows _ _).bind fun _ => .ok _
    | namelessEnvironment | strayBrace | straySeparator | strayEnd | undefined =>
      exact .malformed (by rintro _ ⟨⟩)

theorem allSound (tokens : List Token) (steps : Nat) : AllSound tokens steps := by
  induction steps with
  | zero => constructor <;> intros <;> exact .outOfSteps
  | succ steps ih =>
    exact {
      sequence := fun stop pos => by
        rw [sequence]
        refine (ih.sequencePass _ _).bind fun pass => ?_
        split
        · exact .ok _
        · exact (ih.sequence _ _).bind fun _ => .ok _
      sequencePass := fun stop pos => sequencePass_sound ih stop
      scripts := fun found pos => by
        rw [scripts]
        refine (ih.scriptsPass _ _).bind fun pass => ?_
        split
        · exact .ok _
        · exact ih.scripts _ _
      scriptsPass := fun found pos => scriptsPass_sound ih found
      argument := fun pos => argument_sound ih
      group := fun pos => by
        rw [group]
        exact (ih.sequence _ _).bind fun _ => (expect_sound _ _).bind fun _ => .ok _
      optionalArgument := fun pos => by
        rw [optionalArgument]
        split
        · exact (ih.sequence _ _).bind fun _ => (expect_sound _ _).bind fun _ => .ok _
        · exact .ok _
      rows := fun environment pos => by
        rw [rows]
        refine (ih.rowsPass _ _).bind fun pass => ?_
        split
        · exact .ok _
        · exact (ih.rows _ _).bind fun _ => .ok _
      rowsPass := fun environment pos => rowsPass_sound ih environment
      element := fun pos => element_sound ih
      columns := fun environment pos => by
        rw [columns]
        split
        · exact (ih.group _).bind fun _ => .ok _
        · exact .ok _ }

end Sound

/-! ### How routines end -/

/-- A routine of the parser, with what it is called with. -/
inductive Routine where
  | sequence (stop : Token → Bool)
  | sequencePass (stop : Token → Bool)
  | scripts (found : Scripts Math)
  | scriptsPass (found : Scripts Math)
  | argument
  | group
  | optionalArgument
  | rows (environment : String)
  | rowsPass (environment : String)
  | element
  | columns (environment : String)

namespace Routine

/-- Where a run of a routine ends. -/
def run (tokens : List Token) (steps pos : Nat) : Routine → Run Nat
  | sequence stop => (Cursor.sequence tokens stop steps pos).map Prod.snd
  | sequencePass stop => (Cursor.sequencePass tokens stop steps pos).map Prod.snd
  | scripts found => (Cursor.scripts tokens found steps pos).map Prod.snd
  | scriptsPass found => (Cursor.scriptsPass tokens found steps pos).map Prod.snd
  | argument => (Cursor.argument tokens steps pos).map Prod.snd
  | group => (Cursor.group tokens steps pos).map Prod.snd
  | optionalArgument => (Cursor.optionalArgument tokens steps pos).map Prod.snd
  | rows environment => (Cursor.rows tokens environment steps pos).map Prod.snd
  | rowsPass environment => (Cursor.rowsPass tokens environment steps pos).map Prod.snd
  | element => (Cursor.element tokens steps pos).map Prod.snd
  | columns environment => (Cursor.columns tokens environment steps pos).map Prod.snd

/-- Where a routine may be called: anywhere, but an element must have a token. -/
def Callable (tokens : List Token) (pos : Nat) : Routine → Prop
  | element => pos < tokens.length
  | _ => pos ≤ tokens.length

/-- The steps that a routine needs beside those for the tokens that are left. -/
def extraSteps : Routine → Nat
  | sequence _ => 4
  | sequencePass _ => 3
  | scripts _ => 2
  | scriptsPass _ => 1
  | argument => 2
  | group => 5
  | optionalArgument => 1
  | rows _ => 6
  | rowsPass _ => 5
  | element => 1
  | columns _ => 1

end Routine

/-- How a run may end: with a fault, at a position that is further on and within the tokens, or without
steps for a reason. -/
inductive Ends (tokens : List Token) (reason : Prop) (pos : Nat) : Run Nat → Prop
  | fault (fault : Fault) : Ends tokens reason pos (.error (.fault fault))
  | within {next : Nat} (hle : pos ≤ next) (hnext : next ≤ tokens.length) :
      Ends tokens reason pos (.ok next)
  | outOfSteps (hreason : reason) : Ends tokens reason pos (.error .outOfSteps)

section Ends

variable {tokens : List Token} {reason : Prop} {pos : Nat}

theorem Follows.ends {α : Type} {bound : Nat} {run : Run (α × Nat)} {parsed : Parse α bound}
    (h : Follows tokens reason run parsed) (hpos : pos ≤ tokens.length)
    (hbound : bound ≤ (tokens.drop pos).length + 1) : Ends tokens reason pos (run.map Prod.snd) := by
  cases h with
  | outOfSteps hreason => exact .outOfSteps hreason
  | fault e => exact .fault e
  | @done _ next hshorter hnext =>
    refine .within ?_ hnext
    simp only [List.length_drop] at hbound hshorter
    omega

theorem PassFollows.ends {α β : Type} {bound : Nat} {run : Run (Pass α β × Nat)}
    {whole : Parse β bound} {continues : α → Nat → Prop}
    (h : PassFollows tokens reason pos whole continues run) :
    Ends tokens reason pos (run.map Prod.snd) := by
  cases h with
  | outOfSteps hreason => exact .outOfSteps hreason
  | fault => exact .fault _
  | leave hle hnext => exact .within hle hnext
  | goOn hlt hnext => exact .within (Nat.le_of_lt hlt) hnext

/-- Where the other parser succeeds, the run does with the same value, if the steps are not used up. -/
theorem Follows.of_ok {α : Type} {bound : Nat} {run : Run (α × Nat)} {value : α} {rest : List Token}
    {hbound : rest.length < bound} (h : Follows tokens reason run (.ok ⟨value, rest, hbound⟩)) :
    reason ∨ ∃ next, next ≤ tokens.length ∧ run = .ok (value, next) ∧ rest = tokens.drop next := by
  cases h with
  | outOfSteps hreason => exact .inl hreason
  | done hnext => exact .inr ⟨_, hnext, rfl, rfl⟩

/-- A loop that goes on after a pass has taken a token. -/
theorem PassFollows.lt_of_goOn {α β : Type} {bound : Nat} {run : Run (Pass α β × Nat)}
    {whole : Parse β bound} {continues : α → Nat → Prop}
    (h : PassFollows tokens reason pos whole continues run) {found : α} {next : Nat}
    (hrun : run = .ok (.goOn found, next)) : pos < next := by
  cases h with
  | goOn hlt =>
    cases hrun
    exact hlt
  | _ => cases hrun

theorem routine_ends (r : Routine) (steps : Nat) (h : r.Callable tokens pos) :
    Ends tokens (steps < 6 * (tokens.length - pos) + r.extraSteps) pos (r.run tokens steps pos) := by
  have hall := allFollow tokens steps
  cases r with
  | sequence stop => exact (hall.sequence stop pos h).ends h (Nat.le_refl _)
  | sequencePass stop => exact (hall.sequencePass stop pos h).ends
  | scripts found => exact (hall.scripts found pos h).ends h (Nat.le_refl _)
  | scriptsPass found => exact (hall.scriptsPass found pos h).ends
  | argument => exact (hall.argument pos h).ends h (Nat.le_add_right _ 1)
  | group => exact (hall.group pos h).ends h (Nat.le_add_right _ 1)
  | optionalArgument => exact (hall.optionalArgument pos h).ends h (Nat.le_refl _)
  | rows environment => exact (hall.rows environment pos h).ends h (Nat.le_add_right _ 1)
  | rowsPass environment => exact (hall.rowsPass environment pos h).ends
  | element =>
    have hcurrent : tokens[pos]? = some tokens[pos] := List.getElem?_eq_getElem h
    refine (hall.element _ pos hcurrent).ends (Nat.le_of_lt h) ?_
    simp only [List.length_drop]
    omega
  | columns environment => exact (hall.columns environment pos h).ends h (Nat.le_refl _)

end Ends

/-- The parser comes to an end on some tokens, and in one of the ways in which it should. -/
structure Progress (tokens : List Token) : Prop where
  /-- The position does not pass the end of the tokens. -/
  within : ∀ (r : Routine) (steps pos next : Nat), r.Callable tokens pos →
    r.run tokens steps pos = .ok next → pos ≤ next ∧ next ≤ tokens.length
  /-- No element is looked for at the end of the tokens. -/
  token : ∀ (r : Routine) (steps pos : Nat), r.Callable tokens pos →
    r.run tokens steps pos ≠ .error .noToken
  /-- Every routine comes to an end. -/
  ends : ∀ (r : Routine) (steps pos : Nat), r.Callable tokens pos →
    6 * (tokens.length - pos) + r.extraSteps ≤ steps → r.run tokens steps pos ≠ .error .outOfSteps
  /-- A sequence goes on only after a token is taken. -/
  sequencePass : ∀ stop steps pos ms next, pos ≤ tokens.length →
    Cursor.sequencePass tokens stop steps pos = .ok (.goOn ms, next) → pos < next
  /-- So do scripts. -/
  scriptsPass : ∀ found steps pos more next, pos ≤ tokens.length →
    Cursor.scriptsPass tokens found steps pos = .ok (.goOn more, next) → pos < next
  /-- So do the cells of an environment. -/
  rowsPass : ∀ environment steps pos cell next, pos ≤ tokens.length →
    Cursor.rowsPass tokens environment steps pos = .ok (.goOn cell, next) → pos < next
  /-- With steps enough, the whole run finds the fault of the parser, or it has taken all tokens. -/
  whole : ∀ steps, 6 * tokens.length + 4 ≤ steps →
    (∃ fault, Cursor.sequence tokens stopNever steps 0 = .error (.fault fault) ∧
      parse tokens = .error fault) ∨
    ∃ ms, Cursor.sequence tokens stopNever steps 0 = .ok (ms, tokens.length) ∧ parse tokens = .ok ms
  /-- A formula is never over before its tokens are. -/
  complete : ∀ t, parse tokens ≠ .error (.malformed (.unexpected t))
  /-- The elements of a layout are built in the same run. -/
  elements : ∀ layout,
    (parseAs (Element layout) tokens).map Element.nodes = (parse tokens).map (markups layout)

/-- A sequence leaves nothing, or a token at which it stops. -/
theorem stops_of_takes {p : Phrase} {ts rest : List Token} (h : p.Takes ts rest)
    {stop : Token → Bool} {ms : List Math} (hp : p = .sequence stop ms) :
    ∀ t ∈ rest.head?, stop t = true := by
  induction h generalizing ms with
  | sequenceEnd =>
    intro t ht
    cases ht
  | sequenceStop hstop =>
    cases hp
    intro t ht
    cases ht
    exact hstop
  | sequenceScripts _ _ _ _ _ _ _ ihm =>
    cases hp
    exact ihm rfl
  | sequenceElement _ _ _ _ _ _ _ ihm =>
    cases hp
    exact ihm rfl
  | _ => cases hp

/-- A sequence that never stops leaves nothing. -/
theorem eq_nil_of_takes {ts rest : List Token} {ms : List Math}
    (h : (Phrase.sequence stopNever ms).Takes ts rest) : rest = [] := by
  have hstops := stops_of_takes h rfl
  cases rest with
  | nil => rfl
  | cons t rest => cases hstops t rfl

/-- With steps enough, the whole run does what the parser does. -/
theorem sequence_whole (tokens : List Token) {steps : Nat} (hsteps : 6 * tokens.length + 4 ≤ steps) :
    (∃ fault, sequence tokens stopNever steps 0 = .error (.fault fault) ∧
      parse tokens = .error fault) ∨
    ∃ ms, sequence tokens stopNever steps 0 = .ok (ms, tokens.length) ∧ parse tokens = .ok ms := by
  have hfollows := (allFollow tokens steps).sequence stopNever 0 (Nat.zero_le _)
  rw [List.drop_zero] at hfollows
  rw [parse, parseAs]
  generalize sequence tokens stopNever steps 0 = run at hfollows ⊢
  cases hparsed : Latex.sequence (α := Math) stopNever tokens with
  | error fault =>
    rw [hparsed] at hfollows
    cases hfollows with
    | outOfSteps hreason => omega
    | fault => exact .inl ⟨fault, rfl, rfl⟩
  | ok p =>
    obtain ⟨ms, rest, hbound⟩ := p
    have hrest : rest = [] := eq_nil_of_takes (takes_sequence hparsed)
    rw [hparsed] at hfollows
    rcases hfollows.of_ok with hreason | ⟨next, hnext, rfl, hdrop⟩
    · omega
    · -- Nothing is left of the tokens, so the position is at their end.
      have hend : tokens.length ≤ next := List.drop_eq_nil_iff.mp (hdrop.symm.trans hrest)
      obtain rfl : next = tokens.length := Nat.le_antisymm hnext hend
      subst hrest
      exact .inr ⟨ms, rfl, rfl⟩

/-- The parser finds justified faults only. -/
theorem justified_of_parse {tokens : List Token} {fault : Fault} (h : parse tokens = .error fault) :
    Justified tokens fault := by
  rcases sequence_whole tokens (Nat.le_refl _) with ⟨found, hrun, hfound⟩ | ⟨ms, -, hms⟩
  · rw [h] at hfound
    cases hfound
    exact (allSound tokens _).sequence stopNever 0 fault hrun
  · rw [h] at hms
    cases hms

theorem progress (tokens : List Token) : Progress tokens where
  within r steps pos next hcallable hrun := by
    have hends := routine_ends r steps hcallable
    rw [hrun] at hends
    cases hends with
    | within hle hnext => exact ⟨hle, hnext⟩
  token r steps pos hcallable hrun := by
    have hends := routine_ends r steps hcallable
    rw [hrun] at hends
    cases hends
  ends r steps pos hcallable hsteps hrun := by
    have hends := routine_ends r steps hcallable
    rw [hrun] at hends
    cases hends with
    | outOfSteps hreason => exact Nat.not_lt.mpr hsteps hreason
  sequencePass stop steps pos _ _ hpos hrun :=
    ((allFollow tokens steps).sequencePass stop pos hpos).lt_of_goOn hrun
  scriptsPass found steps pos _ _ hpos hrun :=
    ((allFollow tokens steps).scriptsPass found pos hpos).lt_of_goOn hrun
  rowsPass environment steps pos _ _ hpos hrun :=
    ((allFollow tokens steps).rowsPass environment pos hpos).lt_of_goOn hrun
  whole _ hsteps := sequence_whole tokens hsteps
  complete t hparse := justified_of_parse hparse t rfl
  elements layout := parseAs_element layout tokens

end Cursor

/-! ### The outcome for every source -/

/-- The kinds of the errors about a text that markup cannot hold: the second, about surrogates, is an error of
the first kind too. -/
def valueErrors : List String := ["ValueError", "UnicodeEncodeError"]

/-- A source with a token that markup cannot hold cannot be held either. -/
theorem fitsMarkup_of_token {source : Text} {t : Token} (ht : t ∈ tokenize source)
    (h : t.spelled.fitsMarkup = false) : source.fitsMarkup = false := by
  refine Bool.eq_false_iff.mpr fun hfits => ?_
  rw [Text.fitsMarkup_of_subset hfits (spelled_isInfix ht).subset] at h
  cases h

/-- A source is refused for a broken rule, or for something that markup cannot hold. -/
theorem kind_of_tree_eq_error {layout : Layout} {source : Text} {fault : Fault}
    (h : tree layout source = .error fault) :
    fault.kind = "FormulaSyntaxError" ∨
      fault.kind ∈ valueErrors ∧ source.trim.fitsMarkup = false := by
  cases fault with
  | malformed found => exact .inl rfl
  | refused refusal =>
    have hkind : (Fault.refused refusal).kind ∈ valueErrors := by
      cases refusal with
      | incompatible => exact List.mem_cons_self
      | surrogates => exact List.mem_cons_of_mem _ List.mem_cons_self
    refine .inr ⟨hkind, ?_⟩
    rw [tree_eq] at h
    split at h
    · -- A token is refused.
      rename_i hparse
      cases h
      obtain ⟨t, ht, hfits⟩ := Cursor.justified_of_parse hparse
      exact fitsMarkup_of_token ht hfits
    · -- The annotation is refused, which is the source itself.
      split at h
      · rename_i hannotation
        exact Text.fitsMarkup_of_toMarkup_eq_error hannotation
      · cases h

/-- For every source and layout the typesetter comes to an end.  It returns markup, and then the trimmed
source holds only what markup can hold; or it raises a syntax error; or it raises a value error, and then the
trimmed source holds something else.  Its parser makes progress on the tokens of the source. -/
theorem typesetter_outcome (source : Text) (layout : Layout) :
    ((∃ markup, typesetter source layout = .ok markup ∧ source.trim.fitsMarkup = true) ∨
      ∃ failure, typesetter source layout = .error failure ∧
        (failure.kind = "FormulaSyntaxError" ∨
          failure.kind ∈ valueErrors ∧ source.trim.fitsMarkup = false)) ∧
    Cursor.Progress (tokenize source.trim) := by
  refine ⟨?_, Cursor.progress _⟩
  unfold typesetter typeset
  cases htree : tree layout source with
  | error fault => exact .inr ⟨_, rfl, kind_of_tree_eq_error htree⟩
  | ok m =>
    obtain ⟨ms, -, hfits, -⟩ := tree_eq_ok_iff.mp htree
    exact .inl ⟨_, rfl, hfits⟩

end DeltaPreview.Latex
