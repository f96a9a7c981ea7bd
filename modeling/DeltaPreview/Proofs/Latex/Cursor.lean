import DeltaPreview.Proofs.Latex.Grammar

/-!
# Parsing with a position

The parser as it runs over a fixed list of tokens: it has a position, looks at the token there, which may be
missing, and advances.  Its three loops are made of passes.  A number of steps bounds how deep the routines
call each other, so a run can end in three bad ways: with a fault, without a token where an element must
begin, and without steps.

The runs follow the parser that takes tokens from the front (`allFollow`): they find the same faults and the
same values, and stop at the position where the tokens are that the other one leaves.  Only the fault is a way
in which a run really ends.  No routine looks for an element at the end of the tokens, and the steps suffice
if there are six for every token and a few more.
-/

namespace DeltaPreview.Latex.Cursor

/-! ### Routines -/

/-- Why a run ends without a value. -/
inductive Halt where
  | fault (fault : Fault)
  /-- An element should begin at the end of the tokens. -/
  | noToken
  | outOfSteps
  deriving DecidableEq, Repr

/-- A run of the parser. -/
abbrev Run := Except Halt

/-- A pass leaves its loop with a value, or the loop goes on. -/
inductive Pass (α β : Type) where
  | leave (value : β)
  | goOn (found : α)

/-- What stands after a cell that is not the last one. -/
inductive CellEnd where
  | separator
  | newRow

/-- The token that stands there. -/
def CellEnd.token : CellEnd → Token
  | separator => .separator
  | newRow => .newRow

/-- The cells of an environment, given one of them and those after it. -/
def addCell (cell : List Math) : CellEnd → List (List (List Math)) → List (List (List Math))
  | .separator, more => consCell cell more
  | .newRow, more => [cell] :: more

section Routines

variable (tokens : List Token)

/-- The token at a position, if there is one, and the position after it. -/
def advance (pos : Nat) : Option Token × Nat :=
  match tokens[pos]? with
  | some t => (some t, pos + 1)
  | none => (none, pos)

/-- Takes a token that must be a certain one. -/
def expect (mark : Token) (pos : Nat) : Run (Unit × Nat) :=
  match advance tokens pos with
  | (found, next) =>
    if found = some mark then .ok ((), next)
    else .error (.fault (.malformed (.expected mark found)))

/-- Takes the delimiter after a command. -/
def delimiter (command : Token) (pos : Nat) : Run (List Char × Nat) :=
  match advance tokens pos with
  | (found, next) =>
    match found.bind Token.delimiter? with
    | some text => .ok (text, next)
    | none => .error (.fault (.malformed (.unknownDelimiter command found)))

mutual

/-- A sequence of formulas: passes, until one leaves the loop. -/
def sequence (stop : Token → Bool) : Nat → Nat → Run (List Math × Nat)
  | 0, _ => .error .outOfSteps
  | steps + 1, pos => do
    match ← sequencePass stop steps pos with
    | (.leave ms, next) => return (ms, next)
    | (.goOn ms, next) =>
      let (more, last) ← sequence stop steps next
      return (ms ++ more, last)
termination_by structural steps => steps

/-- One pass over a sequence: an element with its scripts, if the sequence does not end. -/
def sequencePass (stop : Token → Bool) : Nat → Nat → Run (Pass (List Math) (List Math) × Nat)
  | 0, _ => .error .outOfSteps
  | steps + 1, pos =>
    match tokens[pos]? with
    | none => return (.leave [], pos)
    | some t =>
      if stop t then return (.leave [], pos)
      else if t.isScript then do
        let (both, next) ← scripts Scripts.none steps pos
        return (.goOn (both.attach []), next)
      else do
        let (base, after) ← element steps pos
        let (both, next) ← scripts Scripts.none steps after
        return (.goOn (both.attach base), next)
termination_by structural steps => steps

/-- The scripts after those that a base has: passes, until one leaves the loop. -/
def scripts (found : Scripts Math) : Nat → Nat → Run (Scripts Math × Nat)
  | 0, _ => .error .outOfSteps
  | steps + 1, pos => do
    match ← scriptsPass found steps pos with
    | (.leave all, next) => return (all, next)
    | (.goOn more, next) => scripts more steps next
termination_by structural steps => steps

/-- One pass over scripts: a script, if there is one. -/
def scriptsPass (found : Scripts Math) : Nat → Nat → Run (Pass (Scripts Math) (Scripts Math) × Nat)
  | 0, _ => .error .outOfSteps
  | steps + 1, pos =>
    match tokens[pos]? with
    | none => return (.leave found, pos)
    | some t =>
      if t.isScript then
        match found.double? t with
        | some fault => .error (.fault (.malformed fault))
        | none => do
          let (ms, next) ← argument steps (advance tokens pos).2
          return (.goOn (found.add t ms), next)
      else return (.leave found, pos)
termination_by structural steps => steps

/-- The argument of a command or a script. -/
def argument : Nat → Nat → Run (List Math × Nat)
  | 0, _ => .error .outOfSteps
  | steps + 1, pos =>
    match tokens[pos]? with
    | none => .error (.fault (.malformed (.expectedArgument none)))
    | some t =>
      if t.endsArgument then .error (.fault (.malformed (.expectedArgument (some t))))
      else if t = .openBrace then group steps (advance tokens pos).2
      else element steps pos
termination_by structural steps => steps

/-- The inside of a braced group and its closing brace. -/
def group : Nat → Nat → Run (List Math × Nat)
  | 0, _ => .error .outOfSteps
  | steps + 1, pos => do
    let (ms, after) ← sequence (stopAt .closeBrace) steps pos
    let (_, next) ← expect tokens .closeBrace after
    return (ms, next)
termination_by structural steps => steps

/-- The optional argument in brackets. -/
def optionalArgument : Nat → Nat → Run (Option (List Math) × Nat)
  | 0, _ => .error .outOfSteps
  | steps + 1, pos =>
    if tokens[pos]? = some .openBracket then do
      let (ms, after) ← sequence (stopAt .closeBracket) steps (advance tokens pos).2
      let (_, next) ← expect tokens .closeBracket after
      return (some ms, next)
    else return (none, pos)
termination_by structural steps => steps

/-- The cells of an environment, row by row: passes, until one leaves the loop. -/
def rows (environment : String) : Nat → Nat → Run (List (List (List Math)) × Nat)
  | 0, _ => .error .outOfSteps
  | steps + 1, pos => do
    match ← rowsPass environment steps pos with
    | (.leave cells, next) => return (cells, next)
    | (.goOn (cell, mark), next) =>
      let (more, last) ← rows environment steps next
      return (addCell cell mark more, last)
termination_by structural steps => steps

/-- One pass over the cells of an environment: a cell and what ends it. -/
def rowsPass (environment : String) : Nat → Nat →
    Run (Pass (List Math × CellEnd) (List (List (List Math))) × Nat)
  | 0, _ => .error .outOfSteps
  | steps + 1, pos => do
    let (cell, after) ← sequence (stopAtCell environment) steps pos
    match advance tokens after with
    | (found, next) =>
      if found = some .separator then return (.goOn (cell, .separator), next)
      else if found = some .newRow then return (.goOn (cell, .newRow), next)
      else if found = some (.ending environment) then return (.leave [[cell]], next)
      else .error (.fault (.malformed (.unterminated environment found)))
termination_by structural steps => steps

/-- The element that begins at a position. -/
def element : Nat → Nat → Run (List Math × Nat)
  | 0, _ => .error .outOfSteps
  | steps + 1, pos =>
    match advance tokens pos with
    | (none, _) => .error .noToken
    | (some t, after) =>
      match t.meaning with
      | .leaf kind text role variant =>
        match leafOf kind text role variant with
        | .error fault => .error (.fault fault)
        | .ok m => return ([m], after)
      | .space width => return ([.space width], after)
      | .newline => return ([.newline], after)
      | .group => do
        let (ms, next) ← group steps after
        return ([.row ms], next)
      | .fraction => do
        let (numerator, middle) ← argument steps after
        let (denominator, next) ← argument steps middle
        return ([.fraction true (.single numerator) (.single denominator)], next)
      | .binomial => do
        let (upper, middle) ← argument steps after
        let (lower, next) ← argument steps middle
        return ([.fenced ['('] [.fraction false (.single upper) (.single lower)] [')']], next)
      | .radical => do
        let (index, middle) ← optionalArgument steps after
        let (base, next) ← argument steps middle
        return ([.radical index base], next)
      | .accent mark => do
        let (base, next) ← argument steps after
        return ([.accent (.single base) (.operator [mark] .fixed)], next)
      | .font variant => do
        let (ms, next) ← argument steps after
        return (Math.withVariants variant ms, next)
      | .bigDelimiter => do
        let (text, next) ← delimiter tokens t after
        return ([.leaf (.operator text .fixed)], next)
      | .leftDelimiter => do
        let (left, inside) ← delimiter tokens t after
        let (content, middle) ← sequence (stopAt (.word "right")) steps inside
        if tokens[middle]? = some (.word "right") then
          let (right, next) ← delimiter tokens (.word "right") (advance tokens middle).2
          return ([.fenced left content right], next)
        else .error (.fault (.malformed .missingRight))
      | .environment name =>
        match environments.lookup name with
        | none => .error (.fault (.malformed (.unknownEnvironment name)))
        | some e => do
          let (_, middle) ← columns name steps after
          let (cells, next) ← rows name steps middle
          return ([e.formula cells], next)
      | .namelessEnvironment => .error (.fault (.malformed .namelessEnvironment))
      | .strayBrace => .error (.fault (.malformed .strayBrace))
      | .straySeparator => .error (.fault (.malformed .straySeparator))
      | .strayEnd => .error (.fault (.malformed (.strayEnd t)))
      | .undefined => .error (.fault (.malformed (.undefined t)))
termination_by structural steps => steps

/-- The column specification that may begin an array. -/
def columns (environment : String) : Nat → Nat → Run (Unit × Nat)
  | 0, _ => .error .outOfSteps
  | steps + 1, pos =>
    if environment = "array" ∧ tokens[pos]? = some .openBrace then do
      let (_, next) ← group steps (advance tokens pos).2
      return ((), next)
    else return ((), pos)
termination_by structural steps => steps

end

end Routines

/-! ### Positions -/

section Positions

variable {tokens : List Token} {pos : Nat} {t : Token}

theorem drop_of_getElem? (h : tokens[pos]? = some t) :
    tokens.drop pos = t :: tokens.drop (pos + 1) := by
  obtain ⟨hpos, ht⟩ := List.getElem?_eq_some_iff.mp h
  rw [List.drop_eq_getElem_cons hpos, ht]

theorem drop_of_none (h : tokens[pos]? = none) : tokens.drop pos = [] :=
  List.drop_eq_nil_of_le (List.getElem?_eq_none_iff.mp h)

theorem lt_of_getElem? (h : tokens[pos]? = some t) : pos < tokens.length :=
  (List.getElem?_eq_some_iff.mp h).1

theorem advance_of_some (h : tokens[pos]? = some t) : advance tokens pos = (some t, pos + 1) := by
  rw [advance, h]

theorem advance_of_none (h : tokens[pos]? = none) : advance tokens pos = (none, pos) := by
  rw [advance, h]

end Positions

/-! ### Following the other parser -/

/-- A run does what parsing the tokens from the front does, unless the steps are used up, for which there is
a reason. -/
inductive Follows (tokens : List Token) (reason : Prop) {α : Type} {bound : Nat} :
    Run (α × Nat) → Parse α bound → Prop
  | outOfSteps {parsed : Parse α bound} (hreason : reason) :
      Follows tokens reason (.error .outOfSteps) parsed
  | fault (fault : Fault) : Follows tokens reason (.error (.fault fault)) (.error fault)
  | done {value : α} {next : Nat} {hbound : (tokens.drop next).length < bound}
      (hnext : next ≤ tokens.length) :
      Follows tokens reason (.ok (value, next)) (.ok ⟨value, tokens.drop next, hbound⟩)

/-- What a loop finds is what remains to be found, with something put before it. -/
def Continues {β : Type} {bound bound' : Nat} (add : β → β) (whole : Parse β bound)
    (more : Parse β bound') : Prop :=
  (∀ e, more = .error e → whole = .error e) ∧
    ∀ value rest h, more = .ok ⟨value, rest, h⟩ → ∃ h', whole = .ok ⟨add value, rest, h'⟩

/-- A pass at a position does the beginning of what the whole loop of the other parser does: it finds the
fault, or it leaves the loop, or it takes some token and the loop goes on from there. -/
inductive PassFollows (tokens : List Token) (reason : Prop) (pos : Nat) {α β : Type} {bound : Nat}
    (whole : Parse β bound) (continues : α → Nat → Prop) : Run (Pass α β × Nat) → Prop
  | outOfSteps (hreason : reason) : PassFollows tokens reason pos whole continues (.error .outOfSteps)
  | fault {e : Fault} (h : whole = .error e) :
      PassFollows tokens reason pos whole continues (.error (.fault e))
  | leave {value : β} {next : Nat} {hbound : (tokens.drop next).length < bound}
      (hle : pos ≤ next) (hnext : next ≤ tokens.length)
      (h : whole = .ok ⟨value, tokens.drop next, hbound⟩) :
      PassFollows tokens reason pos whole continues (.ok (.leave value, next))
  | goOn {found : α} {next : Nat} (hlt : pos < next) (hnext : next ≤ tokens.length)
      (h : continues found next) :
      PassFollows tokens reason pos whole continues (.ok (.goOn found, next))

/-- All routines follow the other parser if they have some steps: six for every token that is left, and so
many more that every routine has one more than those it calls before it takes a token. -/
structure AllFollow (tokens : List Token) (steps : Nat) : Prop where
  sequence : ∀ stop pos, pos ≤ tokens.length →
    Follows tokens (steps < 6 * (tokens.length - pos) + 4) (sequence tokens stop steps pos)
      (Latex.sequence stop (tokens.drop pos))
  sequencePass : ∀ stop pos, pos ≤ tokens.length →
    PassFollows tokens (steps < 6 * (tokens.length - pos) + 3) pos
      (Latex.sequence stop (tokens.drop pos))
      (fun ms next => Continues (ms ++ ·) (Latex.sequence stop (tokens.drop pos))
        (Latex.sequence stop (tokens.drop next)))
      (sequencePass tokens stop steps pos)
  scripts : ∀ found pos, pos ≤ tokens.length →
    Follows tokens (steps < 6 * (tokens.length - pos) + 2) (scripts tokens found steps pos)
      (Latex.scripts found (tokens.drop pos))
  scriptsPass : ∀ found pos, pos ≤ tokens.length →
    PassFollows tokens (steps < 6 * (tokens.length - pos) + 1) pos
      (Latex.scripts found (tokens.drop pos))
      (fun more next => Continues id (Latex.scripts found (tokens.drop pos))
        (Latex.scripts more (tokens.drop next)))
      (scriptsPass tokens found steps pos)
  argument : ∀ pos, pos ≤ tokens.length →
    Follows tokens (steps < 6 * (tokens.length - pos) + 2) (argument tokens steps pos)
      (Latex.argument (tokens.drop pos))
  group : ∀ pos, pos ≤ tokens.length →
    Follows tokens (steps < 6 * (tokens.length - pos) + 5) (group tokens steps pos)
      (Latex.group (tokens.drop pos))
  optionalArgument : ∀ pos, pos ≤ tokens.length →
    Follows tokens (steps < 6 * (tokens.length - pos) + 1) (optionalArgument tokens steps pos)
      (Latex.optionalArgument (tokens.drop pos))
  rows : ∀ environment pos, pos ≤ tokens.length →
    Follows tokens (steps < 6 * (tokens.length - pos) + 6) (rows tokens environment steps pos)
      (Latex.rows environment (tokens.drop pos))
  rowsPass : ∀ environment pos, pos ≤ tokens.length →
    PassFollows tokens (steps < 6 * (tokens.length - pos) + 5) pos
      (Latex.rows environment (tokens.drop pos))
      (fun found next => Continues (addCell found.1 found.2)
        (Latex.rows environment (tokens.drop pos)) (Latex.rows environment (tokens.drop next)))
      (rowsPass tokens environment steps pos)
  element : ∀ t pos, tokens[pos]? = some t →
    Follows tokens (steps < 6 * (tokens.length - pos) + 1) (element tokens steps pos)
      (Latex.element t (tokens.drop (pos + 1)))
  columns : ∀ environment pos, pos ≤ tokens.length →
    Follows tokens (steps < 6 * (tokens.length - pos) + 1) (columns tokens environment steps pos)
      (Latex.columns (α := Math) environment (tokens.drop pos))

section Follow

variable {tokens : List Token} {steps : Nat}

theorem expect_follows {reason : Prop} (mark : Token) (pos : Nat) :
    Follows tokens reason (expect tokens mark pos) (Latex.expect mark (tokens.drop pos)) := by
  unfold expect
  cases hcurrent : tokens[pos]? with
  | none =>
    rw [advance_of_none hcurrent, drop_of_none hcurrent]
    exact .fault _
  | some t =>
    have hnext := lt_of_getElem? hcurrent
    rw [advance_of_some hcurrent, drop_of_getElem? hcurrent]
    by_cases ht : t = mark
    · simp only [Latex.expect, ht, if_true]
      exact .done hnext
    · simp only [Latex.expect, ht, if_false, Option.some.injEq]
      exact .fault _

/-- A run that goes on after a routine follows what goes on after the other parser's routine. -/
theorem Follows.bind {α β : Type} {bound bound' : Nat} {reason reason' : Prop}
    {run : Run (α × Nat)} {parsed : Parse α bound} {more : α × Nat → Run (β × Nat)}
    {whole : Parse β bound'} (h : Follows tokens reason run parsed) (hreason : reason → reason')
    (hfault : ∀ e, parsed = .error e → whole = .error e)
    (hmore : ∀ value next hbound, next ≤ tokens.length →
      parsed = .ok ⟨value, tokens.drop next, hbound⟩ →
      Follows tokens reason' (more (value, next)) whole) :
    Follows tokens reason' (run >>= more) whole := by
  cases h with
  | outOfSteps h => exact .outOfSteps (hreason h)
  | fault e =>
    rw [hfault e rfl]
    exact .fault e
  | done hnext => exact hmore _ _ _ hnext rfl

theorem delimiter_follows {reason : Prop} (command : Token) (pos : Nat) :
    Follows tokens reason (delimiter tokens command pos)
      (Latex.delimiter command (tokens.drop pos)) := by
  unfold delimiter
  cases hcurrent : tokens[pos]? with
  | none =>
    rw [advance_of_none hcurrent, drop_of_none hcurrent]
    exact .fault _
  | some t =>
    have hnext := lt_of_getElem? hcurrent
    rw [advance_of_some hcurrent, drop_of_getElem? hcurrent]
    cases ht : t.delimiter? with
    | some text =>
      simp only [Latex.delimiter, ht, Option.bind_some]
      exact .done hnext
    | none =>
      simp only [Latex.delimiter, ht, Option.bind_some]
      exact .fault _

/-- The same, for a pass. -/
theorem Follows.bindPass {α β γ : Type} {bound bound' : Nat} {reason reason' : Prop} {pos : Nat}
    {run : Run (α × Nat)} {parsed : Parse α bound} {more : α × Nat → Run (Pass γ β × Nat)}
    {whole : Parse β bound'} {continues : γ → Nat → Prop} (h : Follows tokens reason run parsed)
    (hreason : reason → reason') (hfault : ∀ e, parsed = .error e → whole = .error e)
    (hmore : ∀ value next hbound, next ≤ tokens.length →
      parsed = .ok ⟨value, tokens.drop next, hbound⟩ →
      PassFollows tokens reason' pos whole continues (more (value, next))) :
    PassFollows tokens reason' pos whole continues (run >>= more) := by
  cases h with
  | outOfSteps h => exact .outOfSteps (hreason h)
  | fault e => exact .fault (hfault e rfl)
  | done hnext => exact hmore _ _ _ hnext rfl

/-- A run that ends a routine as another routine ends. -/
theorem Follows.same {α : Type} {bound bound' : Nat} {reason reason' : Prop} {run : Run (α × Nat)}
    {parsed : Parse α bound} {whole : Parse α bound'} (h : Follows tokens reason run parsed)
    (hreason : reason → reason') (hsame : Continues id whole parsed) :
    Follows tokens reason' run whole := by
  cases h with
  | outOfSteps h => exact .outOfSteps (hreason h)
  | fault e =>
    rw [hsame.1 e rfl]
    exact .fault e
  | done hnext =>
    obtain ⟨hbound, hwhole⟩ := hsame.2 _ _ _ rfl
    rw [hwhole]
    exact .done hnext

/-- A loop that goes on. -/
theorem Follows.loop {α : Type} {bound bound' : Nat} {reason reason' : Prop} {run : Run (α × Nat)}
    {parsed : Parse α bound} {whole : Parse α bound'} {add : α → α}
    (h : Follows tokens reason run parsed) (hreason : reason → reason')
    (hloop : Continues add whole parsed) :
    Follows tokens reason' (run >>= fun p => pure (add p.1, p.2)) whole := by
  refine h.bind hreason hloop.1 fun value next hbound hnext hparsed => ?_
  obtain ⟨hbound', hwhole⟩ := hloop.2 _ _ _ hparsed
  rw [hwhole]
  exact .done hnext

/-! ### Loops -/

variable {pos : Nat}

/-- A loop follows the other parser if its passes do, and if it does where it goes on. -/
theorem PassFollows.loop {α β : Type} {bound : Nat} {reason reason' : Prop}
    {run : Run (Pass α β × Nat)} {more : Pass α β × Nat → Run (β × Nat)} {whole : Parse β bound}
    {continues : α → Nat → Prop} (h : PassFollows tokens reason pos whole continues run)
    (hreason : reason → reason')
    (hleave : ∀ value next, more (.leave value, next) = .ok (value, next))
    (hgoOn : ∀ found next, pos < next → next ≤ tokens.length → continues found next →
      Follows tokens reason' (more (.goOn found, next)) whole) :
    Follows tokens reason' (run >>= more) whole := by
  cases h with
  | outOfSteps h => exact .outOfSteps (hreason h)
  | fault h =>
    rw [h]
    exact .fault _
  | @leave value next _ _ hnext h =>
    have hmore : (.ok (.leave value, next) : Run (Pass α β × Nat)) >>= more = .ok (value, next) :=
      hleave value next
    rw [h, hmore]
    exact .done hnext
  | goOn hlt hnext h => exact hgoOn _ _ hlt hnext h

theorem sequence_follows (ih : AllFollow tokens steps) (stop : Token → Bool)
    (hpos : pos ≤ tokens.length) :
    Follows tokens (steps + 1 < 6 * (tokens.length - pos) + 4) (sequence tokens stop (steps + 1) pos)
      (Latex.sequence stop (tokens.drop pos)) := by
  rw [sequence]
  refine (ih.sequencePass stop pos hpos).loop (by omega) (fun _ _ => rfl)
    fun ms next hlt hnext hcontinues => ?_
  exact (ih.sequence stop next hnext).loop (by omega) hcontinues

theorem scripts_follows (ih : AllFollow tokens steps) (found : Scripts Math)
    (hpos : pos ≤ tokens.length) :
    Follows tokens (steps + 1 < 6 * (tokens.length - pos) + 2) (scripts tokens found (steps + 1) pos)
      (Latex.scripts found (tokens.drop pos)) := by
  rw [scripts]
  refine (ih.scriptsPass found pos hpos).loop (by omega) (fun _ _ => rfl)
    fun more next hlt hnext hcontinues => ?_
  exact (ih.scripts more next hnext).same (by omega) hcontinues

theorem rows_follows (ih : AllFollow tokens steps) (environment : String)
    (hpos : pos ≤ tokens.length) :
    Follows tokens (steps + 1 < 6 * (tokens.length - pos) + 6)
      (rows tokens environment (steps + 1) pos) (Latex.rows environment (tokens.drop pos)) := by
  rw [rows]
  refine (ih.rowsPass environment pos hpos).loop (by omega) (fun _ _ => rfl)
    fun found next hlt hnext hcontinues => ?_
  exact (ih.rows environment next hnext).loop (by omega) hcontinues

/-! ### Passes -/

theorem scriptsPass_follows (ih : AllFollow tokens steps) (found : Scripts Math)
    (hpos : pos ≤ tokens.length) :
    PassFollows tokens (steps + 1 < 6 * (tokens.length - pos) + 1) pos
      (Latex.scripts found (tokens.drop pos))
      (fun more next => Continues id (Latex.scripts found (tokens.drop pos))
        (Latex.scripts more (tokens.drop next)))
      (scriptsPass tokens found (steps + 1) pos) := by
  rw [scriptsPass]
  cases hcurrent : tokens[pos]? with
  | none =>
    have hend : ∀ t ∈ (tokens.drop pos).head?, t.isScript = false := by
      rw [drop_of_none hcurrent]
      rintro _ ⟨⟩
    have htakes : (Phrase.scripts found found).Takes _ _ := .scriptsEnd hend
    obtain ⟨hbound, hwhole⟩ := htakes.accepted
    exact .leave (Nat.le_refl pos) hpos hwhole
  | some t =>
    have hlt := lt_of_getElem? hcurrent
    cases hscript : t.isScript with
    | false =>
      have hend : ∀ t ∈ (tokens.drop pos).head?, t.isScript = false := by
        rw [drop_of_getElem? hcurrent]
        rintro _ ⟨⟩
        exact hscript
      have htakes : (Phrase.scripts found found).Takes _ _ := .scriptsEnd hend
      obtain ⟨hbound, hwhole⟩ := htakes.accepted
      simp only [hscript, Bool.false_eq_true, if_false]
      exact .leave (Nat.le_refl pos) hpos hwhole
    | true =>
      rw [drop_of_getElem? hcurrent, advance_of_some hcurrent]
      simp only [hscript, if_true]
      cases hdouble : found.double? t with
      | some e =>
        refine .fault ?_
        rw [Latex.scripts]
        simp only [hscript, if_true, hdouble]
      | none =>
        refine (ih.argument (pos + 1) hlt).bindPass (by omega) (fun e he => ?_)
          fun ms next hbound hnext hargument => .goOn ?_ hnext ⟨fun e he => ?_, fun all rest h hall => ?_⟩
        · rw [Latex.scripts]
          simp only [hscript, if_true, hdouble, he]
        · simp only [List.length_drop] at hbound
          omega
        · rw [Latex.scripts]
          simp only [hscript, if_true, hdouble, hargument, he]
        · refine ⟨?_, ?_⟩
          · simp only [List.length_drop, List.length_cons] at hbound h ⊢
            omega
          · rw [Latex.scripts]
            simp only [hscript, if_true, hdouble, hargument, hall, id]

/-- A sequence stops at the end of the tokens and at a token that stops it. -/
theorem sequence_stops {stop : Token → Bool} {ts : List Token} (h : ∀ t ∈ ts.head?, stop t = true) :
    ∃ hbound, Latex.sequence (α := Math) stop ts = .ok ⟨[], ts, hbound⟩ := by
  cases ts with
  | nil => exact Phrase.Takes.sequenceEnd.accepted
  | cons t ts => exact (Phrase.Takes.sequenceStop (h t rfl)).accepted

/-- A sequence that begins with scripts has them before what follows them. -/
theorem sequence_scripts {stop : Token → Bool} {t : Token} (ts : List Token) (hstop : stop t = false)
    (hscript : t.isScript = true) :
    (∀ e, Latex.scripts (α := Math) Scripts.none (t :: ts) = .error e →
      Latex.sequence (α := Math) stop (t :: ts) = .error e) ∧
    ∀ both after h, Latex.scripts Scripts.none (t :: ts) = .ok ⟨both, after, h⟩ →
      after.length < (t :: ts).length ∧
        Continues (both.attach [] ++ ·) (Latex.sequence stop (t :: ts)) (Latex.sequence stop after) := by
  -- The other parser takes the first script before its loop over scripts; no script is doubled by it.
  rw [Latex.scripts, Latex.sequence]
  simp only [hstop, hscript, Scripts.double?_none, if_true, Bool.false_eq_true, if_false]
  cases (Latex.argument ts : Parse (List Math) _) with
  | error e =>
    refine ⟨fun e he => ?_, fun both after h hboth => ?_⟩
    · cases he
      rfl
    · cases hboth
  | ok p =>
    obtain ⟨ms, after, hafter⟩ := p
    simp only
    cases Latex.scripts (Scripts.none.add t ms) after with
    | error e =>
      refine ⟨fun e he => ?_, fun both after h hboth => ?_⟩
      · cases he
        rfl
      · cases hboth
    | ok p =>
      obtain ⟨both, after', hafter'⟩ := p
      refine ⟨fun e he => ?_, fun both after h hboth => ?_⟩
      · cases he
      · cases hboth
        refine ⟨by simp only [List.length_cons]; omega, fun e he => ?_, fun more rest h hmore => ?_⟩
        · simp only [he]
        · refine ⟨by simp only [List.length_cons]; omega, ?_⟩
          simp only [hmore, build_attach]

theorem sequencePass_follows (ih : AllFollow tokens steps) (stop : Token → Bool)
    (hpos : pos ≤ tokens.length) :
    PassFollows tokens (steps + 1 < 6 * (tokens.length - pos) + 3) pos
      (Latex.sequence stop (tokens.drop pos))
      (fun ms next => Continues (ms ++ ·) (Latex.sequence stop (tokens.drop pos))
        (Latex.sequence stop (tokens.drop next)))
      (sequencePass tokens stop (steps + 1) pos) := by
  rw [sequencePass]
  cases hcurrent : tokens[pos]? with
  | none =>
    have hstops : ∀ t ∈ (tokens.drop pos).head?, stop t = true := by
      rw [drop_of_none hcurrent]
      rintro _ ⟨⟩
    obtain ⟨hbound, hwhole⟩ := sequence_stops hstops
    exact .leave (Nat.le_refl pos) hpos hwhole
  | some t =>
    have hlt := lt_of_getElem? hcurrent
    cases hstop : stop t with
    | true =>
      have hstops : ∀ t ∈ (tokens.drop pos).head?, stop t = true := by
        rw [drop_of_getElem? hcurrent]
        rintro _ ⟨⟩
        exact hstop
      obtain ⟨hbound, hwhole⟩ := sequence_stops hstops
      simp only [hstop, if_true]
      exact .leave (Nat.le_refl pos) hpos hwhole
    | false =>
      rw [drop_of_getElem? hcurrent]
      simp only [hstop, Bool.false_eq_true, if_false]
      cases hscript : t.isScript with
      | true =>
        simp only [if_true]
        have hscripts := ih.scripts Scripts.none pos hpos
        rw [drop_of_getElem? hcurrent] at hscripts
        obtain ⟨hfault, hok⟩ := sequence_scripts (tokens.drop (pos + 1)) hstop hscript
        refine hscripts.bindPass (by omega) hfault fun both next hbound hnext hparsed => ?_
        obtain ⟨hshorter, hloop⟩ := hok both _ hbound hparsed
        refine .goOn ?_ hnext hloop
        simp only [List.length_drop, List.length_cons] at hshorter
        omega
      | false =>
        simp only [Bool.false_eq_true, if_false]
        refine (ih.element t pos hcurrent).bindPass (by omega) (fun e he => ?_)
          fun base after hbound hafter hbase => ?_
        · rw [Latex.sequence]
          simp only [hstop, hscript, Bool.false_eq_true, if_false, he]
        refine (ih.scripts Scripts.none after hafter).bindPass ?_ (fun e he => ?_)
          fun both next hbound' hnext hboth =>
            .goOn ?_ hnext ⟨fun e he => ?_, fun more rest h hmore => ?_⟩
        · simp only [List.length_drop] at hbound
          omega
        · rw [Latex.sequence]
          simp only [hstop, hscript, Bool.false_eq_true, if_false, hbase, he]
        · simp only [List.length_drop] at hbound hbound'
          omega
        · rw [Latex.sequence]
          simp only [hstop, hscript, Bool.false_eq_true, if_false, hbase, hboth, he]
        · refine ⟨?_, ?_⟩
          · simp only [List.length_drop, List.length_cons] at hbound hbound' h ⊢
            omega
          · rw [Latex.sequence]
            simp only [hstop, hscript, Bool.false_eq_true, if_false, hbase, hboth, hmore, build_attach]

/-- Cells go on after one that is not the last. -/
theorem rows_goesOn {environment : String} {ts after : List Token} {cell : List Math} {mark : CellEnd}
    {h : (mark.token :: after).length < ts.length + 1}
    (hcell : Latex.sequence (stopAtCell environment) ts = .ok ⟨cell, mark.token :: after, h⟩) :
    Continues (addCell cell mark) (Latex.rows environment ts) (Latex.rows environment after) := by
  refine ⟨fun e he => ?_, fun more last hlast hmore => ⟨?_, ?_⟩⟩
  · rw [Latex.rows, hcell]
    cases mark <;> simp [CellEnd.token, he]
  · simp only [List.length_cons] at h
    omega
  · rw [Latex.rows, hcell]
    cases mark <;> simp [CellEnd.token, hmore, addCell]

theorem rowsPass_follows (ih : AllFollow tokens steps) (environment : String)
    (hpos : pos ≤ tokens.length) :
    PassFollows tokens (steps + 1 < 6 * (tokens.length - pos) + 5) pos
      (Latex.rows environment (tokens.drop pos))
      (fun found next => Continues (addCell found.1 found.2)
        (Latex.rows environment (tokens.drop pos)) (Latex.rows environment (tokens.drop next)))
      (rowsPass tokens environment (steps + 1) pos) := by
  rw [rowsPass]
  refine (ih.sequence (stopAtCell environment) pos hpos).bindPass (by omega) (fun e he => ?_)
    fun cell after hbound hafter hcell => ?_
  · rw [Latex.rows, he]
  have hle : pos ≤ after := by
    simp only [List.length_drop] at hbound
    omega
  -- What stands after the cell decides how the loop goes on.
  cases hcurrent : tokens[after]? with
  | none =>
    simp only [drop_of_none hcurrent] at hcell
    simp only [advance_of_none hcurrent, reduceCtorEq, if_false]
    refine .fault ?_
    rw [Latex.rows]
    simp only [hcell]
  | some t =>
    have hlt := lt_of_getElem? hcurrent
    simp only [drop_of_getElem? hcurrent] at hcell
    simp only [advance_of_some hcurrent, Option.some.injEq]
    by_cases hseparator : t = .separator
    · rw [if_pos hseparator]
      subst hseparator
      exact .goOn (by omega) hlt (rows_goesOn hcell)
    rw [if_neg hseparator]
    by_cases hrow : t = .newRow
    · rw [if_pos hrow]
      subst hrow
      exact .goOn (by omega) hlt (rows_goesOn hcell)
    rw [if_neg hrow]
    by_cases hend : t = .ending environment
    · rw [if_pos hend]
      subst hend
      have htakes : (Phrase.sequence (stopAtCell environment) cell).Takes (tokens.drop pos)
          (.ending environment :: tokens.drop (after + 1)) := takes_sequence hcell
      obtain ⟨hbound', hwhole⟩ := (Phrase.Takes.rowsEnd htakes).accepted
      exact .leave (by omega) hlt hwhole
    · rw [if_neg hend]
      refine .fault ?_
      rw [Latex.rows]
      simp only [hcell, hseparator, hrow, hend, if_false]

/-! ### Elements and arguments -/

theorem group_follows (ih : AllFollow tokens steps) (hpos : pos ≤ tokens.length) :
    Follows tokens (steps + 1 < 6 * (tokens.length - pos) + 5) (group tokens (steps + 1) pos)
      (Latex.group (tokens.drop pos)) := by
  rw [group, Latex.group]
  refine (ih.sequence (stopAt .closeBrace) pos hpos).bind (by omega) (fun e he => by simp only [he])
    fun ms after _ _ hbody => ?_
  simp only [hbody]
  refine (expect_follows .closeBrace after).bind id (fun e he => by simp only [he])
    fun _ next _ hnext hclose => ?_
  simp only [hclose]
  exact .done hnext

theorem optionalArgument_follows (ih : AllFollow tokens steps) (hpos : pos ≤ tokens.length) :
    Follows tokens (steps + 1 < 6 * (tokens.length - pos) + 1)
      (optionalArgument tokens (steps + 1) pos) (Latex.optionalArgument (tokens.drop pos)) := by
  rw [optionalArgument]
  by_cases hopen : tokens[pos]? = some .openBracket
  · have hlt := lt_of_getElem? hopen
    rw [if_pos hopen, advance_of_some hopen, drop_of_getElem? hopen, Latex.optionalArgument]
    refine (ih.sequence (stopAt .closeBracket) (pos + 1) hlt).bind (by omega)
      (fun e he => by simp only [he]) fun ms after _ _ hbody => ?_
    simp only [hbody]
    refine (expect_follows .closeBracket after).bind id (fun e he => by simp only [he])
      fun _ next _ hnext hclose => ?_
    simp only [hclose]
    exact .done hnext
  · have hnone : (tokens.drop pos).head? ≠ some .openBracket := by
      rwa [List.head?_drop]
    obtain ⟨hbound, hwhole⟩ := (Phrase.Takes.optionNone hnone).accepted
    rw [if_neg hopen, hwhole]
    exact .done hpos

theorem columns_follows (ih : AllFollow tokens steps) (environment : String)
    (hpos : pos ≤ tokens.length) :
    Follows tokens (steps + 1 < 6 * (tokens.length - pos) + 1)
      (columns tokens environment (steps + 1) pos) (Latex.columns (α := Math) environment (tokens.drop pos)) := by
  rw [columns]
  by_cases hopen : environment = "array" ∧ tokens[pos]? = some .openBrace
  · have hlt := lt_of_getElem? hopen.2
    rw [if_pos hopen, advance_of_some hopen.2, drop_of_getElem? hopen.2, Latex.columns,
      if_pos hopen.1]
    refine (ih.group (pos + 1) hlt).bind (by omega) (fun e he => by simp only [he])
      fun ms next _ hnext hbody => ?_
    simp only [hbody]
    exact .done hnext
  · have hnone : environment ≠ "array" ∨ (tokens.drop pos).head? ≠ some .openBrace := by
      rw [List.head?_drop]
      exact Decidable.not_and_iff_not_or_not.mp hopen
    obtain ⟨hbound, hwhole⟩ := (Phrase.Takes.columnsNone hnone).accepted
    rw [if_neg hopen, hwhole]
    exact .done hpos

theorem argument_follows (ih : AllFollow tokens steps) (pos : Nat) :
    Follows tokens (steps + 1 < 6 * (tokens.length - pos) + 2) (argument tokens (steps + 1) pos)
      (Latex.argument (tokens.drop pos)) := by
  rw [argument]
  cases hcurrent : tokens[pos]? with
  | none =>
    rw [drop_of_none hcurrent, Latex.argument]
    exact .fault _
  | some t =>
    have hlt := lt_of_getElem? hcurrent
    rw [drop_of_getElem? hcurrent, advance_of_some hcurrent]
    cases hend : t.endsArgument with
    | true =>
      rw [Latex.argument]
      simp only [hend, if_true]
      exact .fault _
    | false =>
      simp only [hend, Bool.false_eq_true, if_false]
      by_cases hopen : t = .openBrace
      · subst hopen
        rw [if_pos rfl]
        refine (ih.group (pos + 1) hlt).same (by omega)
          ⟨fun e he => ?_, fun ms rest h hms => ⟨?_, ?_⟩⟩
        · rw [Latex.argument]
          simp only [hend, Bool.false_eq_true, if_false, if_true, he]
        · rw [List.length_cons]
          omega
        · rw [Latex.argument]
          simp only [hend, Bool.false_eq_true, if_false, if_true, hms, id]
      · rw [if_neg hopen]
        refine (ih.element t pos hcurrent).same (by omega)
          ⟨fun e he => ?_, fun ms rest h hms => ⟨?_, ?_⟩⟩
        · rw [Latex.argument]
          simp only [hend, hopen, Bool.false_eq_true, if_false, he]
        · rw [List.length_cons]
          omega
        · rw [Latex.argument]
          simp only [hend, hopen, Bool.false_eq_true, if_false, hms, id]

theorem element_follows (ih : AllFollow tokens steps) (t : Token) (hcurrent : tokens[pos]? = some t) :
    Follows tokens (steps + 1 < 6 * (tokens.length - pos) + 1) (element tokens (steps + 1) pos)
      (Latex.element t (tokens.drop (pos + 1))) := by
  have hlt := lt_of_getElem? hcurrent
  rw [element, advance_of_some hcurrent]
  simp only
  unfold Latex.element
  cases hmeaning : t.meaning with
  | leaf kind text role variant =>
    simp only
    cases (leafOf kind text role variant : Except Fault Math) with
    | error e => exact .fault e
    | ok m => exact .done hlt
  | space width => exact .done hlt
  | newline => exact .done hlt
  | group =>
    simp only
    refine (ih.group (pos + 1) hlt).bind (by omega) (fun e he => by simp only [he])
      fun ms next _ hnext hgroup => ?_
    simp only [hgroup]
    exact .done hnext
  | fraction =>
    simp only
    refine (ih.argument (pos + 1) hlt).bind (by omega) (fun e he => by simp only [he])
      fun numerator middle hbound hmiddle hnumerator => ?_
    have hle : pos < middle := by
      simp only [List.length_drop] at hbound
      omega
    simp only [hnumerator]
    refine (ih.argument middle hmiddle).bind (by omega) (fun e he => by simp only [he])
      fun denominator next _ hnext hdenominator => ?_
    simp only [hdenominator]
    exact .done hnext
  | binomial =>
    simp only
    refine (ih.argument (pos + 1) hlt).bind (by omega) (fun e he => by simp only [he])
      fun upper middle hbound hmiddle hupper => ?_
    have hle : pos < middle := by
      simp only [List.length_drop] at hbound
      omega
    simp only [hupper]
    refine (ih.argument middle hmiddle).bind (by omega) (fun e he => by simp only [he])
      fun lower next _ hnext hlower => ?_
    simp only [hlower]
    exact .done hnext
  | radical =>
    simp only
    refine (ih.optionalArgument (pos + 1) hlt).bind (by omega) (fun e he => by simp only [he])
      fun index middle hbound hmiddle hindex => ?_
    have hle : pos < middle := by
      simp only [List.length_drop] at hbound
      omega
    simp only [hindex]
    refine (ih.argument middle hmiddle).bind (by omega) (fun e he => by simp only [he])
      fun base next _ hnext hbase => ?_
    simp only [hbase]
    exact .done hnext
  | accent mark =>
    simp only
    refine (ih.argument (pos + 1) hlt).bind (by omega) (fun e he => by simp only [he])
      fun base next _ hnext hbase => ?_
    simp only [hbase]
    exact .done hnext
  | font variant =>
    simp only
    refine (ih.argument (pos + 1) hlt).bind (by omega) (fun e he => by simp only [he])
      fun ms next _ hnext hbody => ?_
    simp only [hbody]
    exact .done hnext
  | bigDelimiter =>
    simp only
    refine (delimiter_follows t (pos + 1)).bind id (fun e he => by simp only [he])
      fun text next _ hnext htext => ?_
    simp only [htext]
    exact .done hnext
  | leftDelimiter =>
    simp only
    refine (delimiter_follows t (pos + 1)).bind id (fun e he => by simp only [he])
      fun left inside hbound hinside hleft => ?_
    have hle : pos < inside := by
      simp only [List.length_drop] at hbound
      omega
    simp only [hleft]
    refine (ih.sequence (stopAt (.word "right")) inside hinside).bind (by omega)
      (fun e he => by simp only [he]) fun content middle hbound' hmiddle hcontent => ?_
    cases hmark : tokens[middle]? with
    | none =>
      simp only [drop_of_none hmark] at hcontent
      simp only [hcontent, reduceCtorEq, if_false]
      exact .fault _
    | some mark =>
      simp only [drop_of_getElem? hmark] at hcontent
      simp only [hcontent, Option.some.injEq]
      by_cases hright : mark = .word "right"
      · subst hright
        simp only [if_true, advance_of_some hmark]
        refine (delimiter_follows (.word "right") (middle + 1)).bind id (fun e he => by simp only [he])
          fun right next _ hnext htext => ?_
        simp only [htext]
        exact .done hnext
      · simp only [hright, if_false]
        exact .fault _
  | environment name =>
    simp only
    cases environments.lookup name with
    | none => exact .fault _
    | some e =>
      simp only
      refine (ih.columns name (pos + 1) hlt).bind (by omega) (fun e he => by simp only [he])
        fun _ middle hbound hmiddle hcolumns => ?_
      have hle : pos < middle := by
        simp only [List.length_drop] at hbound
        omega
      simp only [hcolumns]
      refine (ih.rows name middle hmiddle).bind (by omega) (fun e he => by simp only [he])
        fun cells next _ hnext hrows => ?_
      simp only [hrows]
      exact .done hnext
  | namelessEnvironment | strayBrace | straySeparator | strayEnd | undefined => exact .fault _

/-! ### Runs -/

theorem allFollow (tokens : List Token) (steps : Nat) : AllFollow tokens steps := by
  -- The induction is on the steps; that every call has tokens or extra steps to spare is in `AllFollow`.
  induction steps with
  | zero =>
    have hout (n extra : Nat) : 0 < 6 * n + (extra + 1) := by omega
    constructor
    · exact fun stop pos _ => .outOfSteps (hout _ 3)
    · exact fun stop pos _ => .outOfSteps (hout _ 2)
    · exact fun found pos _ => .outOfSteps (hout _ 1)
    · exact fun found pos _ => .outOfSteps (hout _ 0)
    · exact fun pos _ => .outOfSteps (hout _ 1)
    · exact fun pos _ => .outOfSteps (hout _ 4)
    · exact fun pos _ => .outOfSteps (hout _ 0)
    · exact fun environment pos _ => .outOfSteps (hout _ 5)
    · exact fun environment pos _ => .outOfSteps (hout _ 4)
    · exact fun t pos _ => .outOfSteps (hout _ 0)
    · exact fun environment pos _ => .outOfSteps (hout _ 0)
  | succ steps ih =>
    exact {
      sequence := fun stop _ hpos => sequence_follows ih stop hpos
      sequencePass := fun stop _ hpos => sequencePass_follows ih stop hpos
      scripts := fun found _ hpos => scripts_follows ih found hpos
      scriptsPass := fun found _ hpos => scriptsPass_follows ih found hpos
      argument := fun pos _ => argument_follows ih pos
      group := fun _ hpos => group_follows ih hpos
      optionalArgument := fun _ hpos => optionalArgument_follows ih hpos
      rows := fun environment _ hpos => rows_follows ih environment hpos
      rowsPass := fun environment _ hpos => rowsPass_follows ih environment hpos
      element := fun t _ hcurrent => element_follows ih t hcurrent
      columns := fun environment _ hpos => columns_follows ih environment hpos }

end Follow

end DeltaPreview.Latex.Cursor
