import DeltaPreview.Latex.Parser

/-!
# Building the same formula twice

The parser looks at tokens and at which scripts it has found, and never at what it has built: that is left to the
`Builder`.  So a map that goes along with every way of building (`Builder.Hom`) goes along with parsing: two runs
over the same tokens take the same tokens in every step and find the same fault or corresponding parts
(`parseAs_map`).
-/

namespace DeltaPreview.Latex

variable {α β : Type}

/-- The scripts with a map applied to their parts. -/
def Scripts.map (f : α → β) (scripts : Scripts α) : Scripts β :=
  ⟨scripts.lower.map (List.map f), scripts.upper.map (List.map f)⟩

/-- A map that goes along with building. -/
structure Builder.Hom [Builder α] [Builder β] (f : α → β) : Prop where
  leaf : ∀ l, f (Builder.leaf l) = Builder.leaf l
  space : ∀ width, f (Builder.space width) = Builder.space width
  newline : f Builder.newline = Builder.newline
  row : ∀ parts, f (Builder.row parts) = Builder.row (parts.map f)
  fraction : ∀ line numerator denominator, f (Builder.fraction line numerator denominator) =
    Builder.fraction line (numerator.map f) (denominator.map f)
  radical : ∀ index base, f (Builder.radical index base) =
    Builder.radical (index.map (List.map f)) (base.map f)
  accent : ∀ base mark, f (Builder.accent base mark) = Builder.accent (base.map f) mark
  attach : ∀ base scripts, (Builder.attach base scripts).map f =
    Builder.attach (base.map f) (scripts.map f)
  fenced : ∀ left content right, f (Builder.fenced left content right) =
    Builder.fenced left (content.map f) right
  table : ∀ leftAligned rows, f (Builder.table leftAligned rows) =
    Builder.table leftAligned (rows.map (List.map (List.map f)))
  withVariants : ∀ v parts, (Builder.withVariants v parts).map f =
    Builder.withVariants v (parts.map f)

/-- A map of what was parsed. -/
def Parsed.map {bound : Nat} (f : α → β) (p : Parsed α bound) : Parsed β bound :=
  ⟨f p.value, p.rest, p.bounded⟩

/-- A map of what was parsed, if something was. -/
abbrev Parse.map {bound : Nat} (f : α → β) (p : Parse α bound) : Parse β bound :=
  Except.map (Parsed.map f) p

theorem Parse.map_error {bound : Nat} (g : α → β) (fault : Fault) :
    Parse.map g (.error fault : Parse α bound) = .error fault := rfl

theorem Parse.map_ok {bound : Nat} (g : α → β) (p : Parsed α bound) :
    Parse.map g (.ok p) = .ok ⟨g p.value, p.rest, p.bounded⟩ := rfl

/-! ### What a run looks at -/

section

variable (f : α → β)

theorem Scripts.map_none : (Scripts.none : Scripts α).map f = Scripts.none := rfl

theorem Scripts.map_add (found : Scripts α) (t : Token) (ms : List α) :
    (found.add t ms).map f = (found.map f).add t (ms.map f) := by
  unfold Scripts.add
  split <;> rfl

/-- Which scripts are there is the same after a map. -/
theorem Scripts.double?_map (found : Scripts α) (t : Token) :
    (found.map f).double? t = found.double? t := by
  obtain ⟨lower, upper⟩ := found
  unfold Scripts.double?
  split
  · cases lower <;> rfl
  · cases upper <;> rfl

theorem consCell_map (cell : List α) (rows : List (List (List α))) :
    (consCell cell rows).map (List.map (List.map f)) =
      consCell (cell.map f) (rows.map (List.map (List.map f))) := by
  cases rows <;> rfl

/-- Whether the last row of a table is empty is the same after a map. -/
theorem dropEmptyRow_map (rows : List (List (List α))) :
    (dropEmptyRow rows).map (List.map (List.map f)) =
      dropEmptyRow (rows.map (List.map (List.map f))) := by
  unfold dropEmptyRow
  rw [List.getLast?_map]
  cases rows.getLast? with
  | none => rfl
  | some row =>
    cases row with
    | nil => rfl
    | cons cell cells => cases cell <;> cases cells <;> simp [List.map_dropLast]

end

variable [Builder α] [Builder β] {f : α → β}

theorem Environment.map_build (hf : Builder.Hom f) (e : Environment) (rows : List (List (List α))) :
    f (e.build rows) = e.build (rows.map (List.map (List.map f))) := by
  unfold Environment.build
  rw [← dropEmptyRow_map]
  split
  · exact hf.table e.leftAligned _
  · rw [hf.fenced, List.map_singleton, hf.table]

theorem map_leafOf (hf : Builder.Hom f) (kind : LeafKind) (text : Text) (role : LeafRole)
    (variant : Option Variant) :
    leafOf kind text role variant = (leafOf kind text role variant).map f := by
  unfold leafOf
  cases text.toMarkup with
  | error refusal => rfl
  | ok cs => exact congrArg Except.ok (hf.leaf _).symm

/-! ### Two runs -/

mutual

theorem sequence_map (hf : Builder.Hom f) (stop : Token → Bool) (ts : List Token) :
    sequence stop ts = (sequence stop ts).map (List.map f) := by
  match ts with
  | [] =>
    rw [sequence, sequence]
    rfl
  | t :: rest =>
    rw [sequence, sequence]
    cases stop t with
    | true => rfl
    | false =>
      simp only [Bool.false_eq_true, if_false]
      cases t.isScript with
      | true =>
        simp only [if_true]
        rw [argument_map hf rest]
        cases (argument rest : Parse (List α) _) with
        | error fault => rfl
        | ok p =>
          obtain ⟨ms, after, hafter⟩ := p
          simp only [Parse.map_ok, ← Scripts.map_none f, ← Scripts.map_add]
          rw [scripts_map hf _ after]
          cases (scripts (Scripts.none.add t ms) after : Parse (Scripts α) _) with
          | error fault => rfl
          | ok p =>
            obtain ⟨both, after', hafter'⟩ := p
            simp only [Parse.map_ok]
            rw [sequence_map hf stop after']
            cases (sequence stop after' : Parse (List α) _) with
            | error fault => rfl
            | ok p => simp only [Parse.map_ok, List.map_append, hf.attach, List.map_nil]
      | false =>
        simp only [Bool.false_eq_true, if_false]
        rw [element_map hf t rest]
        cases (element t rest : Parse (List α) _) with
        | error fault => rfl
        | ok p =>
          obtain ⟨base, after, hafter⟩ := p
          simp only [Parse.map_ok, ← Scripts.map_none f]
          rw [scripts_map hf _ after]
          cases (scripts Scripts.none after : Parse (Scripts α) _) with
          | error fault => rfl
          | ok p =>
            obtain ⟨both, after', hafter'⟩ := p
            simp only [Parse.map_ok]
            rw [sequence_map hf stop after']
            cases (sequence stop after' : Parse (List α) _) with
            | error fault => rfl
            | ok p => simp only [Parse.map_ok, List.map_append, hf.attach]
termination_by 4 * ts.length + 1
decreasing_by all_goals (simp only [List.length_cons] at *; omega)

theorem scripts_map (hf : Builder.Hom f) (found : Scripts α) (ts : List Token) :
    scripts (found.map f) ts = (scripts found ts).map (Scripts.map f) := by
  match ts with
  | [] =>
    rw [scripts, scripts]
    rfl
  | t :: rest =>
    rw [scripts, scripts]
    cases t.isScript with
    | false => rfl
    | true =>
      simp only [if_true, Scripts.double?_map]
      cases found.double? t with
      | some fault => rfl
      | none =>
        simp only
        rw [argument_map hf rest]
        cases (argument rest : Parse (List α) _) with
        | error fault => rfl
        | ok p =>
          obtain ⟨ms, after, hafter⟩ := p
          simp only [Parse.map_ok, ← Scripts.map_add]
          rw [scripts_map hf _ after]
          cases (scripts (found.add t ms) after : Parse (Scripts α) _) with
          | error fault => rfl
          | ok p => rfl
termination_by 4 * ts.length
decreasing_by all_goals (simp only [List.length_cons] at *; omega)

theorem argument_map (hf : Builder.Hom f) (ts : List Token) :
    argument ts = (argument ts).map (List.map f) := by
  match ts with
  | [] =>
    rw [argument, argument]
    rfl
  | t :: rest =>
    rw [argument, argument]
    cases t.endsArgument with
    | true => rfl
    | false =>
      simp only [Bool.false_eq_true, if_false]
      by_cases hopen : t = .openBrace
      · simp only [if_pos hopen]
        rw [group_map hf rest]
        cases (group rest : Parse (List α) _) with
        | error fault => rfl
        | ok p => rfl
      · simp only [if_neg hopen]
        rw [element_map hf t rest]
        cases (element t rest : Parse (List α) _) with
        | error fault => rfl
        | ok p => rfl
termination_by 4 * ts.length
decreasing_by all_goals (subst_vars; simp only [List.length_cons] at *; omega)

theorem group_map (hf : Builder.Hom f) (ts : List Token) :
    group ts = (group ts).map (List.map f) := by
  rw [group, group, sequence_map hf _ ts]
  cases (sequence (stopAt .closeBrace) ts : Parse (List α) _) with
  | error fault => rfl
  | ok p =>
    obtain ⟨ms, after, hafter⟩ := p
    simp only [Parse.map_ok]
    cases expect .closeBrace after with
    | error fault => rfl
    | ok p => rfl
termination_by 4 * ts.length + 2
decreasing_by all_goals omega

theorem optionalArgument_map (hf : Builder.Hom f) (ts : List Token) :
    optionalArgument ts = (optionalArgument ts).map (Option.map (List.map f)) := by
  unfold optionalArgument
  split
  · rename_i rest
    rw [sequence_map hf _ rest]
    cases (sequence (stopAt .closeBracket) rest : Parse (List α) _) with
    | error fault => rfl
    | ok p =>
      obtain ⟨ms, after, hafter⟩ := p
      simp only [Parse.map_ok]
      cases expect .closeBracket after with
      | error fault => rfl
      | ok p => rfl
  · rfl
termination_by 4 * ts.length
decreasing_by all_goals (subst_vars; simp only [List.length_cons] at *; omega)

theorem rows_map (hf : Builder.Hom f) (environment : String) (ts : List Token) :
    rows environment ts = (rows environment ts).map (List.map (List.map (List.map f))) := by
  rw [rows, rows, sequence_map hf _ ts]
  cases (sequence (stopAtCell environment) ts : Parse (List α) _) with
  | error fault => rfl
  | ok p =>
    obtain ⟨cell, after, hafter⟩ := p
    cases after with
    | nil => rfl
    | cons t after =>
      simp only [Parse.map_ok]
      by_cases hseparator : t = .separator
      · simp only [if_pos hseparator]
        rw [rows_map hf environment after]
        cases (rows environment after : Parse (List (List (List α))) _) with
        | error fault => rfl
        | ok p => simp only [Parse.map_ok, consCell_map]
      simp only [if_neg hseparator]
      by_cases hrow : t = .newRow
      · simp only [if_pos hrow]
        rw [rows_map hf environment after]
        cases (rows environment after : Parse (List (List (List α))) _) with
        | error fault => rfl
        | ok p => rfl
      simp only [if_neg hrow]
      split <;> rfl
termination_by 4 * ts.length + 2
decreasing_by all_goals (subst_vars; simp only [List.length_cons] at *; omega)

theorem element_map (hf : Builder.Hom f) (t : Token) (ts : List Token) :
    element t ts = (element t ts).map (List.map f) := by
  unfold element
  cases t.meaning with
  | leaf kind text role variant =>
    simp only
    rw [map_leafOf hf]
    cases (leafOf kind text role variant : Except Fault α) with
    | error fault => rfl
    | ok m => rfl
  | space width => simp only [Parse.map_ok, List.map_singleton, hf.space]
  | newline => simp only [Parse.map_ok, List.map_singleton, hf.newline]
  | group =>
    simp only
    rw [group_map hf ts]
    cases (group ts : Parse (List α) _) with
    | error fault => rfl
    | ok p => simp only [Parse.map_ok, List.map_singleton, hf.row]
  | fraction =>
    simp only
    rw [argument_map hf ts]
    cases (argument ts : Parse (List α) _) with
    | error fault => rfl
    | ok p =>
      obtain ⟨numerator, after, hafter⟩ := p
      simp only [Parse.map_ok]
      rw [argument_map hf after]
      cases (argument after : Parse (List α) _) with
      | error fault => rfl
      | ok p => simp only [Parse.map_ok, List.map_singleton, hf.fraction]
  | binomial =>
    simp only
    rw [argument_map hf ts]
    cases (argument ts : Parse (List α) _) with
    | error fault => rfl
    | ok p =>
      obtain ⟨upper, after, hafter⟩ := p
      simp only [Parse.map_ok]
      rw [argument_map hf after]
      cases (argument after : Parse (List α) _) with
      | error fault => rfl
      | ok p => simp only [Parse.map_ok, List.map_singleton, hf.fenced, hf.fraction]
  | radical =>
    simp only
    rw [optionalArgument_map hf ts]
    cases (optionalArgument ts : Parse (Option (List α)) _) with
    | error fault => rfl
    | ok p =>
      obtain ⟨index, after, hafter⟩ := p
      simp only [Parse.map_ok]
      rw [argument_map hf after]
      cases (argument after : Parse (List α) _) with
      | error fault => rfl
      | ok p => simp only [Parse.map_ok, List.map_singleton, hf.radical]
  | accent mark =>
    simp only
    rw [argument_map hf ts]
    cases (argument ts : Parse (List α) _) with
    | error fault => rfl
    | ok p => simp only [Parse.map_ok, List.map_singleton, hf.accent]
  | font variant =>
    simp only
    rw [argument_map hf ts]
    cases (argument ts : Parse (List α) _) with
    | error fault => rfl
    | ok p => simp only [Parse.map_ok, hf.withVariants]
  | bigDelimiter =>
    simp only
    cases delimiter t ts with
    | error fault => rfl
    | ok p => simp only [Parse.map_ok, List.map_singleton, hf.leaf]
  | leftDelimiter =>
    simp only
    cases delimiter t ts with
    | error fault => rfl
    | ok p =>
      obtain ⟨left, inside, hinside⟩ := p
      simp only
      rw [sequence_map hf _ inside]
      cases (sequence (stopAt (.word "right")) inside : Parse (List α) _) with
      | error fault => rfl
      | ok p =>
        obtain ⟨content, after, hafter⟩ := p
        cases after with
        | nil => rfl
        | cons mark after =>
          simp only [Parse.map_ok]
          by_cases hmark : mark = .word "right"
          · simp only [if_pos hmark]
            cases delimiter mark after with
            | error fault => rfl
            | ok p => simp only [Parse.map_ok, List.map_singleton, hf.fenced]
          · simp only [if_neg hmark, Parse.map_error]
  | environment name =>
    simp only
    cases environments.lookup name with
    | none => rfl
    | some e =>
      simp only
      rw [columns_map hf name ts]
      cases columns (α := α) name ts with
      | error fault => rfl
      | ok p =>
        obtain ⟨⟨⟩, after, hafter⟩ := p
        simp only
        rw [rows_map hf name after]
        cases (rows name after : Parse (List (List (List α))) _) with
        | error fault => rfl
        | ok p => simp only [Parse.map_ok, List.map_singleton, Environment.map_build hf]
  | namelessEnvironment | strayBrace | straySeparator | strayEnd | undefined => rfl
termination_by 4 * ts.length + 3
decreasing_by all_goals omega

theorem columns_map (hf : Builder.Hom f) (environment : String) (ts : List Token) :
    columns (α := β) environment ts = columns (α := α) environment ts := by
  unfold columns
  split
  · rename_i rest
    split
    · rw [group_map hf rest]
      cases (group rest : Parse (List α) _) with
      | error fault => rfl
      | ok p => rfl
    · rfl
  · rfl
termination_by 4 * ts.length
decreasing_by all_goals (subst_vars; simp only [List.length_cons] at *; omega)

end

/-- Parsing and then mapping is parsing for the other kind of parts. -/
theorem parseAs_map (hf : Builder.Hom f) (ts : List Token) :
    parseAs β ts = (parseAs α ts).map (List.map f) := by
  unfold parseAs
  rw [sequence_map hf stopNever ts]
  cases (sequence stopNever ts : Parse (List α) _) with
  | error fault => rfl
  | ok p =>
    obtain ⟨ms, rest, hrest⟩ := p
    cases rest <;> rfl

end DeltaPreview.Latex
