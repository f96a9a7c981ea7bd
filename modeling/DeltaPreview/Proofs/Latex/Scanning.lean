import DeltaPreview.Proofs.Latex.Spelling
import Mathlib.Data.List.TakeWhile

/-!
# Commands and numbers in a source

What follows a backslash is decided by the control name that begins there (`controlName`): a text command
or an end of an environment, if its braces follow the name, and else the control word
(`scanCommand_parts`).  A command and a number are spelled in the source as their tokens are
(`commandOf_spelled`, `scanNumber_append_self`).
-/

namespace DeltaPreview.Latex

/-! ### Spans that something ends -/

section Spans

variable {α : Type} {p : α → Bool} {xs more : List α}

theorem takeWhile_append_of_head (h : ∀ a ∈ more.head?, p a = false) :
    (xs ++ more).takeWhile p = xs.takeWhile p := by
  induction xs with
  | nil =>
    cases more with
    | nil => rfl
    | cons a more => simp [h a rfl]
  | cons x xs ih => rw [List.cons_append, List.takeWhile_cons, List.takeWhile_cons, ih]

theorem dropWhile_append_of_head (h : ∀ a ∈ more.head?, p a = false) :
    (xs ++ more).dropWhile p = xs.dropWhile p ++ more := by
  induction xs with
  | nil =>
    cases more with
    | nil => rfl
    | cons a more => simp [h a rfl]
  | cons x xs ih =>
    rw [List.cons_append, List.dropWhile_cons, List.dropWhile_cons, ih]
    split <;> rfl

end Spans

/-! ### Characters -/

theorem exists_char_of_isLetter {g : CodePoint} (h : isLetter g = true) : ∃ c, g = .char c := by
  cases g with
  | char c => exact ⟨c, rfl⟩
  | surrogate i => cases h

theorem exists_char_of_isDigit {g : CodePoint} (h : isDigit g = true) : ∃ c, g = .char c := by
  cases g with
  | char c => exact ⟨c, rfl⟩
  | surrogate i => cases h

/-! ### Text between braces -/

/-- Text without braces. -/
def Unbraced (t : Text) : Prop := ∀ g ∈ t, g ≠ .char '\x7b' ∧ g ≠ .char '\x7d'

theorem bracedBody?_eq_some_iff {s body rest : Text} :
    bracedBody? s = some (body, rest) ↔ s = body ++ .char '\x7d' :: rest ∧ Unbraced body := by
  constructor
  · intro h
    fun_induction bracedBody? s generalizing body with
    | case1 => cases h
    | case2 rest' =>
      cases h
      exact ⟨rfl, by simp [Unbraced]⟩
    | case3 => cases h
    | case4 g rest' hclose hopen ih =>
      obtain ⟨⟨b, a⟩, hbody, hparts⟩ := Option.map_eq_some_iff.mp h
      cases hparts
      obtain ⟨rfl, hplain⟩ := ih hbody
      exact ⟨rfl, List.forall_mem_cons.mpr ⟨⟨hopen, hclose⟩, hplain⟩⟩
  · rintro ⟨rfl, hplain⟩
    induction body with
    | nil => rfl
    | cons g body ih =>
      obtain ⟨⟨hopen, hclose⟩, hbody⟩ := List.forall_mem_cons.mp hplain
      rw [List.cons_append, bracedBody?, ih hbody]
      · rfl
      · exact hclose
      · exact hopen

theorem bracedText?_eq_some_iff {s body rest : Text} :
    bracedText? s = some (body, rest) ↔ s = Token.braced body ++ rest ∧ Unbraced body := by
  unfold bracedText?
  split
  · rw [bracedBody?_eq_some_iff]
    simp [Token.braced]
  · rename_i hopen
    simp only [reduceCtorEq, false_iff, not_and]
    rintro rfl
    exact absurd rfl (hopen _)

/-! ### Control names -/

/-- Letters, and possibly a star. -/
inductive IsControlName : Text → Prop
  | letters {name : Text} : name ≠ [] → (∀ g ∈ name, isLetter g = true) → IsControlName name
  | starred {name : Text} : name ≠ [] → (∀ g ∈ name, isLetter g = true) →
      IsControlName (name ++ [.char '*'])

/-- What cannot continue a control name. -/
def EndsName (rest : Text) : Prop := ∀ g ∈ rest.head?, isLetter g = false ∧ g ≠ .char '*'

theorem IsControlName.ne_nil {name : Text} (h : IsControlName name) : name ≠ [] := by
  cases h with
  | letters hne => exact hne
  | starred => simp

theorem IsControlName.mem {name : Text} (h : IsControlName name) :
    ∀ g ∈ name, isLetter g = true ∨ g = .char '*' := by
  cases h with
  | letters _ hall => exact fun g hg => .inl (hall g hg)
  | starred _ hall =>
    intro g hg
    rcases List.mem_append.mp hg with hg | hg
    · exact .inl (hall g hg)
    · exact .inr (List.mem_singleton.mp hg)

/-- A control name is a string. -/
theorem IsControlName.ofString_toString {name : Text} (h : IsControlName name) :
    Text.ofString (Text.toString name) = name := by
  rw [Text.ofString, Text.toString, String.toList_ofList]
  refine Text.ofChars_chars (Text.isPaired_iff.mpr fun g hg => ?_)
  rcases h.mem g hg with hletter | hstar
  · exact exists_char_of_isLetter hletter
  · exact ⟨'*', hstar⟩

/-- A star after letters ends a control name, whatever follows it. -/
theorem controlName_starred {letters : Text} (hne : letters ≠ [])
    (hall : ∀ g ∈ letters, isLetter g = true) (rest : Text) :
    controlName (letters ++ .char '*' :: rest) = (letters ++ [.char '*'], rest) := by
  have hstar : ∀ g ∈ (.char '*' :: rest : Text).head?, isLetter g = false := by
    rintro _ ⟨⟩
    rfl
  unfold controlName
  rw [takeWhile_exact hall hstar, dropWhile_exact hall hstar]
  split
  · exact absurd rfl hne
  · rename_i hdrop
    cases hdrop
    rfl
  · rename_i hnone
    exact absurd rfl (hnone rest)

/-- A control name is read up to what cannot continue it. -/
theorem controlName_append {name rest : Text} (hname : IsControlName name) (hrest : EndsName rest) :
    controlName (name ++ rest) = (name, rest) := by
  cases hname with
  | letters hne hall => exact controlName_letters hne hall hrest
  | starred hne hall =>
    rw [List.append_assoc, List.singleton_append, controlName_starred hne hall]

/-- What is read as a control name is one, or nothing is read. -/
theorem controlName_cases (s : Text) :
    ((controlName s) = ([], s) ∧ ∀ g ∈ s.head?, isLetter g = false) ∨
      (IsControlName (controlName s).1 ∧ (controlName s).1 ++ (controlName s).2 = s) := by
  have hsplit := List.takeWhile_append_dropWhile (p := isLetter) (l := s)
  have hletters : ∀ g ∈ s.takeWhile isLetter, isLetter g = true := fun _ => List.mem_takeWhile_imp
  unfold controlName
  split
  · rename_i hnone
    refine .inl ⟨rfl, ?_⟩
    cases s with
    | nil => simp
    | cons g s => simpa [List.takeWhile_cons] using hnone
  · rename_i rest hdrop hne
    refine .inr ⟨.starred hne hletters, ?_⟩
    rw [hdrop] at hsplit
    simpa using hsplit
  · rename_i hne _
    exact .inr ⟨.letters hne hletters, hsplit⟩

theorem controlName_append_self (s : Text) : (controlName s).1 ++ (controlName s).2 = s := by
  rcases controlName_cases s with ⟨hempty, -⟩ | ⟨-, hsplit⟩
  · rw [hempty]
    rfl
  · exact hsplit

theorem ofString_controlName (s : Text) :
    Text.ofString (Text.toString (controlName s).1) = (controlName s).1 := by
  rcases controlName_cases s with ⟨hempty, -⟩ | ⟨hname, -⟩
  · rw [hempty]
    rfl
  · exact hname.ofString_toString

/-- What a blank is not. -/
theorem not_isLetter_of_isBlank {g : CodePoint} (h : g.isBlank = true) :
    isLetter g = false ∧ isDigit g = false ∧ g ≠ .char '*' ∧ g ≠ .char '.' := by
  have hvisible (c : Char) (hg : g = .char c) (hc : isVisible c = true) : False := by
    rw [hg, isBlank_of_isVisible hc] at h
    cases h
  refine ⟨?_, ?_, fun hg => hvisible '*' hg (by decide), fun hg => hvisible '.' hg (by decide)⟩
  · cases g with
    | char c => exact Bool.eq_false_iff.mpr fun hc => hvisible c rfl (isVisible_of_isAlpha hc)
    | surrogate i => rfl
  · cases g with
    | char c => exact Bool.eq_false_iff.mpr fun hc => hvisible c rfl (isVisible_of_isDigit hc)
    | surrogate i => rfl

/-- A text that continues neither a name nor a number before it. -/
def StandsApart (more : Text) : Prop :=
  ∀ g ∈ more.head?, isLetter g = false ∧ isDigit g = false ∧ g ≠ .char '*' ∧ g ≠ .char '.'

/-- A text that goes on with a blank, or does not go on. -/
def GoesOnBlank (more : Text) : Prop := ∀ g ∈ more.head?, g.isBlank = true

theorem GoesOnBlank.standsApart {more : Text} (h : GoesOnBlank more) : StandsApart more :=
  fun g hg => not_isLetter_of_isBlank (h g hg)

/-- What stands apart ends a control name. -/
theorem controlName_append_apart (s : Text) {more : Text} (hmore : StandsApart more) :
    controlName (s ++ more) = ((controlName s).1, (controlName s).2 ++ more) := by
  have hletter : ∀ g ∈ more.head?, isLetter g = false := fun g hg => (hmore g hg).1
  have hstar : ∀ rest, more ≠ .char '*' :: rest := by
    rintro rest rfl
    exact (hmore _ rfl).2.2.1 rfl
  unfold controlName
  rw [takeWhile_append_of_head hletter, dropWhile_append_of_head hletter]
  generalize s.takeWhile isLetter = letters
  generalize s.dropWhile isLetter = rest
  cases letters with
  | nil => rfl
  | cons g letters =>
    cases rest with
    | nil =>
      rw [List.nil_append]
      split
      · rename_i hnil
        cases hnil
      · exact (hstar _ rfl).elim
      · rfl
    | cons d rest =>
      by_cases hd : d = .char '*'
      · rw [hd]
        rfl
      · simp [hd]

theorem takeWhile_prefix_controlName (s : Text) : s.takeWhile isLetter <+: (controlName s).1 := by
  unfold controlName
  split
  · rename_i hnone
    exact hnone ▸ List.nil_prefix
  · exact List.prefix_append ..
  · exact List.prefix_rfl

/-- A control name is read as well if the source ends somewhere after it. -/
theorem controlName_cut {name a b : Text} (h : controlName (name ++ (a ++ b)) = (name, a ++ b))
    (hname : IsControlName name) : controlName (name ++ a) = (name, a) := by
  cases hname with
  | starred hne hall =>
    rw [List.append_assoc, List.singleton_append, controlName_starred hne hall]
  | letters hne hall =>
    refine controlName_append (.letters hne hall) fun g hg => ?_
    obtain ⟨a, rfl⟩ := List.head?_eq_some_iff.mp hg
    constructor
    · -- A letter would go on with the name.
      refine Bool.eq_false_iff.mpr fun hletter => ?_
      have hlength := (takeWhile_prefix_controlName (name ++ (g :: a ++ b))).length_le
      rw [h, List.takeWhile_append_of_pos hall, List.cons_append,
        List.takeWhile_cons_of_pos hletter] at hlength
      simp only [List.length_append, List.length_cons] at hlength
      omega
    · rintro rfl
      rw [List.cons_append, controlName_starred hne hall] at h
      simpa using congrArg Prod.fst h

/-! ### What follows a backslash -/

/-- A token and what follows it. -/
def Scan.parts {bound : Nat} (scan : Scan bound) : Token × Text := (scan.token, scan.rest)

/-- A text command with its argument, given what follows its name. -/
def textCommand? (command : String) (after : Text) : Option (Token × Text) :=
  (bracedText? (after.dropWhile CodePoint.isBlank)).map fun p =>
    (.text command (after.takeWhile CodePoint.isBlank) p.1, p.2)

/-- An end of an environment with its name, given what follows its word. -/
def environmentEnd? (token : String → Token) (after : Text) : Option (Token × Text) :=
  (environmentName? after).map fun p => (token p.1, p.2)

/-- What a control name stands for together with the braces after it. -/
def completed? (name after : Text) : Option (Token × Text) :=
  if Text.toString name ∈ textCommands then textCommand? (Text.toString name) after
  else if name = Text.ofString "begin" then environmentEnd? .beginning after
  else if name = Text.ofString "end" then environmentEnd? .ending after
  else none

/-- The token of a backslash, given the text after it, and what follows the token. -/
def commandOf (s : Text) : Token × Text :=
  match controlName s with
  | ([], []) => (.backslash, [])
  | ([], g :: rest) => (.symbol g, rest)
  | (name, after) => (completed? name after).getD (.word (Text.toString name), after)

/-- Whatever is no letter is a command of its own. -/
theorem commandOf_symbol {g : CodePoint} (h : isLetter g = false) (s : Text) :
    commandOf (g :: s) = (.symbol g, s) := by
  have hnone : controlName (g :: s) = ([], g :: s) := by
    unfold controlName
    simp [h]
  unfold commandOf
  rw [hnone]

theorem commandOf_named {s name after : Text} (h : controlName s = (name, after)) (hne : name ≠ []) :
    commandOf s = (completed? name after).getD (.word (Text.toString name), after) := by
  unfold commandOf
  rw [h]
  cases name with
  | nil => exact absurd rfl hne
  | cons g name => rfl

/-- The text of a word. -/
theorem letters_of_isWord {word : String} (h : isWord word = true) :
    Text.ofString word ≠ [] ∧ ∀ g ∈ Text.ofString word, isLetter g = true := by
  obtain ⟨hne, hall⟩ := isWord_iff.mp h
  exact ⟨fun hnil => hne (List.map_eq_nil_iff.mp hnil), isLetter_ofChars hall⟩

theorem isControlName_of_isWord {word : String} (h : isWord word = true) :
    IsControlName (Text.ofString word) := by
  obtain ⟨hne, hall⟩ := letters_of_isWord h
  exact .letters hne hall

theorem isControlName_of_textCommand {command : String} (h : command ∈ textCommands) :
    IsControlName (Text.ofString command) := by
  by_cases hstar : command = "operatorname*"
  · have hword : isWord "operatorname" = true := by decide
    obtain ⟨hne, hall⟩ := letters_of_isWord hword
    rw [hstar]
    exact .starred hne hall
  · have hwords : ∀ command ∈ textCommands, command ≠ "operatorname*" → isWord command = true := by
      decide
    exact isControlName_of_isWord (hwords command h hstar)

/-- A word that something must follow which no control name goes on with is found exactly if it is the
control name. -/
theorem afterWord?_bind {α : Type} {word : String} (hword : IsControlName (Text.ofString word))
    {f : Text → Option α} (hf : ∀ after, (f after).isSome = true → EndsName after) (s : Text) :
    (Text.afterWord? word s).bind f =
      if (controlName s).1 = Text.ofString word then f (controlName s).2 else none := by
  split
  · rename_i heq
    have hs : s = Text.ofString word ++ (controlName s).2 := by
      rw [← heq, controlName_append_self]
    rw [Text.afterWord?_eq_some_iff.mpr hs, Option.bind_some]
  · rename_i hne
    refine Option.bind_eq_none_iff.mpr fun after hafter => ?_
    obtain rfl := Text.afterWord?_eq_some_iff.mp hafter
    cases hfound : f after with
    | none => rfl
    | some found =>
      have hend := hf after (by rw [hfound]; rfl)
      rw [controlName_append hword hend] at hne
      exact absurd rfl hne

/-- Something in braces ends a name, also after blanks. -/
theorem endsName_of_bracedText? {after : Text}
    (h : (bracedText? (after.dropWhile CodePoint.isBlank)).isSome = true) : EndsName after := by
  intro g hg
  cases after with
  | nil => cases hg
  | cons d after =>
    obtain rfl : d = g := Option.some.inj hg
    cases hblank : d.isBlank with
    | true => exact ⟨(not_isLetter_of_isBlank hblank).1, (not_isLetter_of_isBlank hblank).2.2.1⟩
    | false =>
      rw [List.dropWhile_cons_of_neg (by simp [hblank])] at h
      unfold bracedText? at h
      split at h
      · rename_i hopen
        cases hopen
        exact ⟨by decide, by decide⟩
      · cases h

/-- So does the name of an environment. -/
theorem endsName_of_environmentName? {after : Text} (h : (environmentName? after).isSome = true) :
    EndsName after := by
  unfold environmentName? at h
  split at h
  · rintro g ⟨⟩
    exact ⟨by decide, by decide⟩
  · cases h

/-- A text command is read exactly if it is the control name and something in braces follows it. -/
theorem textToken?_parts {command : String} (hcommand : command ∈ textCommands) (s : Text) :
    (textToken? command s).map Scan.parts =
      if (controlName s).1 = Text.ofString command then textCommand? command (controlName s).2
      else none := by
  have hend (after : Text) (h : (textCommand? command after).isSome = true) : EndsName after :=
    endsName_of_bracedText? (by simpa [textCommand?] using h)
  rw [← afterWord?_bind (isControlName_of_textCommand hcommand) hend]
  unfold textToken?
  split
  · rename_i hnone
    rw [hnone]
    rfl
  · rename_i after hafter
    split
    · rename_i hnone
      simp [hafter, textCommand?, hnone]
    · rename_i hsome
      simp [hafter, textCommand?, hsome, Scan.parts]

/-- So is an end of an environment, if the name of the environment follows it. -/
theorem environmentToken?_parts {word : String} (hword : isWord word = true)
    (token : String → Token) (s : Text) :
    (environmentToken? word token s).map Scan.parts =
      if (controlName s).1 = Text.ofString word then environmentEnd? token (controlName s).2
      else none := by
  have hend (after : Text) (h : (environmentEnd? token after).isSome = true) : EndsName after :=
    endsName_of_environmentName? (by simpa [environmentEnd?] using h)
  rw [← afterWord?_bind (isControlName_of_isWord hword) hend]
  unfold environmentToken?
  split
  · rename_i hnone
    rw [hnone]
    rfl
  · rename_i after hafter
    split
    · rename_i hnone
      simp [hafter, environmentEnd?, hnone]
    · rename_i hsome
      simp [hafter, environmentEnd?, hsome, Scan.parts]

theorem wordToken?_parts (s : Text) :
    (wordToken? s).map Scan.parts =
      if (controlName s).1 = [] then none
      else some (.word (Text.toString (controlName s).1), (controlName s).2) := by
  unfold wordToken?
  split
  · rename_i hnone
    rw [hnone]
    rfl
  · rename_i name rest hne hsome
    have hne : name ≠ [] := hne
    simp [hsome, hne, Scan.parts]

/-- One command at most has the name that is looked for. -/
theorem findSome?_named {α : Type} {name : Text} {f g : String → Option α} {commands : List String}
    (hname : Text.ofString (Text.toString name) = name)
    (h : ∀ command ∈ commands, f command = if name = Text.ofString command then g command else none) :
    commands.findSome? f =
      if Text.toString name ∈ commands then g (Text.toString name) else none := by
  induction commands with
  | nil => rfl
  | cons command commands ih =>
    rw [List.findSome?_cons, ih fun other hother => h other (List.mem_cons_of_mem command hother),
      h command List.mem_cons_self]
    by_cases heq : name = Text.ofString command
    · have hcommand : Text.toString name = command := by rw [heq, toString_ofString]
      rw [if_pos heq, hcommand, if_pos List.mem_cons_self]
      cases hfound : g command with
      | some found => rfl
      | none => simp
    · have hother : Text.toString name ≠ command := fun hcommand =>
        heq (by rw [← hcommand, hname])
      simp [heq, hother]

/-- The first of two tokens that is found. -/
theorem map_orElse_parts {bound : Nat} (first second : Option (Scan bound)) :
    (first <|> second).map Scan.parts = (first.map Scan.parts).or (second.map Scan.parts) := by
  cases first <;> rfl

/-- A control name is completed by the braces after it, if it can be, and is a control word otherwise. -/
theorem namedToken_parts (s : Text) :
    (textCommands.findSome? (textToken? · s) <|> environmentToken? "begin" .beginning s <|>
        environmentToken? "end" .ending s <|> wordToken? s).map Scan.parts =
      if (controlName s).1 = [] then none
      else some ((completed? (controlName s).1 (controlName s).2).getD
        (.word (Text.toString (controlName s).1), (controlName s).2)) := by
  have hname := ofString_controlName s
  have htext : (textCommands.findSome? (textToken? · s)).map Scan.parts = _ :=
    List.map_findSome?.trans
      (findSome?_named hname fun command hcommand => textToken?_parts hcommand s)
  rw [map_orElse_parts, map_orElse_parts, map_orElse_parts, htext,
    environmentToken?_parts (by decide), environmentToken?_parts (by decide), wordToken?_parts]
  generalize (controlName s).1 = name at hname ⊢
  generalize (controlName s).2 = after
  unfold completed?
  -- The attempts exclude each other, so their order does not matter.
  by_cases hempty : name = []
  · have hother : Text.toString [] ∉ textCommands ∧ [] ≠ Text.ofString "begin" ∧
        [] ≠ Text.ofString "end" := by decide
    simp [hempty, hother]
  by_cases htext : Text.toString name ∈ textCommands
  · have hbegin : name ≠ Text.ofString "begin" := by
      rintro rfl
      exact absurd htext (by decide)
    have hend : name ≠ Text.ofString "end" := by
      rintro rfl
      exact absurd htext (by decide)
    simp [hempty, htext, hbegin, hend]
  by_cases hbegin : name = Text.ofString "begin"
  · have hend : Text.ofString "begin" ≠ Text.ofString "end" := by decide
    have hcommand : "begin" ∉ textCommands := by decide
    simp [hbegin, hend, hcommand, hbegin ▸ hempty]
  by_cases hend : name = Text.ofString "end"
  · have hcommand : "end" ∉ textCommands := by decide
    simp [hend, hcommand, hend ▸ hempty]
  · simp [hempty, htext, hbegin, hend]

/-- A backslash is read by the control name after it. -/
theorem scanCommand_parts (s : Text) : (scanCommand s).parts = commandOf s := by
  have hparts := namedToken_parts s
  have hs := controlName_append_self s
  unfold scanCommand commandOf
  generalize (textCommands.findSome? (textToken? · s) <|>
    environmentToken? "begin" .beginning s <|> environmentToken? "end" .ending s <|>
    wordToken? s) = command? at hparts ⊢
  generalize controlName s = named at hparts hs ⊢
  obtain ⟨name, after⟩ := named
  cases name with
  | nil =>
    obtain rfl : after = s := hs
    have hnone : command? = none := by simpa using hparts
    rw [hnone]
    cases after <;> rfl
  | cons g name =>
    obtain ⟨found, hfound, hscan⟩ := Option.map_eq_some_iff.mp hparts
    rw [hfound]
    exact hscan

theorem environmentName?_eq_some_iff {after rest : Text} {environment : String} :
    environmentName? after = some (environment, rest) ↔
      after = Token.braced (Text.ofString environment) ++ rest ∧
        IsControlName (Text.ofString environment) := by
  constructor
  · intro h
    unfold environmentName? at h
    split at h
    · rename_i t
      split at h
      · cases h
      · rename_i name rest' hne ht
        cases h
        have hsplit := controlName_append_self t
        have hname := ofString_controlName t
        have hcases := controlName_cases t
        rw [ht] at hsplit hname hcases
        rw [hname, ← hsplit]
        refine ⟨by simp [Token.braced], ?_⟩
        rcases hcases with ⟨hempty, -⟩ | ⟨hcontrol, -⟩
        · exact absurd (congrArg Prod.fst hempty) hne
        · exact hcontrol
      · cases h
    · cases h
  · rintro ⟨rfl, hname⟩
    have hcontrol : controlName (Text.ofString environment ++ .char '\x7d' :: rest) =
        (Text.ofString environment, .char '\x7d' :: rest) :=
      controlName_append hname (by simp [EndsName, isLetter])
    have hne := hname.ne_nil
    simp only [Token.braced, List.cons_append, List.append_assoc, List.nil_append,
      environmentName?, hcontrol, toString_ofString]

theorem environmentEnd?_eq_some_iff {token : String → Token} {after rest : Text} {t : Token} :
    environmentEnd? token after = some (t, rest) ↔
      ∃ environment, t = token environment ∧
        after = Token.braced (Text.ofString environment) ++ rest ∧
        IsControlName (Text.ofString environment) := by
  unfold environmentEnd?
  simp only [Option.map_eq_some_iff, Prod.exists, environmentName?_eq_some_iff, Prod.mk.injEq]
  constructor
  · rintro ⟨environment, rest, h, rfl, rfl⟩
    exact ⟨environment, rfl, h⟩
  · rintro ⟨environment, rfl, h⟩
    exact ⟨environment, rest, h, rfl, rfl⟩

theorem textCommand?_eq_some_iff {command : String} {after rest : Text} {t : Token} :
    textCommand? command after = some (t, rest) ↔
      ∃ gap body, t = .text command gap body ∧ after = gap ++ (Token.braced body ++ rest) ∧
        (∀ g ∈ gap, g.isBlank = true) ∧ Unbraced body := by
  unfold textCommand?
  simp only [Option.map_eq_some_iff, Prod.exists, bracedText?_eq_some_iff, Prod.mk.injEq]
  constructor
  · rintro ⟨body, rest, ⟨hbraced, hbody⟩, rfl, rfl⟩
    refine ⟨_, body, rfl, ?_, fun g hg => List.mem_takeWhile_imp hg, hbody⟩
    rw [← hbraced, List.takeWhile_append_dropWhile]
  · rintro ⟨gap, body, rfl, rfl, hgap, hbody⟩
    have hopen : ∀ g ∈ (Token.braced body ++ rest).head?, g.isBlank = false := by
      rintro g ⟨⟩
      decide
    rw [takeWhile_exact hgap hopen, dropWhile_exact hgap hopen]
    exact ⟨body, rest, ⟨rfl, hbody⟩, rfl, rfl⟩

/-- A control name and the braces that complete it are spelled as their token is. -/
theorem completed?_spelled {name after rest : Text} {t : Token}
    (hname : Text.ofString (Text.toString name) = name)
    (h : completed? name after = some (t, rest)) :
    .char '\\' :: (name ++ after) = t.spelled ++ rest := by
  unfold completed? at h
  split at h
  · obtain ⟨gap, body, rfl, rfl, -⟩ := textCommand?_eq_some_iff.mp h
    simp [Token.spelled, Token.spellWord, hname]
  · split at h
    · rename_i hbegin
      obtain ⟨environment, rfl, rfl, -⟩ := environmentEnd?_eq_some_iff.mp h
      simp [Token.spelled, Token.spellWord, hbegin]
    · split at h
      · rename_i hend
        obtain ⟨environment, rfl, rfl, -⟩ := environmentEnd?_eq_some_iff.mp h
        simp [Token.spelled, Token.spellWord, hend]
      · cases h

theorem commandOf_spelled (s : Text) :
    .char '\\' :: s = (commandOf s).1.spelled ++ (commandOf s).2 := by
  have hs := controlName_append_self s
  have hname := ofString_controlName s
  unfold commandOf
  split
  · rename_i hnil
    rw [hnil] at hs
    rw [← hs]
    rfl
  · rename_i g rest hsymbol
    rw [hsymbol] at hs
    rw [← hs]
    rfl
  · rename_i name after _ _ hcontrol
    rw [hcontrol] at hs hname
    cases hcompleted : completed? name after with
    | none => simp [Token.spelled, Token.spellWord, hname, hs]
    | some found =>
      rw [← hs]
      exact completed?_spelled hname hcompleted

/-! ### Numbers -/

theorem scanNumber_append_self (s : Text) : (scanNumber s).1 ++ (scanNumber s).2 = s := by
  have hs := List.takeWhile_append_dropWhile (p := isDigit) (l := s)
  unfold scanNumber
  split
  · rename_i rest hpoint
    rw [hpoint] at hs
    have hrest := List.takeWhile_append_dropWhile (p := isDigit) (l := rest)
    split
    · exact hs
    · rw [List.append_assoc, List.cons_append, hrest]
      exact hs
  · exact hs

/-- Digits, and possibly a point and more digits, before a text that does not go on with them. -/
inductive IsNumber : Text → Text → Prop
  | whole {digits rest : Text} (hdigits : ∀ g ∈ digits, isDigit g = true)
      (hrest : ∀ g ∈ rest.head?, isDigit g = false)
      (hpoint : ∀ more, rest = .char '.' :: more → ∀ g ∈ more.head?, isDigit g = false) :
      IsNumber digits rest
  | decimal {digits fraction rest : Text} (hdigits : ∀ g ∈ digits, isDigit g = true)
      (hne : fraction ≠ []) (hfraction : ∀ g ∈ fraction, isDigit g = true)
      (hrest : ∀ g ∈ rest.head?, isDigit g = false) :
      IsNumber (digits ++ .char '.' :: fraction) rest

theorem head_dropWhile_isDigit (s : Text) : ∀ g ∈ (s.dropWhile isDigit).head?, isDigit g = false := by
  intro g hg
  have hnot := List.head?_dropWhile_not isDigit s
  rw [Option.mem_def.mp hg] at hnot
  exact hnot

theorem isNumber_scanNumber (s : Text) : IsNumber (scanNumber s).1 (scanNumber s).2 := by
  have hdigits : ∀ g ∈ s.takeWhile isDigit, isDigit g = true := fun _ => List.mem_takeWhile_imp
  unfold scanNumber
  split
  · rename_i rest hpoint
    split
    · rename_i hnone
      refine .whole hdigits (hpoint ▸ head_dropWhile_isDigit s) ?_
      rintro _ ⟨⟩ g hg
      obtain ⟨more, rfl⟩ := List.head?_eq_some_iff.mp hg
      refine Bool.eq_false_iff.mpr fun hdigit => ?_
      rw [List.takeWhile_cons_of_pos hdigit] at hnone
      cases hnone
    · rename_i hne
      exact .decimal hdigits hne (fun _ => List.mem_takeWhile_imp) (head_dropWhile_isDigit rest)
  · rename_i hnone
    refine .whole hdigits (head_dropWhile_isDigit s) fun more hmore => ?_
    exact absurd hmore (hnone more)

namespace IsNumber

variable {number rest a b : Text}

/-- What is read as a number is the whole number. -/
theorem scanNumber_append (h : IsNumber number rest) : scanNumber (number ++ rest) = (number, rest) := by
  cases h with
  | whole hdigits hrest hpoint =>
    unfold scanNumber
    rw [takeWhile_exact hdigits hrest, dropWhile_exact hdigits hrest]
    split
    · rename_i more
      have hnone : ([] ++ more).takeWhile isDigit = [] :=
        takeWhile_exact (by simp) (hpoint more rfl)
      rw [List.nil_append] at hnone
      rw [hnone]
    · rfl
  | decimal hdigits hne hfraction hrest =>
    rename_i digits fraction
    have hpoint : ∀ g ∈ (.char '.' :: (fraction ++ rest) : Text).head?, isDigit g = false := by
      rintro _ ⟨⟩
      decide
    unfold scanNumber
    rw [List.append_assoc, List.cons_append, takeWhile_exact hdigits hpoint,
      dropWhile_exact hdigits hpoint]
    simp only [takeWhile_exact hfraction hrest, dropWhile_exact hfraction hrest]

/-- A number is a string. -/
theorem ofChars_chars (h : IsNumber number rest) : Text.ofChars number.chars = number := by
  have hchar {digits : Text} (hdigits : ∀ g ∈ digits, isDigit g = true) : ∀ g ∈ digits, ∃ c, g = .char c :=
    fun g hg => exists_char_of_isDigit (hdigits g hg)
  refine Text.ofChars_chars (Text.isPaired_iff.mpr ?_)
  cases h with
  | whole hdigits => exact hchar hdigits
  | decimal hdigits _ hfraction =>
    rw [List.forall_mem_append, List.forall_mem_cons]
    exact ⟨hchar hdigits, ⟨'.', rfl⟩, hchar hfraction⟩

/-- What stands apart ends a number. -/
theorem append_apart (h : IsNumber number rest) {more : Text} (hmore : StandsApart more) :
    IsNumber number (rest ++ more) := by
  have hhead {s : Text} (hs : ∀ g ∈ s.head?, isDigit g = false) :
      ∀ g ∈ (s ++ more).head?, isDigit g = false := by
    cases s with
    | nil => exact fun g hg => (hmore g hg).2.1
    | cons d s => exact hs
  cases h with
  | whole hdigits hrest hpoint =>
    refine .whole hdigits (hhead hrest) fun after hafter => ?_
    cases rest with
    | nil =>
      obtain rfl : more = .char '.' :: after := hafter
      exact absurd rfl (hmore _ rfl).2.2.2
    | cons d rest =>
      obtain ⟨rfl, rfl⟩ := List.cons.inj hafter
      exact hhead (hpoint rest rfl)
  | decimal hdigits hne hfraction hrest => exact .decimal hdigits hne hfraction (hhead hrest)

/-- A number is read as well if the source ends somewhere after it. -/
theorem cut (h : IsNumber number (a ++ b)) : IsNumber number a := by
  have hhead (hrest : ∀ g ∈ (a ++ b).head?, isDigit g = false) :
      ∀ g ∈ a.head?, isDigit g = false := by
    intro g hg
    refine hrest g ?_
    rw [List.head?_append, Option.mem_def.mp hg]
    rfl
  cases h with
  | whole hdigits hrest hpoint =>
    refine .whole hdigits (hhead hrest) ?_
    rintro more rfl g hg
    refine hpoint (more ++ b) rfl g ?_
    rw [List.head?_append, Option.mem_def.mp hg]
    rfl
  | decimal hdigits hne hfraction hrest => exact .decimal hdigits hne hfraction (hhead hrest)

end IsNumber

theorem scanNumber_append_apart (s : Text) {more : Text} (hmore : StandsApart more) :
    scanNumber (s ++ more) = ((scanNumber s).1, (scanNumber s).2 ++ more) := by
  have hscan := ((isNumber_scanNumber s).append_apart hmore).scanNumber_append
  rwa [← List.append_assoc, scanNumber_append_self] at hscan

end DeltaPreview.Latex
