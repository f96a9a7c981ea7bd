import DeltaPreview.Proofs.Json.Number
import DeltaPreview.Proofs.Json.StringLiteral
import DeltaPreview.Proofs.Json.WellFormed

/-!
# Printed values read back

The pretty form of a well-formed value is read as the value, unless a double in it is infinite: then it is
not read at all (`Json.isSettled_of_wellFormed`).  Whole texts follow (`Json.read_pretty`,
`Json.read_pretty_eq_error`).
-/

namespace DeltaPreview.Json

/-! ### The reader without its bounds -/

variable {α : Type} {s : Text}

/-- What was read and the text after it. -/
def scanned (r : Except (Fault Text) (Scanned α s)) : Except (Fault Text) (α × Text) :=
  r.map fun r => (r.value, r.rest)

theorem scanned_value_string (depth : Nat) (t : Text) :
    scanned (value depth (.char '"' :: t)) =
      (stringBody (.char '"' :: t) t).map fun (k, after) => (.string k, after) := by
  rw [value]
  split
  next h =>
    rw [h]
    rfl
  next h => exact (congrArg (Except.map fun (k, after) => (string k, after)) h).symm

theorem scanned_value_atom {r : Except (Fault Text) (Json × Text)} (depth : Nat) (h : atom s = r)
    (hplace : r ≠ .error (.at .expectedValue s)) : scanned (value depth s) = r := by
  subst h
  unfold value
  split
  next => exact absurd rfl hplace
  next => exact absurd rfl hplace
  next => exact absurd rfl hplace
  next =>
    split
    next h => exact h.symm
    next h => exact h.symm

theorem scanned_value_array (depth : Nat) {t : Text} (hopen : closed? ']' t = none) :
    scanned (value (depth + 1) (.char '[' :: t)) =
      (scanned (elements depth (skipBlanks t))).map fun (items, after) => (.array items, after) := by
  rw [value, if_neg (Nat.succ_ne_zero depth), hopen]
  dsimp only
  rw [Nat.add_sub_cancel]
  split
  next h =>
    rw [h]
    rfl
  next h =>
    rw [h]
    rfl

theorem scanned_value_object (depth : Nat) {t : Text} (hopen : closed? '\x7d' t = none) :
    scanned (value (depth + 1) (.char '\x7b' :: t)) =
      (scanned (members depth [] (skipBlanks t))).map fun (found, after) => (.object found, after) := by
  rw [value, if_neg (Nat.succ_ne_zero depth), hopen]
  dsimp only
  rw [Nat.add_sub_cancel]
  split
  next h =>
    rw [h]
    rfl
  next h =>
    rw [h]
    rfl

theorem scanned_elements (depth : Nat) (s : Text) :
    scanned (elements depth s) = (do
      let (v, after) ← scanned (value depth s)
      match ← scanned (separator ']' after) with
      | (.close, rest) => .ok ([v], rest)
      | (.comma, next) => (scanned (elements depth next)).map fun (vs, rest) => (v :: vs, rest)) := by
  rw [elements]
  split
  next h =>
    rw [h]
    rfl
  next v after _ h =>
    rw [h]
    show _ = scanned (separator ']' after) >>= _
    split
    next h =>
      rw [h]
      rfl
    next h =>
      rw [h]
      rfl
    next next _ h =>
      rw [h]
      show _ = (scanned (elements depth next)).map _
      split
      next h =>
        rw [h]
        rfl
      next h =>
        rw [h]
        rfl

theorem scanned_members (depth : Nat) (found : List (Text × Json)) (s : Text) :
    scanned (members depth found s) = (do
      let (name, afterName) ← scanned (key s)
      let ((), afterColon) ← scanned (expect ':' .expectedColon afterName)
      let (v, after) ← scanned (value depth (skipBlanks afterColon))
      match ← scanned (separator '\x7d' after) with
      | (.close, rest) => .ok (insert name v found, rest)
      | (.comma, next) => scanned (members depth (insert name v found) next)) := by
  rw [members]
  split
  next h =>
    rw [h]
    rfl
  next name afterName _ h =>
    rw [h]
    show _ = scanned (expect ':' .expectedColon afterName) >>= _
    split
    next h =>
      rw [h]
      rfl
    next afterColon _ h =>
      rw [h]
      show _ = scanned (value depth (skipBlanks afterColon)) >>= _
      dsimp only
      split
      next h =>
        rw [h]
        rfl
      next v after _ h =>
        rw [h]
        show _ = scanned (separator '\x7d' after) >>= _
        split
        next h =>
          rw [h]
          rfl
        next h =>
          rw [h]
          rfl
        next next _ h =>
          rw [h]
          show _ = scanned (members depth (insert name v found) next)
          split
          next h =>
            rw [h]
            rfl
          next h =>
            rw [h]
            rfl

/-! ### Marks and blanks -/

theorem closed?_eq_none {close : Char} (h : ∀ t, skipBlanks s ≠ .char close :: t) :
    closed? close s = none := by
  unfold closed?
  split
  next c rest heq =>
    refine if_neg ?_
    rintro rfl
    exact h rest heq
  next => rfl

theorem scanned_separator_close {close : Char} {t : Text} (h : skipBlanks s = .char close :: t) :
    scanned (separator close s) = .ok (.close, t) := by
  unfold separator
  split
  next heq =>
    rw [h] at heq
    cases heq
    rw [if_pos rfl]
    rfl
  next hno => exact absurd h (hno _ _)

theorem scanned_separator_comma {close : Char} (hclose : ',' ≠ close) {t : Text}
    (h : skipBlanks s = .char ',' :: t) : scanned (separator close s) = .ok (.comma, skipBlanks t) := by
  unfold separator
  split
  next heq =>
    rw [h] at heq
    cases heq
    rw [if_neg hclose, if_pos rfl]
    rfl
  next hno => exact absurd h (hno _ _)

theorem scanned_expect {mark : Char} (cause : Cause) {t : Text} (h : skipBlanks s = .char mark :: t) :
    scanned (expect mark cause s) = .ok ((), t) := by
  unfold expect
  split
  next heq =>
    rw [h] at heq
    cases heq
    rw [if_pos rfl]
    rfl
  next hno => exact absurd h (hno _ _)

theorem skipBlanks_newline (n : Nat) (s : Text) : skipBlanks (newline n ++ s) = skipBlanks s := by
  refine List.dropWhile_append_of_pos fun g hg => ?_
  rcases List.mem_cons.mp hg with rfl | hg
  · rfl
  · rw [List.eq_of_mem_replicate hg]
    rfl

theorem scanned_value_of_blank {g : CodePoint} (hg : isBlank g = true) (depth : Nat) (t : Text) :
    scanned (value depth (g :: t)) = .error (.at .expectedValue (g :: t)) := by
  cases g with
  | surrogate => cases hg
  | char c =>
    simp only [isBlank, Bool.or_eq_true, beq_iff_eq] at hg
    rcases hg with ((rfl | rfl) | rfl) | rfl
    all_goals
      unfold value
      rfl

theorem scanned_value_close (depth : Nat) (t : Text) :
    scanned (value depth (.char ']' :: t)) = .error (.at .expectedValue (.char ']' :: t)) := by
  unfold value
  rfl

/-- A text that a value begins has neither a blank nor a closing bracket before it. -/
theorem skipBlanks_eq_self {depth : Nat} (h : scanned (value depth s) ≠ .error (.at .expectedValue s)) :
    skipBlanks s = s ∧ ∀ t, s ≠ .char ']' :: t := by
  constructor
  · cases s with
    | nil => rfl
    | cons g t =>
      cases hg : isBlank g with
      | true => exact absurd (scanned_value_of_blank hg depth t) h
      | false => exact List.dropWhile_cons_of_neg (by rw [hg]; decide)
  · rintro t rfl
    exact h (scanned_value_close depth t)

/-! ### Objects -/

theorem insert_of_notMem {key : Text} (v : Json) {members : List (Text × Json)}
    (h : key ∉ members.map Prod.fst) : insert key v members = members ++ [(key, v)] := by
  induction members with
  | nil => rfl
  | cons m rest ih =>
    rw [List.map_cons, List.mem_cons, not_or] at h
    rw [insert, if_neg (Ne.symm h.1), ih h.2]
    rfl

theorem quote_append (name s : Text) :
    quote name ++ s = .char '"' :: (name.flatMap escape ++ .char '"' :: s) := by
  rw [quote, List.cons_append, List.append_assoc]
  rfl

theorem scanned_key (t : Text) :
    scanned (key (.char '"' :: t)) = stringBody (.char '"' :: t) t := by
  rw [key]
  split
  next h => exact h.symm
  next h => exact h.symm

theorem scanned_key_quote (name s : Text) : scanned (key (quote name ++ s)) = .ok (name, s) := by
  rw [quote_append, scanned_key, stringBody_quoted]

/-! ### The lines of arrays and objects -/

/-- A text that begins with a value, or with a word that is no value. -/
def Begins (depth : Nat) (s : Text) : Prop :=
  scanned (value depth s) ≠ .error (.at .expectedValue s)

/-- The printed value is read back, whatever follows it that is not part of a number. -/
def ReadsBack (depth : Nat) (v : Json) : Prop :=
  ∀ indent rest, EndsNumber rest → scanned (value depth (prettyAt indent v ++ rest)) = .ok (v, rest)

/-- Some word in the printed value cannot be read. -/
def IsRefused (depth : Nat) (v : Json) : Prop :=
  ∀ indent rest, ∃ word, scanned (value depth (prettyAt indent v ++ rest)) = .error (.notJson word)

/-- The lines of an array from its first element on, and what follows the array. -/
def elementsText (indent outer : Nat) (rest : Text) (v : Json) (vs : List Json) : Text :=
  prettyAt indent v ++ (prettyItems indent vs ++ (newline outer ++ .char ']' :: rest))

/-- The lines of an object from its first member on, and what follows the object. -/
def membersText (indent outer : Nat) (rest : Text) (m : Text × Json) (ms : List (Text × Json)) : Text :=
  quote m.1 ++ (Text.ofString ": " ++ (prettyAt indent m.2 ++ (prettyMembers indent ms ++
    (newline outer ++ .char '\x7d' :: rest))))

section Steps

variable {depth indent outer : Nat} {rest : Text} {v w : Json} {vs : List Json} {m n : Text × Json}
  {ms found : List (Text × Json)}

theorem prettyAt_array_append : prettyAt outer (.array (v :: vs)) ++ rest =
    .char '[' :: (newline (outer + 1) ++ elementsText (outer + 1) outer rest v vs) := by
  simp only [prettyAt, elementsText, List.cons_append, List.append_assoc, List.nil_append]

theorem prettyAt_object_append : prettyAt outer (.object (m :: ms)) ++ rest =
    .char '\x7b' :: (newline (outer + 1) ++ membersText (outer + 1) outer rest m ms) := by
  simp only [prettyAt, membersText, List.cons_append, List.append_assoc, List.nil_append]

theorem prettyItems_cons_append :
    prettyItems indent (w :: vs) ++ (newline outer ++ .char ']' :: rest) =
      .char ',' :: (newline indent ++ elementsText indent outer rest w vs) := by
  simp only [prettyItems, elementsText, List.cons_append, List.append_assoc]

theorem prettyMembers_cons_append :
    prettyMembers indent (n :: ms) ++ (newline outer ++ .char '\x7d' :: rest) =
      .char ',' :: (newline indent ++ membersText indent outer rest n ms) := by
  simp only [prettyMembers, membersText, List.cons_append, List.append_assoc]

/-- What follows an element is not part of a number. -/
theorem endsNumber_items (rest : Text) : EndsNumber (prettyItems indent vs ++ (newline outer ++ rest)) := by
  cases vs with
  | nil => exact endsNumber_newline _
  | cons v vs => exact endsNumber_comma _

theorem endsNumber_members (rest : Text) :
    EndsNumber (prettyMembers indent ms ++ (newline outer ++ rest)) := by
  cases ms with
  | nil => exact endsNumber_newline _
  | cons m ms => exact endsNumber_comma _

theorem ReadsBack.begins (hv : ReadsBack depth v) (hrest : EndsNumber rest) :
    Begins depth (prettyAt indent v ++ rest) := by
  rw [Begins, hv indent rest hrest]
  nofun

theorem IsRefused.begins (hv : IsRefused depth v) : Begins depth (prettyAt indent v ++ rest) := by
  obtain ⟨word, h⟩ := hv indent rest
  rw [Begins, h]
  nofun

theorem scanned_array_newline (hbegins : Begins depth (elementsText indent outer rest v vs)) (n : Nat) :
    scanned (value (depth + 1) (.char '[' :: (newline n ++ elementsText indent outer rest v vs))) =
      (scanned (elements depth (elementsText indent outer rest v vs))).map fun (items, after) =>
        (.array items, after) := by
  obtain ⟨hskip, hclose⟩ := skipBlanks_eq_self hbegins
  have hnewline := (skipBlanks_newline n _).trans hskip
  have hopen := closed?_eq_none fun t => hnewline.symm ▸ hclose t
  rw [scanned_value_array depth hopen, hnewline]

theorem scanned_object_newline (n : Nat) :
    scanned (value (depth + 1) (.char '\x7b' :: (newline n ++ membersText indent outer rest m ms))) =
      (scanned (members depth [] (membersText indent outer rest m ms))).map fun (found, after) =>
        (.object found, after) := by
  have hskip : skipBlanks (newline n ++ membersText indent outer rest m ms) =
      membersText indent outer rest m ms := skipBlanks_newline n _
  have hopen (t : Text) : skipBlanks (newline n ++ membersText indent outer rest m ms) ≠
      .char '\x7d' :: t := by
    rw [hskip, membersText, quote_append]
    rintro ⟨⟩
  rw [scanned_value_object depth (closed?_eq_none hopen), hskip]

/-- The last element is followed by the closing bracket. -/
theorem scanned_elements_last (hv : ReadsBack depth v) :
    scanned (elements depth (elementsText indent outer rest v [])) = .ok ([v], rest) := by
  have hclose : scanned (separator ']' (newline outer ++ .char ']' :: rest)) = .ok (.close, rest) :=
    scanned_separator_close (skipBlanks_newline outer _)
  rw [scanned_elements, elementsText, hv _ _ (endsNumber_items _), prettyItems, List.nil_append]
  dsimp only [bind, Except.bind]
  rw [hclose]

/-- Any other element is followed by the next one. -/
theorem scanned_elements_next (hv : ReadsBack depth v)
    (hw : Begins depth (elementsText indent outer rest w vs)) :
    scanned (elements depth (elementsText indent outer rest v (w :: vs))) =
      (scanned (elements depth (elementsText indent outer rest w vs))).map fun (items, after) =>
        (v :: items, after) := by
  have hcomma : scanned (separator ']' (.char ',' ::
      (newline indent ++ elementsText indent outer rest w vs))) =
        .ok (.comma, elementsText indent outer rest w vs) := by
    rw [scanned_separator_comma (by decide) rfl, skipBlanks_newline, (skipBlanks_eq_self hw).1]
  rw [scanned_elements, elementsText, hv _ _ (endsNumber_items _), prettyItems_cons_append]
  dsimp only [bind, Except.bind]
  rw [hcomma]

/-- The name of a member is followed by its value. -/
theorem scanned_members_quote (k : Text) {t : Text} (ht : Begins depth t) :
    scanned (members depth found (quote k ++ (Text.ofString ": " ++ t))) = (do
      let (v, after) ← scanned (value depth t)
      match ← scanned (separator '\x7d' after) with
      | (.close, rest) => .ok (insert k v found, rest)
      | (.comma, next) => scanned (members depth (insert k v found) next)) := by
  have hcolon : scanned (expect ':' .expectedColon (Text.ofString ": " ++ t)) = .ok ((), .char ' ' :: t) :=
    scanned_expect _ rfl
  have hskip : skipBlanks (.char ' ' :: t) = t := (skipBlanks_eq_self ht).1
  rw [scanned_members, scanned_key_quote]
  dsimp only [bind, Except.bind]
  rw [hcolon]
  dsimp only
  rw [hskip]

/-- The last member is followed by the closing brace. -/
theorem scanned_members_last (hv : ReadsBack depth m.2) (hnew : m.1 ∉ found.map Prod.fst) :
    scanned (members depth found (membersText indent outer rest m [])) = .ok (found ++ [m], rest) := by
  have hclose : scanned (separator '\x7d' (newline outer ++ .char '\x7d' :: rest)) = .ok (.close, rest) :=
    scanned_separator_close (skipBlanks_newline outer _)
  rw [membersText, scanned_members_quote _ (hv.begins (endsNumber_members _)),
    hv _ _ (endsNumber_members _), prettyMembers, List.nil_append]
  dsimp only [bind, Except.bind]
  rw [hclose, insert_of_notMem _ hnew]

/-- Any other member is followed by the next one. -/
theorem scanned_members_next (hv : ReadsBack depth m.2) (hnew : m.1 ∉ found.map Prod.fst) :
    scanned (members depth found (membersText indent outer rest m (n :: ms))) =
      scanned (members depth (found ++ [m]) (membersText indent outer rest n ms)) := by
  have hcomma : scanned (separator '\x7d' (.char ',' ::
      (newline indent ++ membersText indent outer rest n ms))) =
        .ok (.comma, membersText indent outer rest n ms) := by
    rw [scanned_separator_comma (by decide) rfl, skipBlanks_newline]
    rfl
  rw [membersText, scanned_members_quote _ (hv.begins (endsNumber_members _)),
    hv _ _ (endsNumber_members _), prettyMembers_cons_append]
  dsimp only [bind, Except.bind]
  rw [hcomma, insert_of_notMem _ hnew]

end Steps

/-! ### Values that are read back -/

mutual

/-- Whether no double in a value is infinite. -/
def isFinite : Json → Bool
  | float x => x.isFinite
  | array items => allFinite items
  | object members => membersFinite members
  | _ => true

def allFinite : List Json → Bool
  | [] => true
  | v :: vs => v.isFinite && allFinite vs

def membersFinite : List (Text × Json) → Bool
  | [] => true
  | (_, v) :: ms => v.isFinite && membersFinite ms

end

theorem allFinite_iff (vs : List Json) : allFinite vs = true ↔ ∀ v ∈ vs, v.isFinite = true := by
  induction vs with
  | nil => exact iff_of_true rfl fun _ hv => absurd hv List.not_mem_nil
  | cons v vs ih => rw [allFinite, Bool.and_eq_true, ih, List.forall_mem_cons]

theorem membersFinite_iff (ms : List (Text × Json)) :
    membersFinite ms = true ↔ ∀ m ∈ ms, m.2.isFinite = true := by
  induction ms with
  | nil => exact iff_of_true rfl fun _ hm => absurd hm List.not_mem_nil
  | cons m ms ih => rw [membersFinite, Bool.and_eq_true, ih, List.forall_mem_cons]

section Values

variable {depth : Nat} {v : Json} {vs : List Json} {m : Text × Json} {ms found : List (Text × Json)}

theorem elements_readBack (hitems : ∀ w ∈ v :: vs, ReadsBack depth w) (indent outer : Nat) (rest : Text) :
    scanned (elements depth (elementsText indent outer rest v vs)) = .ok (v :: vs, rest) := by
  induction vs generalizing v with
  | nil => exact scanned_elements_last (hitems v List.mem_cons_self)
  | cons w vs ih =>
    rw [List.forall_mem_cons] at hitems
    have hw := hitems.2 w List.mem_cons_self
    rw [scanned_elements_next hitems.1 (hw.begins (endsNumber_items _)), ih hitems.2]
    rfl

theorem notMem_of_nodup (hkeys : ((found ++ m :: ms).map Prod.fst).Nodup) : m.1 ∉ found.map Prod.fst := by
  rw [List.map_append, List.nodup_append] at hkeys
  exact fun hold => hkeys.2.2 _ hold _ List.mem_cons_self rfl

theorem members_readBack (hmembers : ∀ n ∈ m :: ms, ReadsBack depth n.2)
    (hkeys : ((found ++ m :: ms).map Prod.fst).Nodup) (indent outer : Nat) (rest : Text) :
    scanned (members depth found (membersText indent outer rest m ms)) = .ok (found ++ m :: ms, rest) := by
  induction ms generalizing found m with
  | nil => exact scanned_members_last (hmembers m List.mem_cons_self) (notMem_of_nodup hkeys)
  | cons n ms ih =>
    rw [List.forall_mem_cons] at hmembers
    rw [scanned_members_next hmembers.1 (notMem_of_nodup hkeys)]
    have hsplit : found ++ m :: n :: ms = found ++ [m] ++ n :: ms := List.append_cons _ _ _
    rw [hsplit] at hkeys ⊢
    exact ih hmembers.2 hkeys

/-! ### Values that are refused -/

/-- A printed value is read back or refused, according to its doubles. -/
structure IsSettled (depth : Nat) (v : Json) : Prop where
  readsBack : v.isFinite = true → ReadsBack depth v
  isRefused : v.isFinite = false → IsRefused depth v

theorem IsSettled.begins_elementsText (hv : IsSettled depth v) (vs : List Json) (indent outer : Nat)
    (rest : Text) : Begins depth (elementsText indent outer rest v vs) := by
  cases hfinite : v.isFinite with
  | true => exact (hv.readsBack hfinite).begins (endsNumber_items _)
  | false => exact (hv.isRefused hfinite).begins

theorem IsRefused.elements (hv : IsRefused depth v) (indent outer : Nat) (rest : Text) :
    ∃ word, scanned (elements depth (elementsText indent outer rest v vs)) = .error (.notJson word) := by
  obtain ⟨word, h⟩ := hv indent (prettyItems indent vs ++ (newline outer ++ .char ']' :: rest))
  refine ⟨word, ?_⟩
  rw [scanned_elements, elementsText, h]
  rfl

theorem IsRefused.members (hm : IsRefused depth m.2) (indent outer : Nat) (rest : Text) :
    ∃ word, scanned (members depth found (membersText indent outer rest m ms)) =
      .error (.notJson word) := by
  obtain ⟨word, h⟩ := hm indent (prettyMembers indent ms ++ (newline outer ++ .char '\x7d' :: rest))
  refine ⟨word, ?_⟩
  rw [membersText, scanned_members_quote _ hm.begins, h]
  rfl

/-- The first infinite double among the elements is where reading ends. -/
theorem elements_refused (hitems : ∀ w ∈ v :: vs, IsSettled depth w)
    (hinfinite : allFinite (v :: vs) = false) (indent outer : Nat) (rest : Text) :
    ∃ word, scanned (elements depth (elementsText indent outer rest v vs)) = .error (.notJson word) := by
  induction vs generalizing v with
  | nil =>
    rw [allFinite, allFinite, Bool.and_true] at hinfinite
    exact ((hitems v List.mem_cons_self).isRefused hinfinite).elements indent outer rest
  | cons w vs ih =>
    rw [List.forall_mem_cons] at hitems
    rw [allFinite] at hinfinite
    cases hv : v.isFinite with
    | false => exact (hitems.1.isRefused hv).elements indent outer rest
    | true =>
      rw [hv, Bool.true_and] at hinfinite
      obtain ⟨word, h⟩ := ih hitems.2 hinfinite
      have hw := (hitems.2 w List.mem_cons_self).begins_elementsText vs indent outer rest
      exact ⟨word, by rw [scanned_elements_next (hitems.1.readsBack hv) hw, h]; rfl⟩

theorem members_refused (hmembers : ∀ n ∈ m :: ms, IsSettled depth n.2)
    (hkeys : ((found ++ m :: ms).map Prod.fst).Nodup) (hinfinite : membersFinite (m :: ms) = false)
    (indent outer : Nat) (rest : Text) :
    ∃ word, scanned (members depth found (membersText indent outer rest m ms)) =
      .error (.notJson word) := by
  induction ms generalizing found m with
  | nil =>
    rw [membersFinite, membersFinite, Bool.and_true] at hinfinite
    exact ((hmembers m List.mem_cons_self).isRefused hinfinite).members indent outer rest
  | cons n ms ih =>
    rw [List.forall_mem_cons] at hmembers
    rw [membersFinite] at hinfinite
    cases hm : m.2.isFinite with
    | false => exact (hmembers.1.isRefused hm).members indent outer rest
    | true =>
      rw [hm, Bool.true_and] at hinfinite
      have hnew := notMem_of_nodup hkeys
      rw [List.append_cons] at hkeys
      obtain ⟨word, h⟩ := ih hmembers.2 hkeys hinfinite
      exact ⟨word, by rw [scanned_members_next (hmembers.1.readsBack hm) hnew, h]⟩

/-! ### All values -/

theorem isSettled_atom {v : Json} (hfinite : v.isFinite = true) (hread : ReadsBack depth v) :
    IsSettled depth v :=
  ⟨fun _ => hread, fun h => absurd hfinite (by rw [h]; decide)⟩

/-- A well-formed value is read back, or refused if it has an infinite double. -/
theorem isSettled_of_wellFormed (hv : WellFormed depth v) : IsSettled depth v := by
  induction hv with
  | null => exact isSettled_atom rfl fun _ _ _ => scanned_value_atom _ rfl nofun
  | bool b => cases b with
    | true => exact isSettled_atom rfl fun _ _ _ => scanned_value_atom _ rfl nofun
    | false => exact isSettled_atom rfl fun _ _ _ => scanned_value_atom _ rfl nofun
  | int hshort =>
    exact isSettled_atom rfl fun _ _ hrest => scanned_value_atom _ (atom_intText hshort hrest) nofun
  | float hnumber =>
    refine ⟨fun hfinite _ _ hrest => ?_, fun hinfinite _ rest => ?_⟩
    · exact scanned_value_atom _ (atom_floatText hfinite hrest) nofun
    · obtain ⟨word, h⟩ := atom_floatText_eq_error hnumber hinfinite rest
      exact ⟨word, scanned_value_atom _ h nofun⟩
  | string s =>
    refine isSettled_atom rfl fun indent rest _ => ?_
    rw [prettyAt, quote_append, scanned_value_string, stringBody_quoted]
    rfl
  | @array depth items hitems ih =>
    cases items with
    | nil => exact isSettled_atom rfl fun _ _ _ => by unfold value; rfl
    | cons v vs =>
      have hbegins (indent outer : Nat) (rest : Text) :
          Begins depth (elementsText indent outer rest v vs) :=
        (ih v List.mem_cons_self).begins_elementsText vs indent outer rest
      refine ⟨fun hfinite indent rest _ => ?_, fun hinfinite indent rest => ?_⟩
      · rw [isFinite, allFinite_iff] at hfinite
        have hread : ∀ w ∈ v :: vs, ReadsBack depth w := fun w hw => (ih w hw).readsBack (hfinite w hw)
        rw [prettyAt_array_append, scanned_array_newline (hbegins _ _ _), elements_readBack hread]
        rfl
      · obtain ⟨word, h⟩ := elements_refused ih hinfinite (indent + 1) indent rest
        rw [prettyAt_array_append, scanned_array_newline (hbegins _ _ _), h]
        exact ⟨word, rfl⟩
  | @object depth members hmembers hkeys ih =>
    cases members with
    | nil => exact isSettled_atom rfl fun _ _ _ => by unfold value; rfl
    | cons m ms =>
      refine ⟨fun hfinite indent rest _ => ?_, fun hinfinite indent rest => ?_⟩
      · rw [isFinite, membersFinite_iff] at hfinite
        have hread : ∀ n ∈ m :: ms, ReadsBack depth n.2 := fun n hn => (ih n hn).readsBack (hfinite n hn)
        rw [prettyAt_object_append, scanned_object_newline, members_readBack hread hkeys]
        rfl
      · obtain ⟨word, h⟩ : ∃ word,
            scanned (Json.members depth [] (membersText (indent + 1) indent rest m ms)) =
              .error (.notJson word) := members_refused ih hkeys hinfinite (indent + 1) indent rest
        rw [prettyAt_object_append, scanned_object_newline, h]
        exact ⟨word, rfl⟩

end Values

/-! ### Whole texts -/

theorem scanned_value_mark (depth : Nat) (t : Text) :
    scanned (value depth (.char '\ufeff' :: t)) = .error (.at .expectedValue (.char '\ufeff' :: t)) := by
  unfold value
  rfl

theorem document_of_begins {s : Text} (hs : Begins maxDepth s) :
    document s = (do
      let (v, after) ← scanned (value maxDepth s)
      match skipBlanks after with
      | [] => .ok v
      | rest => .error (.at .extraData rest)) := by
  have hskip : scanned (value maxDepth (skipBlanks s)) = scanned (value maxDepth s) := by
    rw [(skipBlanks_eq_self hs).1]
  unfold document
  split
  next t => exact absurd (scanned_value_mark maxDepth t) hs
  next =>
    rw [← hskip]
    split
    next h =>
      rw [h]
      rfl
    next h =>
      rw [h]
      rfl

/-- A well-formed value without infinite doubles is read from its pretty form. -/
theorem read_pretty {v : Json} (hv : WellFormed maxDepth v) (hfinite : v.isFinite = true) :
    read v.pretty = .ok v := by
  have hread := (isSettled_of_wellFormed hv).readsBack hfinite 0 [] endsNumber_nil
  rw [List.append_nil] at hread
  rw [read, pretty, document_of_begins (by rw [Begins, hread]; nofun), hread]
  rfl

/-- The pretty form of any other is no JSON. -/
theorem read_pretty_eq_error {v : Json} (hv : WellFormed maxDepth v) (hinfinite : v.isFinite = false) :
    ∃ word, read v.pretty = .error (.notJson word) := by
  obtain ⟨word, hread⟩ := (isSettled_of_wellFormed hv).isRefused hinfinite 0 []
  rw [List.append_nil] at hread
  refine ⟨word, ?_⟩
  rw [read, pretty, document_of_begins (by rw [Begins, hread]; nofun), hread]
  rfl

end DeltaPreview.Json
