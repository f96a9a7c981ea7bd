import DeltaPreview.Proofs.Delta.Kept

/-!
# The verdict on a text

Validation has one outcome for every text, and `Document.validate_verdict` says which: the faults of a
text exclude each other, of several operations that are ill formed the first is reported, and of several
faults of an operation the first in `OperationFault.order`.  A text without faults is accepted with all
that it holds, unless a name that has to be kept holds half a surrogate pair: then validation fails.
-/

namespace DeltaPreview

open Json (read)

/-! ### Faults of operations -/

namespace OperationFault

/-- The faults in the order in which they are looked for. -/
def order : List OperationFault :=
  [notObject, noAction, deleteNotNumber, retainNotNumber, insertNotContent]

/-- Whether an operation has a fault. -/
def applies (op : Json) : OperationFault → Bool
  | notObject => match op with
    | .object _ => false
    | _ => true
  | noAction => (op.get? "insert").isNone && (op.get? "delete").isNone && (op.get? "retain").isNone
  | deleteNotNumber => (op.get? "delete").any (!·.isNumber)
  | retainNotNumber => (op.get? "retain").any (!·.isNumber)
  | insertNotContent => (op.get? "insert").any (!·.isContent)

/-- The first fault in the order is found. -/
theorem find?_eq (op : Json) : find? op = order.find? (applies op) := by
  cases op with
  | object members =>
    unfold find?
    simp only [order, List.find?_cons, List.find?_nil, applies]
    cases (Json.object members).get? "insert" <;> cases (Json.object members).get? "delete" <;>
      cases (Json.object members).get? "retain" <;> simp <;> grind
  | _ => rfl

end OperationFault

/-- Whether an operation has any fault. -/
def Json.IllFormed (op : Json) : Prop := ∃ fault, OperationFault.applies op fault = true

theorem OperationFault.mem_order (fault : OperationFault) : fault ∈ order := by
  cases fault <;> decide

theorem OperationFault.find?_eq_none_iff (op : Json) : find? op = none ↔ ¬ op.IllFormed := by
  rw [find?_eq, List.find?_eq_none]
  constructor
  · rintro hnone ⟨fault, hfault⟩
    exact hnone fault (mem_order fault) hfault
  · intro hwell fault _ hfault
    exact hwell ⟨fault, hfault⟩

theorem firstFault?_eq_none_iff (index : Nat) (ops : List Json) :
    firstFault? index ops = none ↔ ∀ op ∈ ops, ¬ op.IllFormed := by
  induction ops generalizing index with
  | nil => exact iff_of_true rfl fun _ hop => absurd hop List.not_mem_nil
  | cons op ops ih =>
    rw [firstFault?, List.forall_mem_cons, ← OperationFault.find?_eq_none_iff op, ← ih (index + 1)]
    cases OperationFault.find? op with
    | none => exact (and_iff_right rfl).symm
    | some fault => exact iff_of_false (Option.some_ne_none _) fun h => absurd h.1 (Option.some_ne_none _)

theorem le_of_firstFault? {index i : Nat} {ops : List Json} {fault : OperationFault}
    (h : firstFault? index ops = some (i, fault)) : index ≤ i := by
  induction ops generalizing index with
  | nil => cases h
  | cons op ops ih =>
    rw [firstFault?] at h
    split at h
    · cases h
      exact Nat.le_refl _
    · exact Nat.le_of_succ_le (ih h)

/-- The first operation with a fault is the one that no operation with a fault precedes. -/
theorem firstFault?_eq_some_iff (index : Nat) (ops : List Json) (i : Nat) (fault : OperationFault) :
    firstFault? index ops = some (index + i, fault) ↔
      ∃ op, ops[i]? = some op ∧ OperationFault.order.find? (OperationFault.applies op) = some fault ∧
        ∀ earlier ∈ ops.take i, ¬ earlier.IllFormed := by
  induction ops generalizing index i with
  | nil => simp [firstFault?]
  | cons op ops ih =>
    rw [firstFault?]
    cases hop : OperationFault.find? op with
    | some found =>
      rw [OperationFault.find?_eq] at hop
      cases i with
      | zero => simp [hop]
      | succ i =>
        have hill : op.IllFormed := ⟨found, List.find?_some hop⟩
        refine iff_of_false (by simp) ?_
        rintro ⟨-, -, -, hearlier⟩
        exact hearlier op List.mem_cons_self hill
    | none =>
      have hwell := (OperationFault.find?_eq_none_iff op).mp hop
      rw [OperationFault.find?_eq] at hop
      cases i with
      | zero =>
        refine iff_of_false (fun h => absurd (le_of_firstFault? h) (by omega)) ?_
        rintro ⟨op', hop', hfault, -⟩
        obtain rfl := Option.some.inj hop'
        rw [hop] at hfault
        cases hfault
      | succ i =>
        rw [show index + (i + 1) = index + 1 + i by omega]
        refine (ih (index + 1) i).trans (exists_congr fun op' => ?_)
        rw [List.getElem?_cons_succ, List.take_succ_cons, List.forall_mem_cons]
        exact and_congr_right' (and_congr_right' (and_iff_right hwell).symm)

/-! ### Texts that hold operations -/

/-- A text that holds an object with an array of operations. -/
structure Document.Given (text : Text) (members : List (Text × Json)) (ops : List Json) : Prop where
  notBlank : text.allBlank = false
  isObject : read text = .ok (.object members)
  hasOps : Json.lookup (Text.ofString "ops") members = some (.array ops)

/-- The ways in which checking a text can end. -/
inductive Document.Checked (text : Text) : Except InvalidDocument (List Json × List (Text × Json)) → Prop
  | empty (h : text.allBlank = true) : Checked text (.error .empty)
  | malformed (hblank : text.allBlank = false) {fault} (h : read text = .error fault) :
    Checked text (.error (.malformed fault))
  | missingOps (hblank : text.allBlank = false) {v} (h : read text = .ok v)
    (hops : ∀ members ops, v = .object members →
      Json.lookup (Text.ofString "ops") members ≠ some (.array ops)) :
    Checked text (.error .missingOps)
  | operation {members ops} (hgiven : Document.Given text members ops) {i fault}
    (h : firstFault? 0 ops = some (i, fault)) : Checked text (.error (.operation i fault))
  | accepted {members ops} (hgiven : Document.Given text members ops)
    (h : ∀ op ∈ ops, ¬ op.IllFormed) : Checked text (.ok (ops, members))

theorem Document.check_eq_iff {text : Text}
    {r : Except InvalidDocument (List Json × List (Text × Json))} : check text = r ↔ Checked text r := by
  constructor
  · rintro rfl
    unfold check
    split
    next h => exact .empty h
    next hblank =>
      rw [Bool.not_eq_true] at hblank
      split
      next h => exact .malformed hblank h
      next v h =>
        split
        next members ops hops =>
          have hgiven : Given text members ops := ⟨hblank, h, hops⟩
          split
          next i fault hfault => exact .operation hgiven hfault
          next hnone => exact .accepted hgiven ((firstFault?_eq_none_iff 0 ops).mp hnone)
        next hno =>
          refine .missingOps hblank h ?_
          rintro members ops rfl hops
          exact hno members ops rfl hops
  · intro h
    unfold check
    cases h with
    | empty h => rw [if_pos h]
    | malformed hblank h => rw [hblank, if_neg Bool.false_ne_true, h]
    | @missingOps hblank v h hops =>
      rw [hblank, if_neg Bool.false_ne_true, h]
      dsimp only
      split
      next members ops hfound => exact absurd hfound (hops members ops rfl)
      next => rfl
    | @operation members ops hgiven i fault h =>
      rw [hgiven.notBlank, if_neg Bool.false_ne_true, hgiven.isObject]
      dsimp only
      rw [show (Json.object members).get? "ops" = some (.array ops) from hgiven.hasOps]
      dsimp only
      rw [h]
    | @accepted members ops hgiven h =>
      rw [hgiven.notBlank, if_neg Bool.false_ne_true, hgiven.isObject]
      dsimp only
      rw [show (Json.object members).get? "ops" = some (.array ops) from hgiven.hasOps]
      dsimp only
      rw [(firstFault?_eq_none_iff 0 ops).mpr h]

/-- What has been read has no key twice. -/
theorem Document.Given.keysDiffer {text : Text} {members : List (Text × Json)} {ops : List Json}
    (h : Given text members ops) : KeysDiffer members ops := by
  have hv := Json.wellFormed_of_read h.isObject
  obtain ⟨_, hops⟩ := hv.of_mem_members (mem_of_lookup h.hasOps)
  refine ⟨hv.keys, fun given hgiven => ?_⟩
  obtain ⟨_, hop⟩ := hops.of_mem_items hgiven
  exact hop.keys

/-! ### The verdict -/

namespace Document

theorem validate_eq_ok_error_iff (text : Text) (e : InvalidDocument) :
    validate text = .ok (.error e) ↔ check text = .error e := by
  unfold validate
  split
  next invalid h =>
    rw [h]
    simp
  next ops members h =>
    rw [h]
    cases ofOps ops members <;> simp [Except.map]

theorem validate_of_check {text : Text} {ops : List Json} {members : List (Text × Json)}
    (h : check text = .ok (ops, members)) : validate text = (ofOps ops members).map .ok := by
  rw [validate, h]

theorem validate_eq_ok_ok_iff (text : Text) (doc : Document) :
    validate text = .ok (.ok doc) ↔ ∃ members ops, Given text members ops ∧
      (∀ op ∈ ops, ¬ op.IllFormed) ∧ ofOps ops members = .ok doc := by
  constructor
  · intro h
    cases hcheck : check text with
    | error e =>
      rw [(validate_eq_ok_error_iff text e).mpr hcheck] at h
      cases h
    | ok found =>
      obtain ⟨ops, members⟩ := found
      rw [validate_of_check hcheck, map_eq_ok] at h
      obtain ⟨_, hdoc, heq⟩ := h
      cases heq
      cases check_eq_iff.mp hcheck with
      | accepted hgiven hwell => exact ⟨members, ops, hgiven, hwell, hdoc⟩
  · rintro ⟨members, ops, hgiven, hwell, hdoc⟩
    rw [validate_of_check (check_eq_iff.mpr (.accepted hgiven hwell)), hdoc]
    rfl

theorem validate_eq_error_iff (text : Text) (m : Misfit) :
    validate text = .error m ↔ ∃ members ops, Given text members ops ∧
      (∀ op ∈ ops, ¬ op.IllFormed) ∧ ofOps ops members = .error m := by
  constructor
  · intro h
    cases hcheck : check text with
    | error e =>
      rw [(validate_eq_ok_error_iff text e).mpr hcheck] at h
      cases h
    | ok found =>
      obtain ⟨ops, members⟩ := found
      rw [validate_of_check hcheck, map_eq_error] at h
      cases check_eq_iff.mp hcheck with
      | accepted hgiven hwell => exact ⟨members, ops, hgiven, hwell, h⟩
  · rintro ⟨members, ops, hgiven, hwell, hdoc⟩
    rw [validate_of_check (check_eq_iff.mpr (.accepted hgiven hwell)), hdoc]
    rfl

/-! ### Each outcome -/

variable (text : Text)

theorem validate_empty_iff : validate text = .ok (.error .empty) ↔ text.allBlank = true := by
  rw [validate_eq_ok_error_iff, check_eq_iff]
  constructor
  · rintro ⟨h⟩
    assumption
  · exact .empty

theorem validate_malformed_iff (fault : Json.Fault Json.Position) :
    validate text = .ok (.error (.malformed fault)) ↔
      text.allBlank = false ∧ read text = .error fault := by
  rw [validate_eq_ok_error_iff, check_eq_iff]
  constructor
  · intro h
    cases h with
    | malformed hblank h => exact ⟨hblank, h⟩
  · rintro ⟨hblank, h⟩
    exact .malformed hblank h

theorem validate_missingOps_iff : validate text = .ok (.error .missingOps) ↔
    text.allBlank = false ∧ ∃ v, read text = .ok v ∧ ∀ members ops, v = .object members →
      Json.lookup (Text.ofString "ops") members ≠ some (.array ops) := by
  rw [validate_eq_ok_error_iff, check_eq_iff]
  constructor
  · intro h
    cases h with
    | missingOps hblank h hops => exact ⟨hblank, _, h, hops⟩
  · rintro ⟨hblank, v, h, hops⟩
    exact .missingOps hblank h hops

theorem validate_operation_iff (i : Nat) (fault : OperationFault) :
    validate text = .ok (.error (.operation i fault)) ↔
      ∃ members ops, Given text members ops ∧ ∃ op, ops[i]? = some op ∧
        OperationFault.order.find? (OperationFault.applies op) = some fault ∧
        ∀ earlier ∈ ops.take i, ¬ earlier.IllFormed := by
  rw [validate_eq_ok_error_iff, check_eq_iff]
  have hfirst (ops : List Json) := firstFault?_eq_some_iff 0 ops i fault
  simp only [Nat.zero_add] at hfirst
  constructor
  · intro h
    cases h with
    | operation hgiven h => exact ⟨_, _, hgiven, (hfirst _).mp h⟩
  · rintro ⟨members, ops, hgiven, h⟩
    exact .operation hgiven ((hfirst ops).mpr h)

variable {text}

/-- What has been checked has operations without faults and keys that differ. -/
theorem Given.readable {members : List (Text × Json)} {ops : List Json} (h : Given text members ops)
    (hwell : ∀ op ∈ ops, ¬ op.IllFormed) :
    KeysDiffer members ops ∧ ∀ op ∈ ops, OperationFault.find? op = none :=
  ⟨h.keysDiffer, fun op hop => (OperationFault.find?_eq_none_iff op).mpr (hwell op hop)⟩

variable (text)

theorem exists_validate_iff : (∃ doc, validate text = .ok (.ok doc)) ↔
    ∃ members ops, Given text members ops ∧ (∀ op ∈ ops, ¬ op.IllFormed) ∧ NamesKept members ops := by
  simp only [validate_eq_ok_ok_iff]
  constructor
  · rintro ⟨doc, members, ops, hgiven, hwell, hdoc⟩
    obtain ⟨hkeys, hfault⟩ := hgiven.readable hwell
    exact ⟨members, ops, hgiven, hwell, (exists_ofOps_iff hkeys hfault).mp ⟨doc, hdoc⟩⟩
  · rintro ⟨members, ops, hgiven, hwell, hnames⟩
    obtain ⟨hkeys, hfault⟩ := hgiven.readable hwell
    obtain ⟨doc, hdoc⟩ := (exists_ofOps_iff hkeys hfault).mpr hnames
    exact ⟨doc, members, ops, hgiven, hwell, hdoc⟩

theorem keeps_of_validate {doc : Document} (h : validate text = .ok (.ok doc)) :
    ∃ members ops, Given text members ops ∧ doc.Keeps members ops := by
  obtain ⟨members, ops, hgiven, hwell, hdoc⟩ := (validate_eq_ok_ok_iff text doc).mp h
  obtain ⟨hkeys, hfault⟩ := hgiven.readable hwell
  exact ⟨members, ops, hgiven, keeps_of_ofOps hkeys hgiven.hasOps hfault hdoc⟩

theorem validate_fails_iff (m : Misfit) : validate text = .error m ↔
    m = .operation ∧ ∃ members ops, Given text members ops ∧ (∀ op ∈ ops, ¬ op.IllFormed) ∧
      ¬ NamesKept members ops := by
  rw [validate_eq_error_iff]
  constructor
  · rintro ⟨members, ops, hgiven, hwell, hdoc⟩
    obtain ⟨hkeys, hfault⟩ := hgiven.readable hwell
    refine ⟨ofOps_eq_error hkeys hfault hdoc, members, ops, hgiven, hwell, fun hnames => ?_⟩
    obtain ⟨doc, hdoc'⟩ := (exists_ofOps_iff hkeys hfault).mpr hnames
    rw [hdoc] at hdoc'
    cases hdoc'
  · rintro ⟨rfl, members, ops, hgiven, hwell, hnames⟩
    obtain ⟨hkeys, hfault⟩ := hgiven.readable hwell
    refine ⟨members, ops, hgiven, hwell, ?_⟩
    cases hdoc : ofOps ops members with
    | error m => rw [ofOps_eq_error hkeys hfault hdoc]
    | ok doc => exact absurd ((exists_ofOps_iff hkeys hfault).mp ⟨doc, hdoc⟩) hnames

/-- The one outcome of validation, for every text. -/
theorem validate_verdict :
    (validate text = .ok (.error .empty) ↔ text.allBlank = true) ∧
    (∀ fault, validate text = .ok (.error (.malformed fault)) ↔
      text.allBlank = false ∧ read text = .error fault) ∧
    (validate text = .ok (.error .missingOps) ↔ text.allBlank = false ∧ ∃ v, read text = .ok v ∧
      ∀ members ops, v = .object members →
        Json.lookup (Text.ofString "ops") members ≠ some (.array ops)) ∧
    (∀ i fault, validate text = .ok (.error (.operation i fault)) ↔
      ∃ members ops, Given text members ops ∧ ∃ op, ops[i]? = some op ∧
        OperationFault.order.find? (OperationFault.applies op) = some fault ∧
        ∀ earlier ∈ ops.take i, ¬ earlier.IllFormed) ∧
    ((∃ doc, validate text = .ok (.ok doc)) ↔ ∃ members ops, Given text members ops ∧
      (∀ op ∈ ops, ¬ op.IllFormed) ∧ NamesKept members ops) ∧
    (∀ doc, validate text = .ok (.ok doc) → ∃ members ops, Given text members ops ∧
      doc.Keeps members ops) ∧
    (∀ m, validate text = .error m ↔ m = .operation ∧ ∃ members ops, Given text members ops ∧
      (∀ op ∈ ops, ¬ op.IllFormed) ∧ ¬ NamesKept members ops) :=
  ⟨validate_empty_iff text, validate_malformed_iff text, validate_missingOps_iff text,
    validate_operation_iff text, exists_validate_iff text, fun _ => keeps_of_validate text,
    validate_fails_iff text⟩

/-- Half a surrogate pair in the name of a member: every check is passed, and no document is read. -/
example : (validate (Text.ofString "\x7b\"ops\":[\x7b\"insert\":\"a\",\"\\ud800\":1\x7d]\x7d")).isOk =
    false := by
  decide +kernel

/-- Whether a text is accepted. -/
def accepts (text : Text) : Bool :=
  match validate text with
  | .ok (.ok _) => true
  | _ => false

theorem exists_of_accepts {text : Text} (h : accepts text = true) :
    ∃ doc, validate text = .ok (.ok doc) := by
  unfold accepts at h
  split at h
  next doc hdoc => exact ⟨doc, hdoc⟩
  next => cases h

/-- One insertion with a member of another name. -/
def oneInsertion : Text := Text.ofString "\x7b\"ops\":[\x7b\"insert\":\"a\",\"x\":1.0\x7d]\x7d"

/-- It is accepted and kept. -/
theorem validate_verdict_insertion :
    ∃ doc members ops, validate oneInsertion = .ok (.ok doc) ∧ Given oneInsertion members ops ∧
      doc.Keeps members ops := by
  obtain ⟨doc, hdoc⟩ := exists_of_accepts (show accepts oneInsertion = true by decide +kernel)
  obtain ⟨-, -, -, -, -, hkeeps, -⟩ := validate_verdict oneInsertion
  obtain ⟨members, ops, hgiven, hkept⟩ := hkeeps doc hdoc
  exact ⟨doc, members, ops, hdoc, hgiven, hkept⟩

end Document

end DeltaPreview
