import DeltaPreview.Proofs.Delta.Reading
import DeltaPreview.Proofs.Json.WellFormed
import Mathlib.Data.List.Perm.Basic

/-!
# What a document keeps

An operation that is read has the members that were given, in another order perhaps
(`Operation.ofJson_keeps`), and so has a document (`Document.keeps_of_ofOps`).
-/

namespace DeltaPreview

/-! ### Members by name -/

/-- The members of an object under the given names, in the order of the names. -/
def namedMembers (names : List Text) (members : List (Text × Json)) : List (Text × Json) :=
  names.flatMap fun name => ((Json.lookup name members).map (name, ·)).toList

theorem lookup_cons_self (name : Text) (v : Json) (rest : List (Text × Json)) :
    Json.lookup name ((name, v) :: rest) = some v := by
  rw [Json.lookup, List.lookup_cons_self]

theorem lookup_cons_of_ne {name other : Text} (h : name ≠ other) (v : Json) (rest : List (Text × Json)) :
    Json.lookup name ((other, v) :: rest) = Json.lookup name rest := by
  rw [Json.lookup, List.lookup_cons, beq_false_of_ne h]
  rfl

theorem lookup_filter_ne {name other : Text} (h : name ≠ other) (members : List (Text × Json)) :
    Json.lookup name (members.filter fun m => m.1 ≠ other) = Json.lookup name members := by
  induction members with
  | nil => rfl
  | cons m rest ih =>
    obtain ⟨k, v⟩ := m
    by_cases hk : k = other
    · rw [List.filter_cons_of_neg (by simpa using hk), lookup_cons_of_ne (hk ▸ h), ih]
    · rw [List.filter_cons_of_pos (by simpa using hk)]
      by_cases hname : name = k
      · rw [hname, lookup_cons_self, lookup_cons_self]
      · rw [lookup_cons_of_ne hname, lookup_cons_of_ne hname, ih]

/-- A member and those of other names. -/
theorem lookup_perm (name : Text) {members : List (Text × Json)}
    (hkeys : (members.map Prod.fst).Nodup) :
    (((Json.lookup name members).map (name, ·)).toList ++
      members.filter fun m => m.1 ≠ name).Perm members := by
  induction members with
  | nil => exact .refl _
  | cons m rest ih =>
    obtain ⟨k, v⟩ := m
    rw [List.map_cons, List.nodup_cons] at hkeys
    by_cases hk : k = name
    · subst hk
      have hothers : rest.filter (fun m => m.1 ≠ k) = rest :=
        List.filter_eq_self.mpr fun m hm => decide_eq_true fun heq =>
          hkeys.1 (heq.symm ▸ List.mem_map.mpr ⟨m, hm, rfl⟩)
      rw [lookup_cons_self, List.filter_cons_of_neg (by simp), hothers]
      exact .refl _
    · rw [lookup_cons_of_ne (Ne.symm hk), List.filter_cons_of_pos (by simpa using hk)]
      exact List.perm_middle.trans ((ih hkeys.2).cons (k, v))

theorem namedMembers_perm {names : List Text} (hnames : names.Nodup) {members : List (Text × Json)}
    (hkeys : (members.map Prod.fst).Nodup) :
    (namedMembers names members ++ members.filter fun m => !names.contains m.1).Perm members := by
  induction names generalizing members with
  | nil => simp [namedMembers]
  | cons name names ih =>
    rw [List.nodup_cons] at hnames
    have hrest : ((members.filter fun m => m.1 ≠ name).map Prod.fst).Nodup :=
      hkeys.sublist (List.filter_sublist.map _)
    have hnamed : namedMembers names (members.filter fun m => m.1 ≠ name) =
        namedMembers names members :=
      List.flatMap_congr fun other hother => by
        have hne : other ≠ name := by
          rintro rfl
          exact hnames.1 hother
        rw [lookup_filter_ne hne]
    have hothers : (members.filter fun m => m.1 ≠ name).filter (fun m => !names.contains m.1) =
        members.filter fun m => !(name :: names).contains m.1 := by
      rw [List.filter_filter]
      congr 1
      funext m
      rw [List.contains_cons, Bool.not_or, Bool.and_comm, beq_eq_decide, ← decide_not]
    have hperm := ih hnames.2 hrest
    rw [hnamed, hothers] at hperm
    rw [namedMembers, List.flatMap_cons, List.append_assoc]
    exact (hperm.append_left _).trans (lookup_perm name hkeys)

/-! ### Operations -/

/-- A member that is of the right kind is read as it is. -/
theorem optionalMember_kept {α : Type} {name : String} {ofJson? : Json → Option α} {toJson : α → Json}
    {fits : Json → Bool} {members : List (Text × Json)}
    (hread : ∀ v, fits v = true → v ≠ .null ∧ ∃ a, ofJson? v = some a ∧ toJson a = v)
    (hfits : (Json.lookup (Text.ofString name) members).all fits = true) :
    ∃ a, optionalMember name ofJson? members = .ok a ∧
      a.map toJson = Json.lookup (Text.ofString name) members := by
  unfold optionalMember
  cases hlookup : Json.lookup (Text.ofString name) members with
  | none => exact ⟨none, rfl, rfl⟩
  | some v =>
    obtain ⟨hnull, a, ha, hv⟩ := hread v (by simpa [hlookup] using hfits)
    exact ⟨some a, by simp [ha], by rw [Option.map_some, hv]⟩

theorem Insert.kept {v : Json} (h : v.isContent = true) :
    v ≠ .null ∧ ∃ a, ofJson? v = some a ∧ a.toJson = v := by
  cases v with
  | string t => exact ⟨Json.noConfusion, .text t, rfl, rfl⟩
  | object members => exact ⟨Json.noConfusion, .embed members, rfl, rfl⟩
  | _ => cases h

theorem Quantity.kept {v : Json} (h : v.isNumber = true) :
    v ≠ .null ∧ ∃ a, ofJson? v = some a ∧ a.toJson = v := by
  cases v with
  | int n => exact ⟨Json.noConfusion, .int n, rfl, rfl⟩
  | float x => exact ⟨Json.noConfusion, .float x, rfl, rfl⟩
  | _ => cases h

theorem keptMembers_map {β : Type} (names : List String) (members : List (Text × Json))
    (f : List (Text × Json) → β) : (keptMembers names members).map f =
      (keptMembers names members).map fun _ => f (otherMembers names members) := by
  unfold keptMembers
  split <;> rfl

/-- Whether an operation holds the members of a JSON object, in whatever order. -/
def Operation.Keeps (o : Operation) (op : Json) : Prop :=
  ∃ given kept, op = .object given ∧ o.toJson = .object kept ∧ kept.Perm given

/-- An operation without a fault is read as it is, unless a name cannot be kept. -/
theorem Operation.ofJson_keeps {members : List (Text × Json)}
    (hfault : OperationFault.find? (.object members) = none) (hkeys : (members.map Prod.fst).Nodup) :
    ∃ o : Operation, ofJson (.object members) = (keptMembers memberNames members).map (fun _ => o) ∧
      o.Keeps (.object members) := by
  obtain ⟨given, hgiven, hinsert, hdelete, hretain⟩ := OperationFault.find?_eq_none hfault
  obtain rfl := Json.object.inj hgiven
  obtain ⟨insert, hinsert, hinsert'⟩ := optionalMember_kept (fun _ => Insert.kept) hinsert
  obtain ⟨delete, hdelete, hdelete'⟩ := optionalMember_kept (fun _ => Quantity.kept) hdelete
  obtain ⟨retain, hretain, hretain'⟩ := optionalMember_kept (fun _ => Quantity.kept) hretain
  have hread : ofJson (.object members) = (keptMembers memberNames members).map fun extra =>
      ⟨insert, delete, retain, Json.lookup (Text.ofString "attributes") members, extra⟩ := by
    rw [ofJson, hinsert, hdelete, hretain]
    rfl
  rw [keptMembers_map] at hread
  refine ⟨_, hread, members, namedMembers (memberNames.map Text.ofString) members ++
    otherMembers memberNames members, rfl, ?_, namedMembers_perm (by decide) hkeys⟩
  simp only [namedMembers, memberNames, List.map_cons, List.map_nil, List.flatMap_cons, List.flatMap_nil,
    List.append_nil, ← hinsert', ← hdelete', ← hretain', List.append_assoc]
  rw [toJson]
  simp only [List.append_assoc]
  rfl

/-! ### Documents -/

/-- Whether a document holds the members of a JSON object with these operations, in whatever order. -/
structure Document.Keeps (doc : Document) (members : List (Text × Json)) (ops : List Json) : Prop where
  operations : List.Forall₂ (fun op o => Operation.Keeps o op) ops doc.ops
  document : ((Text.ofString "ops", Json.array ops) :: doc.extra).Perm members

/-- Whether the names in an object and in its operations can be kept. -/
structure NamesKept (members : List (Text × Json)) (ops : List Json) : Prop where
  document : (Json.object members).NamesKept ["ops"]
  operations : ∀ op ∈ ops, op.NamesKept Operation.memberNames

theorem keptMembers_eq_error {names : List String} {members : List (Text × Json)} {m : Misfit}
    (h : keptMembers names members = .error m) : m = .operation := by
  unfold keptMembers at h
  split at h
  · cases h
  · exact (Except.error.inj h).symm

theorem keptMembers_eq_ok {names : List String} {members extra : List (Text × Json)}
    (h : keptMembers names members = .ok extra) : extra = otherMembers names members := by
  unfold keptMembers at h
  split at h
  · exact (Except.ok.inj h).symm
  · cases h

/-- Objects that have every key once, and whose members do. -/
structure KeysDiffer (members : List (Text × Json)) (ops : List Json) : Prop where
  document : (members.map Prod.fst).Nodup
  operations : ∀ given, Json.object given ∈ ops → (given.map Prod.fst).Nodup

variable {members : List (Text × Json)} {ops : List Json}

theorem Operation.ofJson_of_keys (hkeys : KeysDiffer members ops)
    (hfault : ∀ op ∈ ops, OperationFault.find? op = none) : ∀ op ∈ ops, ∃ given, op = .object given ∧
      ∃ o : Operation, ofJson op = (keptMembers memberNames given).map (fun _ => o) ∧ o.Keeps op := by
  intro op hop
  obtain ⟨given, rfl, -⟩ := OperationFault.find?_eq_none (hfault op hop)
  exact ⟨given, rfl, ofJson_keeps (hfault _ hop) (hkeys.operations given hop)⟩

/-- The document that is read holds what was given. -/
theorem Document.keeps_of_ofOps (hkeys : KeysDiffer members ops)
    (hops : Json.lookup (Text.ofString "ops") members = some (.array ops))
    (hfault : ∀ op ∈ ops, OperationFault.find? op = none) {doc : Document}
    (h : ofOps ops members = .ok doc) : doc.Keeps members ops := by
  obtain ⟨os, hos, hrest⟩ := bind_eq_ok.mp h
  obtain ⟨extra, hextra, hreturn⟩ := bind_eq_ok.mp hrest
  cases hreturn
  constructor
  · have hall := exists_mapM_iff.mp ⟨os, hos⟩
    obtain ⟨os', hos', hkept⟩ := mapM_forall₂ (r := fun op o => Operation.Keeps o op) fun op hop => by
      obtain ⟨o, ho⟩ := hall op hop
      obtain ⟨given, rfl, o', ho', hkeeps⟩ := Operation.ofJson_of_keys hkeys hfault op hop
      rw [ho] at ho'
      obtain ⟨-, -, rfl⟩ := map_eq_ok.mp ho'.symm
      exact ⟨o', ho, hkeeps⟩
    rw [hos] at hos'
    cases hos'
    exact hkept
  · have hperm := namedMembers_perm (show (["ops"].map Text.ofString).Nodup by decide) hkeys.document
    rw [List.map_singleton, namedMembers, List.flatMap_singleton, hops] at hperm
    rw [keptMembers_eq_ok hextra]
    exact hperm

/-- A document without faults is read exactly if its names can be kept. -/
theorem Document.exists_ofOps_iff (hkeys : KeysDiffer members ops)
    (hfault : ∀ op ∈ ops, OperationFault.find? op = none) :
    (∃ doc, ofOps ops members = .ok doc) ↔ NamesKept members ops := by
  have hoperation : ∀ op ∈ ops, (∃ o, Operation.ofJson op = .ok o) ↔
      op.NamesKept Operation.memberNames := by
    intro op hop
    obtain ⟨given, rfl, o, ho, -⟩ := Operation.ofJson_of_keys hkeys hfault op hop
    rw [ho, ← keptMembers_eq_ok_iff]
    constructor
    · rintro ⟨o', ho'⟩
      obtain ⟨extra, hextra, -⟩ := map_eq_ok.mp ho'
      exact ⟨extra, hextra⟩
    · rintro ⟨extra, hextra⟩
      exact ⟨o, map_eq_ok.mpr ⟨extra, hextra, rfl⟩⟩
  constructor
  · rintro ⟨doc, h⟩
    obtain ⟨os, hos, hrest⟩ := bind_eq_ok.mp h
    obtain ⟨extra, hextra, -⟩ := bind_eq_ok.mp hrest
    have hall := exists_mapM_iff.mp ⟨os, hos⟩
    exact ⟨(keptMembers_eq_ok_iff _ _).mp ⟨extra, hextra⟩,
      fun op hop => (hoperation op hop).mp (hall op hop)⟩
  · rintro ⟨hdocument, hoperations⟩
    obtain ⟨os, hos⟩ := exists_mapM_iff.mpr fun op hop =>
      (hoperation op hop).mpr (hoperations op hop)
    obtain ⟨extra, hextra⟩ := (keptMembers_eq_ok_iff ["ops"] members).mpr hdocument
    exact ⟨⟨os, extra⟩, bind_eq_ok.mpr ⟨os, hos, bind_eq_ok.mpr ⟨extra, hextra, rfl⟩⟩⟩

/-- It is refused for no other reason. -/
theorem Document.ofOps_eq_error (hkeys : KeysDiffer members ops)
    (hfault : ∀ op ∈ ops, OperationFault.find? op = none) {m : Misfit}
    (h : ofOps ops members = .error m) : m = .operation := by
  rcases bind_eq_error.mp h with hops | ⟨os, -, hrest⟩
  · obtain ⟨op, hop, herror⟩ := exists_of_mapM_eq_error hops
    obtain ⟨given, rfl, o, ho, -⟩ := Operation.ofJson_of_keys hkeys hfault op hop
    rw [ho, map_eq_error] at herror
    exact keptMembers_eq_error herror
  · rcases bind_eq_error.mp hrest with hextra | ⟨extra, -, hreturn⟩
    · exact keptMembers_eq_error hextra
    · cases hreturn

end DeltaPreview
