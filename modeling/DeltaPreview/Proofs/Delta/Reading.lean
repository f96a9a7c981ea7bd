import DeltaPreview.Delta.Validation
import DeltaPreview.Proofs.Compile.Grouping
import DeltaPreview.Proofs.Double.Range
import DeltaPreview.Proofs.Result

/-!
# Reading checked documents

A document that has been checked can still be refused, for two reasons only: a name that cannot be
kept, in the document or in one of its operations, and an insertion in a font size that has no double.
-/

namespace DeltaPreview

/-! ### What is refused -/

/-- Whether the names in an object can be kept, apart from those that have a meaning. -/
def Json.NamesKept (names : List String) : Json → Prop
  | .object members => ∀ m ∈ members, m.1 ∉ names.map Text.ofString → m.1.isPaired = true
  | _ => True

/-- Whether an attribute bag has no integer as its font size, or one that has a double. -/
def Json.SizeFits (bag : Json) : Prop :=
  ∀ n, bag.get? "size" = some (.int n) → n < Double.integerLimit

/-- Whether an operation can be kept, and its attributes read if it inserts something. -/
structure Json.Readable (op : Json) : Prop where
  names : op.NamesKept Operation.memberNames
  size : (op.get? "insert").isSome → ∀ bag, op.get? "attributes" = some bag → bag.SizeFits

/-! ### Attributes -/

namespace Attributes

/-- A font size can be read unless it is an integer without a double. -/
theorem readSize_eq_ok_iff (v : Json) :
    (∃ size, readSize v = .ok size) ↔ ∀ n, v = .int n → n < Double.integerLimit := by
  unfold readSize
  split
  next n =>
    have hlimit := Double.ofInt?_eq_none_iff n
    have hpos : 0 < Double.integerLimit := by decide +kernel
    have hint : (∀ m, Json.int n = .int m → m < Double.integerLimit) ↔ n < Double.integerLimit :=
      ⟨fun h => h n rfl, fun h m hm => Json.int.inj hm ▸ h⟩
    rw [hint]
    generalize Double.integerLimit = limit at *
    split
    · cases hx : Double.ofInt? n with
      | none =>
        have hlarge := hlimit.mp hx
        exact iff_of_false (by simp) (by omega)
      | some x =>
        have hsmall : ¬ limit ≤ n.natAbs := by simp [← hlimit, hx]
        exact iff_of_true ⟨some x, rfl⟩ (by omega)
    · exact iff_of_true ⟨none, rfl⟩ (by omega)
  next => exact iff_of_true ⟨_, rfl⟩ fun n hn => by cases hn
  next hint _ => exact iff_of_true ⟨none, rfl⟩ fun n hn => absurd hn (hint n)

/-- An attribute bag can be read exactly if its font size fits. -/
theorem ofJson_eq_ok_iff (bag : Json) : (∃ a, ofJson bag = .ok a) ↔ bag.SizeFits := by
  cases bag with
  | object members =>
    have hread := readSize_eq_ok_iff (member ["size"] members)
    have hsize (n : Int) : member ["size"] members = .int n ↔
        (Json.object members).get? "size" = some (.int n) := by
      unfold member Json.get?
      cases h : Json.lookup (Text.ofString "size") members <;> simp [h]
    simp only [hsize] at hread
    rw [Json.SizeFits, ← hread]
    constructor
    · rintro ⟨a, ha⟩
      obtain ⟨size, hsize, -⟩ := bind_eq_ok.mp ha
      exact ⟨size, hsize⟩
    · rintro ⟨size, hsize⟩
      exact ⟨_, bind_eq_ok.mpr ⟨size, hsize, rfl⟩⟩
  | _ => exact iff_of_true ⟨plain, rfl⟩ fun n hn => by cases hn

end Attributes

/-! ### Operations -/

theorem keptMembers_eq_ok_iff (names : List String) (members : List (Text × Json)) :
    (∃ kept, keptMembers names members = .ok kept) ↔ (Json.object members).NamesKept names := by
  have hnames : (otherMembers names members).all (fun m => m.1.isPaired) = true ↔
      (Json.object members).NamesKept names := by
    rw [List.all_eq_true]
    constructor
    · intro h m hm hother
      exact h m (List.mem_filter.mpr ⟨hm, by simpa using hother⟩)
    · intro h m hm
      obtain ⟨hm, hother⟩ := List.mem_filter.mp hm
      exact h m hm (by simpa using hother)
  rw [← hnames]
  unfold keptMembers
  split
  next hkept => exact iff_of_true ⟨_, rfl⟩ hkept
  next hrefused => exact iff_of_false (by simp) hrefused

/-- A member that is of the right kind if it is there can be read, and it is not null. -/
theorem optionalMember_eq_ok {α : Type} {name : String} {ofJson? : Json → Option α}
    {members : List (Text × Json)} {fits : Json → Bool}
    (hread : ∀ v, fits v = true → v ≠ .null ∧ (ofJson? v).isSome)
    (hfits : (Json.lookup (Text.ofString name) members).all fits = true) :
    ∃ a, optionalMember name ofJson? members = .ok a ∧
      a.isSome = (Json.lookup (Text.ofString name) members).isSome := by
  unfold optionalMember
  cases hlookup : Json.lookup (Text.ofString name) members with
  | none => exact ⟨none, rfl, rfl⟩
  | some v =>
    obtain ⟨hnull, hsome⟩ := hread v (by simpa [hlookup] using hfits)
    obtain ⟨a, ha⟩ := Option.isSome_iff_exists.mp hsome
    exact ⟨some a, by simp [ha], rfl⟩

theorem Quantity.ofJson?_of_isNumber {v : Json} (h : v.isNumber = true) :
    v ≠ .null ∧ (ofJson? v).isSome := by
  cases v with
  | int n => exact ⟨by simp, rfl⟩
  | float x => exact ⟨by simp, rfl⟩
  | _ => simp [Json.isNumber] at h

theorem Insert.ofJson?_of_isContent {v : Json} (h : v.isContent = true) :
    v ≠ .null ∧ (ofJson? v).isSome := by
  cases v with
  | string t => exact ⟨by simp, rfl⟩
  | object members => exact ⟨by simp, rfl⟩
  | _ => simp [Json.isContent] at h

/-- An operation without a fault is an object whose members are of the right kinds. -/
theorem OperationFault.find?_eq_none {op : Json} (h : find? op = none) :
    ∃ members, op = .object members ∧
      (Json.lookup (Text.ofString "insert") members).all Json.isContent = true ∧
      (Json.lookup (Text.ofString "delete") members).all Json.isNumber = true ∧
      (Json.lookup (Text.ofString "retain") members).all Json.isNumber = true := by
  unfold find? at h
  cases op with
  | object members =>
    refine ⟨members, rfl, ?_⟩
    simp only [Json.get?] at h
    split at h
    · simp at h
    · split_ifs at h
      simp_all
  | _ => simp at h

/-- An operation without a fault can be read, with attributes if it needs them, exactly if it is
readable. -/
theorem Operation.ofJson_eq_ok_iff {op : Json} (h : OperationFault.find? op = none) :
    (∃ o, ofJson op = .ok o ∧ (o.insert.isSome → ∃ a, Compiler.attributes o = .ok a)) ↔
      op.Readable := by
  obtain ⟨members, rfl, hinsert, hdelete, hretain⟩ := OperationFault.find?_eq_none h
  obtain ⟨insert, hinsert, hsome⟩ := optionalMember_eq_ok (fun _ => Insert.ofJson?_of_isContent) hinsert
  obtain ⟨delete, hdelete, -⟩ := optionalMember_eq_ok (fun _ => Quantity.ofJson?_of_isNumber) hdelete
  obtain ⟨retain, hretain, -⟩ := optionalMember_eq_ok (fun _ => Quantity.ofJson?_of_isNumber) hretain
  have hkept := keptMembers_eq_ok_iff memberNames members
  -- Only the other names decide: the members with a meaning have been checked.
  have hread : ofJson (.object members) = (keptMembers memberNames members).map fun extra =>
      ⟨insert, delete, retain, Json.lookup (Text.ofString "attributes") members, extra⟩ := by
    rw [ofJson, hinsert, hdelete, hretain]
    rfl
  rw [hread]
  constructor
  · rintro ⟨o, ho, hattributes⟩
    obtain ⟨extra, hextra, rfl⟩ := map_eq_ok.mp ho
    refine ⟨hkept.mp ⟨extra, hextra⟩, fun hgiven bag hbag => ?_⟩
    obtain ⟨a, ha⟩ := hattributes (hsome.trans hgiven)
    rw [Compiler.attributes, show Json.lookup _ members = some bag from hbag] at ha
    exact (Attributes.ofJson_eq_ok_iff bag).mp ⟨a, ha⟩
  · intro hreadable
    obtain ⟨extra, hextra⟩ := hkept.mpr hreadable.names
    refine ⟨_, map_eq_ok.mpr ⟨extra, hextra, rfl⟩, fun hgiven => ?_⟩
    rw [Compiler.attributes]
    cases hbag : Json.lookup (Text.ofString "attributes") members with
    | none => exact ⟨_, rfl⟩
    | some bag =>
      exact (Attributes.ofJson_eq_ok_iff bag).mpr (hreadable.size (hsome.symm.trans hgiven) bag hbag)

/-! ### Documents -/

theorem find?_eq_none_of_firstFault? {index : Nat} {ops : List Json}
    (h : firstFault? index ops = none) : ∀ op ∈ ops, OperationFault.find? op = none := by
  induction ops generalizing index with
  | nil => simp
  | cons op ops ih =>
    rw [firstFault?] at h
    cases hop : OperationFault.find? op with
    | some fault => simp [hop] at h
    | none =>
      rw [hop] at h
      exact List.forall_mem_cons.mpr ⟨hop, ih h⟩

/-- The operations of a checked document have no fault. -/
theorem find?_eq_none_of_check {text : Text} {ops : List Json} {members : List (Text × Json)}
    (h : Document.check text = .ok (ops, members)) : ∀ op ∈ ops, OperationFault.find? op = none := by
  unfold Document.check at h
  split at h
  · cases h
  · split at h
    · cases h
    · split at h
      · split at h
        next => cases h
        next hfault =>
          cases h
          exact find?_eq_none_of_firstFault? hfault
      · cases h

/-- The operations of a checked document can be read, with all attributes that are needed, exactly if
names and font sizes allow it. -/
theorem Document.ofOps_eq_ok_iff {ops : List Json} (members : List (Text × Json))
    (h : ∀ op ∈ ops, OperationFault.find? op = none) :
    (∃ doc, ofOps ops members = .ok doc ∧ doc.Convertible) ↔
      (Json.object members).NamesKept ["ops"] ∧ ∀ op ∈ ops, op.Readable := by
  have hops : (∀ op ∈ ops, op.Readable) ↔ ∃ os, ops.mapM Operation.ofJson = .ok os ∧
      ∀ o ∈ os, o.insert.isSome → ∃ a, Compiler.attributes o = .ok a := by
    rw [exists_mapM_eq_ok]
    exact forall₂_congr fun op hop => (Operation.ofJson_eq_ok_iff (h op hop)).symm
  rw [← keptMembers_eq_ok_iff, hops]
  constructor
  · rintro ⟨doc, hdoc, hconvertible⟩
    obtain ⟨os, hos, hrest⟩ := bind_eq_ok.mp hdoc
    obtain ⟨extra, hextra, hreturn⟩ := bind_eq_ok.mp hrest
    cases hreturn
    exact ⟨⟨extra, hextra⟩, os, hos, hconvertible⟩
  · rintro ⟨⟨extra, hextra⟩, os, hos, hconvertible⟩
    exact ⟨⟨os, extra⟩, bind_eq_ok.mpr ⟨os, hos, bind_eq_ok.mpr ⟨extra, hextra, rfl⟩⟩, hconvertible⟩

end DeltaPreview
