import DeltaPreview.Text.Basic
import DeltaPreview.Double.Basic

/-!
# JSON values

Integers and doubles are different values, and the members of an object keep their order.
-/

namespace DeltaPreview

/-- A JSON value. -/
inductive Json where
  | null
  | bool (b : Bool)
  | int (n : Int)
  | float (x : Double)
  | string (s : Text)
  | array (items : List Json)
  | object (members : List (Text × Json))
  deriving Inhabited, Repr, BEq

namespace Json

/-- The member list of an object after one more member: a repeated key keeps its first place and
takes the later value. -/
def insert (key : Text) (value : Json) : List (Text × Json) → List (Text × Json)
  | [] => [(key, value)]
  | (k, v) :: rest => if k = key then (key, value) :: rest else (k, v) :: insert key value rest

/-- An object with the given members. -/
def ofMembers (members : List (String × Json)) : Json :=
  .object (members.map fun (name, v) => (Text.ofString name, v))

/-- A string value. -/
def ofString (s : String) : Json := .string (Text.ofString s)

/-- A value that may be missing. -/
def ofOption {α : Type} (toJson : α → Json) : Option α → Json
  | none => .null
  | some a => toJson a

/-- The value of a key among the members of an object. -/
def lookup (key : Text) (members : List (Text × Json)) : Option Json := List.lookup key members

/-- The member of a name, of an object. -/
def get? (name : String) : Json → Option Json
  | object members => lookup (Text.ofString name) members
  | _ => none

/-- Whether a value counts as true: neither null, false, zero nor empty. -/
def truthy : Json → Bool
  | null => false
  | bool b => b
  | int n => n != 0
  | float x => !x.isZero
  | string s => !s.isEmpty
  | array items => !items.isEmpty
  | object members => !members.isEmpty

theorem lookup_insert_self (key : Text) (value : Json) (members : List (Text × Json)) :
    lookup key (insert key value members) = some value := by
  induction members with
  | nil => simp [insert, lookup]
  | cons m rest ih =>
    obtain ⟨k, v⟩ := m
    by_cases h : k = key
    · simp [insert, lookup, h]
    · have : (key == k) = false := by simpa using fun e => h e.symm
      simpa [insert, lookup, List.lookup_cons, h, this] using ih

theorem lookup_insert_of_ne {key other : Text} (h : other ≠ key) (value : Json)
    (members : List (Text × Json)) :
    lookup other (insert key value members) = lookup other members := by
  have hne : (other == key) = false := by simpa using h
  induction members with
  | nil => simp [insert, lookup, List.lookup_cons, hne]
  | cons m rest ih =>
    obtain ⟨k, v⟩ := m
    by_cases hk : k = key
    · subst hk
      simp [insert, lookup, List.lookup_cons, hne]
    · cases ho : other == k <;> simp_all [insert, lookup, List.lookup_cons]

/-- A new key goes to the end; a known one keeps its place. -/
theorem map_fst_insert (key : Text) (value : Json) (members : List (Text × Json)) :
    (insert key value members).map Prod.fst =
      if key ∈ members.map Prod.fst then members.map Prod.fst
      else members.map Prod.fst ++ [key] := by
  induction members with
  | nil => rfl
  | cons m rest ih =>
    obtain ⟨k, v⟩ := m
    by_cases h : k = key
    · simp [insert, h]
    · have h' : ¬ key = k := fun e => h e.symm
      by_cases hm : key ∈ rest.map Prod.fst <;> simp_all [insert]

end Json

end DeltaPreview
