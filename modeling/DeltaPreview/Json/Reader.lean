import DeltaPreview.Json.Number
import DeltaPreview.Json.StringLiteral

/-!
# Reading JSON

The strict grammar: one value between blanks, no trailing commas, no literals beyond `null`, `true`
and `false`.  Of repeated object keys the last value counts, at the place of the first.  A fault is
reported where it stands, and nesting is bounded.
-/

namespace DeltaPreview.Json

/-- The blanks of JSON. -/
def isBlank : CodePoint → Bool
  | .char c => c == ' ' || c == '\t' || c == '\n' || c == '\r'
  | .surrogate _ => false

/-- A text without its leading blanks. -/
def skipBlanks (s : Text) : Text := s.dropWhile isBlank

theorem skipBlanks_length (s : Text) : (skipBlanks s).length ≤ s.length :=
  (List.dropWhile_sublist _).length_le

theorem length_of_skipBlanks {s rest : Text} {g : CodePoint} (h : skipBlanks s = g :: rest) :
    rest.length < s.length := by
  have := skipBlanks_length s
  simp [h] at this
  omega

/-- What was read from the beginning of a text, and the shorter text after it. -/
structure Scanned (α : Type) (s : Text) where
  value : α
  rest : Text
  shorter : rest.length < s.length

/-- The deepest nesting of arrays and objects that is read.  It stands for the recursion limit of the
interpreter, 1000 calls, of which every level takes one; how many of them the callers of the reader leave
to a document is not fixed, and taken to be so many. -/
def maxDepth : Nat := 960

/-- The words that stand for a value. -/
def words : List (String × Json) :=
  [("null", .null), ("true", .bool true), ("false", .bool false)]

/-- The words that would be numbers but are no JSON. -/
def refusedWords : List String := ["NaN", "Infinity", "-Infinity"]

/-- The first of some words that begins a text, and the text after it. -/
def word? (s : Text) : Option (Json × Text) :=
  words.findSome? fun (word, value) => (Text.afterWord? word s).map fun rest => (value, rest)

/-- A value that does not nest, at the beginning of a text. -/
def atom (s : Text) : Except (Fault Text) (Json × Text) :=
  match word? s with
  | some found => .ok found
  | none =>
    match refusedWords.find? fun word => (Text.afterWord? word s).isSome with
    | some word => .error (.notJson word)
    | none =>
      match NumberLiteral.read? s with
      | none => .error (.at .expectedValue s)
      | some n => n.value.map fun value => (value, n.rest)

theorem atom_length {s rest : Text} {v : Json} (h : atom s = .ok (v, rest)) :
    rest.length < s.length := by
  unfold atom at h
  split at h
  · rename_i found hf
    simp at h
    subst h
    simp only [word?, words, List.findSome?_cons, List.findSome?_nil] at hf
    repeat'
      split at hf
      · rename_i hw
        simp at hf hw
        obtain ⟨r, hr, rfl⟩ := hw
        obtain ⟨-, rfl⟩ := hf
        have hlength := Text.afterWord?_length hr
        exact Nat.lt_of_lt_of_eq (Nat.lt_add_of_pos_right (by decide)) hlength
    simp at hf
  · split at h
    · simp at h
    · split at h
      · simp at h
      · rename_i n hn
        simp only [Except.map] at h
        split at h <;> simp at h
        obtain ⟨-, rfl⟩ := h
        exact NumberLiteral.read?_length hn

/-- The text after a mark that only blanks may precede, or a fault where the mark should stand. -/
def expect (mark : Char) (cause : Cause) (s : Text) : Except (Fault Text) (Scanned Unit s) :=
  match h : skipBlanks s with
  | .char c :: rest =>
    if c = mark then .ok ⟨(), rest, length_of_skipBlanks h⟩ else .error (.at cause (.char c :: rest))
  | other => .error (.at cause other)

/-- The key that begins a text, as a string literal. -/
def key (s : Text) : Except (Fault Text) (Scanned Text s) :=
  match s with
  | .char '"' :: rest =>
    match h : stringBody (.char '"' :: rest) rest with
    | .error fault => .error fault
    | .ok (t, after) => .ok ⟨t, after, by have := stringBody_length h; simp; omega⟩
  | other => .error (.at .expectedName other)

/-- What follows an item of an array or object. -/
inductive Separator where
  | comma
  | close

/-- The comma or closing bracket after an item, with the blanks around the comma. -/
def separator (close : Char) (s : Text) : Except (Fault Text) (Scanned Separator s) :=
  match h : skipBlanks s with
  | .char c :: rest =>
    if c = close then .ok ⟨.close, rest, length_of_skipBlanks h⟩
    else if c = ',' then
      .ok ⟨.comma, skipBlanks rest, by
        have := length_of_skipBlanks h; have := skipBlanks_length rest; omega⟩
    else .error (.at .expectedComma (.char c :: rest))
  | other => .error (.at .expectedComma other)

/-- The text after the closing bracket of an empty array or object, if one begins here. -/
def closed? (close : Char) (s : Text) : Option { r : Text // r.length < s.length } :=
  match h : skipBlanks s with
  | .char c :: rest => if c = close then some ⟨rest, length_of_skipBlanks h⟩ else none
  | _ => none

mutual

/-- The value at the beginning of a text, which may nest `depth` deep. -/
def value (depth : Nat) (s : Text) : Except (Fault Text) (Scanned Json s) :=
  match s with
  | .char '"' :: rest =>
    match h : stringBody (.char '"' :: rest) rest with
    | .error fault => .error fault
    | .ok (t, after) => .ok ⟨.string t, after, by have := stringBody_length h; simp; omega⟩
  | .char '[' :: rest =>
    if depth = 0 then .error (.tooDeep .array)
    else
      match closed? ']' rest with
      | some ⟨after, h⟩ => .ok ⟨.array [], after, by simp; omega⟩
      | none =>
        have := skipBlanks_length rest
        match elements (depth - 1) (skipBlanks rest) with
        | .error fault => .error fault
        | .ok ⟨items, after, h⟩ => .ok ⟨.array items, after, by simp; omega⟩
  | .char '\x7b' :: rest =>
    if depth = 0 then .error (.tooDeep .object)
    else
      match closed? '\x7d' rest with
      | some ⟨after, h⟩ => .ok ⟨.object [], after, by simp; omega⟩
      | none =>
        have := skipBlanks_length rest
        match members (depth - 1) [] (skipBlanks rest) with
        | .error fault => .error fault
        | .ok ⟨found, after, h⟩ => .ok ⟨.object found, after, by simp; omega⟩
  | plain =>
    match h : atom plain with
    | .error fault => .error fault
    | .ok (v, after) => .ok ⟨v, after, atom_length h⟩
termination_by 2 * s.length
decreasing_by all_goals (simp at *; omega)

/-- The elements of an array, one at least, up to and including the closing bracket. -/
def elements (depth : Nat) (s : Text) : Except (Fault Text) (Scanned (List Json) s) :=
  match value depth s with
  | .error fault => .error fault
  | .ok ⟨v, after, h⟩ =>
    match separator ']' after with
    | .error fault => .error fault
    | .ok ⟨.close, rest, h'⟩ => .ok ⟨[v], rest, by omega⟩
    | .ok ⟨.comma, next, h'⟩ =>
      match elements depth next with
      | .error fault => .error fault
      | .ok ⟨vs, rest, h''⟩ => .ok ⟨v :: vs, rest, by omega⟩
termination_by 2 * s.length + 1
decreasing_by all_goals omega

/-- The members of an object, one at least, up to and including the closing brace; `found` holds
the members before them. -/
def members (depth : Nat) (found : List (Text × Json)) (s : Text) :
    Except (Fault Text) (Scanned (List (Text × Json)) s) :=
  match key s with
  | .error fault => .error fault
  | .ok ⟨name, afterName, h⟩ =>
    match expect ':' .expectedColon afterName with
    | .error fault => .error fault
    | .ok ⟨(), afterColon, h'⟩ =>
      have := skipBlanks_length afterColon
      match value depth (skipBlanks afterColon) with
      | .error fault => .error fault
      | .ok ⟨v, after, h''⟩ =>
        match separator '\x7d' after with
        | .error fault => .error fault
        | .ok ⟨.close, rest, h₁⟩ => .ok ⟨insert name v found, rest, by omega⟩
        | .ok ⟨.comma, next, h₁⟩ =>
          match members depth (insert name v found) next with
          | .error fault => .error fault
          | .ok ⟨all, rest, h₂⟩ => .ok ⟨all, rest, by omega⟩
termination_by 2 * s.length + 1
decreasing_by all_goals omega

end

/-- The value of a text that holds exactly one, or the first fault and the text it leaves. -/
def document (s : Text) : Except (Fault Text) Json :=
  match s with
  | .char '\ufeff' :: _ => .error (.at .byteOrderMark s)
  | _ =>
    match value maxDepth (skipBlanks s) with
    | .error fault => .error fault
    | .ok ⟨v, after, _⟩ =>
      match skipBlanks after with
      | [] => .ok v
      | rest => .error (.at .extraData rest)

/-- Reads a text that holds exactly one value. -/
def read (s : Text) : Except (Fault Position) Json :=
  (document s).mapError (·.locate s)

end DeltaPreview.Json
