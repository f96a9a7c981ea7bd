import DeltaPreview.Text.Line

/-!
# Events of XML content

XML content is a sequence of texts, tags, comments and processing instructions.  Reading is strict:
whatever is not well formed has no events.  Line ends are normalised first; a carriage return can
only be written as a reference.
-/

namespace DeltaPreview.Xml

/-- A piece of XML content. -/
inductive Event where
  | text (content : List Char)
  /-- A start tag with its attributes as they are written, and whether it ends at once. -/
  | start (name : List Char) (attributes : List (List Char × List Char)) (closed : Bool)
  | stop (name : List Char)
  | comment (content : List Char)
  | instruction (target content : List Char)
  deriving DecidableEq, Repr

/-! ### Characters -/

/-- The ranges of the characters that begin a name, the colon and ASCII letters apart. -/
def nameStartRanges : List (Nat × Nat) := [
  (0xC0, 0xD6), (0xD8, 0xF6), (0xF8, 0x2FF), (0x370, 0x37D), (0x37F, 0x1FFF), (0x200C, 0x200D),
  (0x2070, 0x218F), (0x2C00, 0x2FEF), (0x3001, 0xD7FF), (0xF900, 0xFDCF), (0xFDF0, 0xFFFD),
  (0x10000, 0xEFFFF)]

/-- The ranges of the other characters of a name beyond ASCII. -/
def namePartRanges : List (Nat × Nat) := [(0xB7, 0xB7), (0x300, 0x36F), (0x203F, 0x2040)]

def inRanges (ranges : List (Nat × Nat)) (c : Char) : Bool :=
  ranges.any fun r => r.1 ≤ c.toNat && c.toNat ≤ r.2

/-- A character that begins a name. -/
def isNameStart (c : Char) : Bool :=
  c.isAlpha || c == '_' || c == ':' || inRanges nameStartRanges c

/-- A character of a name. -/
def isNamePart (c : Char) : Bool :=
  isNameStart c || c.isDigit || c == '-' || c == '.' || inRanges namePartRanges c

/-- The blanks of XML. -/
def isBlank (c : Char) : Bool := c == ' ' || c == '\t' || c == '\n' || c == '\r'

/-- A character that a reference may name. -/
def isXmlChar (n : Nat) : Bool :=
  n == 0x9 || n == 0xA || n == 0xD || (0x20 ≤ n && n ≤ 0xD7FF) || (0xE000 ≤ n && n ≤ 0xFFFD) ||
    (0x10000 ≤ n && n ≤ 0x10FFFF)

/-! ### Pieces of markup

Each reader takes a piece from the front of a text and returns the text after it. -/

/-- A name. -/
def name? (s : List Char) : Option (List Char × List Char) :=
  match s with
  | c :: _ => if isNameStart c then some (s.takeWhile isNamePart, s.dropWhile isNamePart) else none
  | [] => none

/-- A text without its leading blanks. -/
def skipBlanks (s : List Char) : List Char := s.dropWhile isBlank

/-- A text without a word that begins it. -/
def after? (word s : List Char) : Option (List Char) :=
  if word.isPrefixOf s then some (s.drop word.length) else none

/-- The text before a mark, and the text after the mark. -/
def upTo? (mark : List Char) : List Char → Option (List Char × List Char)
  | [] => none
  | c :: rest =>
    match after? mark (c :: rest) with
    | some after => some ([], after)
    | none => (upTo? mark rest).map fun (before, after) => (c :: before, after)

theorem after?_length {word s rest : List Char} (h : after? word s = some rest) :
    rest.length + word.length = s.length := by
  unfold after? at h
  split at h
  · rename_i hp
    have := (List.isPrefixOf_iff_prefix.1 hp).length_le
    simp at h
    subst h
    simp
    omega
  · simp at h

theorem upTo?_length {mark s before rest : List Char} (h : upTo? mark s = some (before, rest)) :
    before.length + mark.length + rest.length = s.length := by
  induction s generalizing before rest with
  | nil => simp [upTo?] at h
  | cons c t ih =>
    unfold upTo? at h
    split at h
    · rename_i after ha
      simp at h
      obtain ⟨rfl, rfl⟩ := h
      have := after?_length ha
      simp at this ⊢
      omega
    · simp only [Option.map_eq_some_iff, Prod.mk.injEq] at h
      obtain ⟨⟨b, r⟩, hb, rfl, rfl⟩ := h
      have := ih hb
      simp at this ⊢
      omega

theorem skipBlanks_length (s : List Char) : (skipBlanks s).length ≤ s.length :=
  (List.dropWhile_sublist _).length_le

theorem name?_length {s name rest : List Char} (h : name? s = some (name, rest)) :
    rest.length < s.length := by
  unfold name? at h
  split at h
  · rename_i c t
    split at h
    · rename_i hc
      simp at h
      obtain ⟨-, rfl⟩ := h
      have hp : isNamePart c = true := by simp [isNamePart, hc]
      have := (List.dropWhile_sublist isNamePart (l := t)).length_le
      rw [List.dropWhile_cons_of_pos hp]
      simp
      omega
    · simp at h
  · simp at h

/-- The value of a digit in a base up to sixteen. -/
def digit? (base : Nat) (c : Char) : Option Nat :=
  let value :=
    if c.isDigit then some (c.toNat - '0'.toNat)
    else if 'a' ≤ c ∧ c ≤ 'f' then some (c.toNat - 'a'.toNat + 10)
    else if 'A' ≤ c ∧ c ≤ 'F' then some (c.toNat - 'A'.toNat + 10)
    else none
  value.filter (· < base)

/-- The number that digits spell in a base. -/
def number? (base : Nat) (digits : List Char) : Option Nat := do
  let ds ← digits.mapM (digit? base)
  if ds.isEmpty then none else some (ds.foldl (fun n d => base * n + d) 0)

/-- The characters that have a name. -/
def entities : List (String × Char) :=
  [("lt", '<'), ("gt", '>'), ("amp", '&'), ("quot", '"'), ("apos", '\'')]

/-- The character of a numeric reference. -/
def charOfNumber? (n : Nat) : Option Char := if isXmlChar n then some (Char.ofNat n) else none

/-- The character that the inside of a reference stands for. -/
def referenced? (body : List Char) : Option Char :=
  match body with
  | '#' :: 'x' :: digits => (number? 16 digits).bind charOfNumber?
  | '#' :: digits => (number? 10 digits).bind charOfNumber?
  | name => entities.lookup (String.ofList name)

/-- A reference, given the text after its ampersand. -/
def reference? (s : List Char) : Option (Char × List Char) :=
  match upTo? [';'] s with
  | none => none
  | some (body, rest) => (referenced? body).map fun c => (c, rest)

theorem reference?_length {s rest : List Char} {c : Char} (h : reference? s = some (c, rest)) :
    rest.length < s.length := by
  unfold reference? at h
  split at h
  · simp at h
  · rename_i body r hb
    simp only [Option.map_eq_some_iff, Prod.mk.injEq] at h
    obtain ⟨_, _, _, rfl⟩ := h
    have := upTo?_length hb
    simp at this
    omega

/-- The rest of an attribute value up to its quote.  Blanks become spaces. -/
def value? (quote : Char) (s : List Char) : Option (List Char × List Char) :=
  match s with
  | [] => none
  | c :: rest =>
    if c = quote then some ([], rest)
    else if c = '<' then none
    else if c = '&' then
      match h : reference? rest with
      | none => none
      | some (d, after) =>
        have := reference?_length h
        (value? quote after).map fun (v, last) => (d :: v, last)
    else (value? quote rest).map fun (v, last) => ((if isBlank c then ' ' else c) :: v, last)
termination_by s.length
decreasing_by all_goals simp <;> omega

theorem value?_length {quote : Char} {s v rest : List Char} (h : value? quote s = some (v, rest)) :
    rest.length < s.length := by
  fun_induction value? quote s generalizing v rest with
  | case1 => simp at h
  | case2 => simp at h; obtain ⟨-, rfl⟩ := h; simp
  | case3 => simp at h
  | case4 => simp at h
  | case5 t _ _ d after hr this ih =>
    simp only [Option.map_eq_some_iff, Prod.mk.injEq] at h
    obtain ⟨⟨w, r⟩, hw, -, rfl⟩ := h
    have := ih hw
    simp
    omega
  | case6 c t _ _ _ ih =>
    simp only [Option.map_eq_some_iff, Prod.mk.injEq] at h
    obtain ⟨⟨w, r⟩, hw, -, rfl⟩ := h
    have := ih hw
    simp
    omega

/-- The equals sign and the value after the name of an attribute. -/
def assigned? (s : List Char) : Option (List Char × List Char) :=
  match after? ['='] (skipBlanks s) with
  | none => none
  | some afterEquals =>
    match skipBlanks afterEquals with
    | '"' :: rest => value? '"' rest
    | '\'' :: rest => value? '\'' rest
    | _ => none

/-- An attribute. -/
def attribute? (s : List Char) : Option ((List Char × List Char) × List Char) :=
  match name? s with
  | none => none
  | some (name, afterName) => (assigned? afterName).map fun (v, rest) => ((name, v), rest)

theorem assigned?_length {s v rest : List Char} (h : assigned? s = some (v, rest)) :
    rest.length < s.length := by
  unfold assigned? at h
  split at h
  · simp at h
  · rename_i afterEquals ha
    have h₁ := after?_length ha
    have h₂ := skipBlanks_length s
    have h₃ := skipBlanks_length afterEquals
    split at h
    · rename_i hq; have := value?_length h; simp [hq] at h₁ h₃; omega
    · rename_i hq; have := value?_length h; simp [hq] at h₁ h₃; omega
    · simp at h

theorem attribute?_length {s rest : List Char} {a : List Char × List Char}
    (h : attribute? s = some (a, rest)) : rest.length < s.length := by
  unfold attribute? at h
  split at h
  · simp at h
  · rename_i name afterName hn
    simp only [Option.map_eq_some_iff, Prod.mk.injEq] at h
    obtain ⟨⟨v, r⟩, hv, -, rfl⟩ := h
    have h₁ := name?_length hn
    have h₂ := assigned?_length hv
    dsimp only at h₁ h₂ ⊢
    omega

/-- Whether one of some attributes has a name. -/
def hasName (name : List Char) (attributes : List (List Char × List Char)) : Bool :=
  (attributes.map Prod.fst).contains name

/-- The attributes of a start tag and its end.  Attributes need a blank before them, and no two have
the same name. -/
def attributes? (found : List (List Char × List Char)) (s : List Char) :
    Option (List (List Char × List Char) × Bool × List Char) :=
  match skipBlanks s with
  | '>' :: rest => some (found, false, rest)
  | '/' :: '>' :: rest => some (found, true, rest)
  | _ =>
    if s.head?.any isBlank then
      match h : attribute? (skipBlanks s) with
      | none => none
      | some ((name, v), rest) =>
        have := attribute?_length h
        have := skipBlanks_length s
        if hasName name found then none
        else attributes? (found ++ [(name, v)]) rest
    else none
termination_by s.length

/-- A start tag. -/
def startTag? (s : List Char) : Option (Event × List Char) := do
  let (name, afterName) ← name? s
  let (attributes, closed, rest) ← attributes? [] afterName
  return (.start name attributes closed, rest)

/-- An end tag, given the text after its slash. -/
def endTag? (s : List Char) : Option (Event × List Char) := do
  let (name, afterName) ← name? s
  let rest ← after? ['>'] (skipBlanks afterName)
  return (.stop name, rest)

/-- A comment, given the text after its opening.  Two hyphens end it. -/
def comment? (s : List Char) : Option (Event × List Char) := do
  let (content, afterHyphens) ← upTo? ['-', '-'] s
  let rest ← after? ['>'] afterHyphens
  return (.comment content, rest)

/-- A name that is reserved for declarations. -/
def isReservedTarget (name : List Char) : Bool :=
  name.map Char.toLower == ['x', 'm', 'l'] || name.contains ':'

/-- A processing instruction, given the text after its opening. -/
def instruction? (s : List Char) : Option (Event × List Char) := do
  let (target, afterTarget) ← name? s
  if isReservedTarget target then none
  else match after? ['?', '>'] afterTarget with
    | some rest => return (.instruction target [], rest)
    | none =>
      if (skipBlanks afterTarget).length = afterTarget.length then none
      else
        let (content, rest) ← upTo? ['?', '>'] (skipBlanks afterTarget)
        return (.instruction target content, rest)

/-- A marked section of literal text, given the text after its opening. -/
def section? (s : List Char) : Option (Event × List Char) := do
  let (content, rest) ← upTo? "]]>".toList s
  return (.text content, rest)

/-- A piece of markup, given the text after its opening bracket. -/
def markup? (s : List Char) : Option (Event × List Char) :=
  match s with
  | '/' :: rest => endTag? rest
  | '?' :: rest => instruction? rest
  | '!' :: '-' :: '-' :: rest => comment? rest
  | '!' :: rest => (after? "[CDATA[".toList rest).bind section?
  | _ => startTag? s

/-- Neither the beginning of markup nor of a reference. -/
def isPlain (c : Char) : Bool := c != '<' && c != '&'

/-- The first piece of a text that is not empty. -/
def event? (s : List Char) : Option (Event × List Char) :=
  match s with
  | [] => none
  | '<' :: rest => markup? rest
  | '&' :: rest => (reference? rest).map fun (c, after) => (.text [c], after)
  | _ =>
    if (upTo? "]]>".toList (s.takeWhile isPlain)).isSome then none
    else some (.text (s.takeWhile isPlain), s.dropWhile isPlain)

theorem attributes?_length {found attributes : List (List Char × List Char)} {s rest : List Char}
    {closed : Bool} (h : attributes? found s = some (attributes, closed, rest)) :
    rest.length < s.length := by
  fun_induction attributes? found s generalizing attributes rest with
  | case1 found s r hs =>
    simp at h
    obtain ⟨-, -, rfl⟩ := h
    have := skipBlanks_length s
    simp [hs] at this
    omega
  | case2 found s r hs =>
    simp at h
    obtain ⟨-, -, rfl⟩ := h
    have := skipBlanks_length s
    simp [hs] at this
    omega
  | case3 => simp at h
  | case4 => simp at h
  | case5 found s _ _ _ _ _ _ _ _ _ _ ih =>
    have := ih h
    omega
  | case6 => simp at h

theorem markup?_length {s rest : List Char} {e : Event} (h : markup? s = some (e, rest)) :
    rest.length < s.length := by
  unfold markup? at h
  split at h
  · rename_i t
    simp only [endTag?, Option.bind_eq_bind, Option.bind_eq_some_iff, Option.pure_def,
      Option.some.injEq, Prod.mk.injEq] at h
    obtain ⟨⟨n, a⟩, hn, r, hr, -, rfl⟩ := h
    have h₁ := name?_length hn
    have h₂ := after?_length hr
    have h₃ := skipBlanks_length a
    simp at h₂ ⊢
    omega
  · rename_i t
    simp only [instruction?, Option.bind_eq_bind, Option.bind_eq_some_iff] at h
    obtain ⟨⟨n, a⟩, hn, h⟩ := h
    have := name?_length hn
    split at h
    · simp at h
    · split at h
      · rename_i r hr
        simp at h
        obtain ⟨-, rfl⟩ := h
        have h₁ := after?_length hr
        simp at h₁ ⊢
        omega
      · split at h
        · simp at h
        · simp only [Option.bind_eq_some_iff, Option.pure_def, Option.some.injEq,
            Prod.mk.injEq] at h
          obtain ⟨⟨c, r⟩, hc, -, rfl⟩ := h
          have := upTo?_length hc
          have := skipBlanks_length a
          simp at this ⊢
          omega
  · rename_i t
    simp only [comment?, Option.bind_eq_bind, Option.bind_eq_some_iff, Option.pure_def,
      Option.some.injEq, Prod.mk.injEq] at h
    obtain ⟨⟨c, a⟩, hc, r, hr, -, rfl⟩ := h
    have := upTo?_length hc
    have := after?_length hr
    simp at this ⊢
    omega
  · rename_i t
    simp only [Option.bind_eq_some_iff, section?, Option.bind_eq_bind, Option.pure_def,
      Option.some.injEq, Prod.mk.injEq] at h
    obtain ⟨t', ht, ⟨c, a⟩, hc, -, rfl⟩ := h
    have h₁ := after?_length ht
    have h₂ := upTo?_length hc
    simp at h₁ h₂ ⊢
    omega
  · simp only [startTag?, Option.bind_eq_bind, Option.bind_eq_some_iff, Option.pure_def,
      Option.some.injEq, Prod.mk.injEq] at h
    obtain ⟨⟨n, a⟩, hn, ⟨as, c, r⟩, hr, -, rfl⟩ := h
    have h₁ := name?_length hn
    have h₂ := attributes?_length hr
    dsimp only at h₁ h₂ ⊢
    omega

theorem event?_length {s rest : List Char} {e : Event} (h : event? s = some (e, rest)) :
    rest.length < s.length := by
  unfold event? at h
  split at h
  · simp at h
  · have := markup?_length h
    simp
    omega
  · simp only [Option.map_eq_some_iff, Prod.mk.injEq] at h
    obtain ⟨⟨c, a⟩, ha, -, rfl⟩ := h
    have := reference?_length ha
    simp
    omega
  · rename_i h₀ h₁ h₂
    split at h
    · simp at h
    · simp at h
      obtain ⟨-, rfl⟩ := h
      cases s with
      | nil => simp at h₀
      | cons c t =>
        have hp : isPlain c = true := by
          simp only [isPlain, Bool.and_eq_true, bne_iff_ne]
          exact ⟨fun e => h₁ t (by rw [e]), fun e => h₂ t (by rw [e])⟩
        have := (List.dropWhile_sublist isPlain (l := t)).length_le
        rw [List.dropWhile_cons_of_pos hp]
        simp
        omega

/-- The events of XML content whose line ends are normalised. -/
def events? (s : List Char) : Option (List Event) :=
  if s.isEmpty then some []
  else
    match h : event? s with
    | none => none
    | some (event, rest) =>
      have := event?_length h
      (events? rest).map (event :: ·)
termination_by s.length

end DeltaPreview.Xml
