import DeltaPreview.Text.Blank

/-!
# Formulas in a text

A block formula stands between two pairs of dollars, an inline formula between two single dollars
on one line.  Block formulas are found first, from left to right and as short as possible; inline
formulas are looked for in the literal text that remains.
-/

namespace DeltaPreview

/-- A piece of a text: literal text, or the source of a formula without its dollars. -/
inductive Segment where
  | literal (text : Text)
  | inline (source : Text)
  | block (source : Text)
  deriving DecidableEq, Repr

namespace Segment

/-- The parts of a text before and after its first pair of dollars. -/
def breakAtPair : Text → Option (Text × Text)
  | .char '$' :: .char '$' :: rest => some ([], rest)
  | [] => none
  | g :: rest => (breakAtPair rest).map fun (before, after) => (g :: before, after)

/-- Neither a dollar nor a line end. -/
def isInlineChar (g : CodePoint) : Bool := g != .char '$' && g != .char '\n'

/-- The source of the inline formula whose opening dollar precedes a text, and what follows it. -/
def inlineBody? (s : Text) : Option (Text × Text) :=
  match s.takeWhile isInlineChar, s.dropWhile isInlineChar with
  | g :: body, .char '$' :: after => some (g :: body, after)
  | _, _ => none

/-- A formula found in a text: what precedes it, its source, and what follows it. -/
structure Found (s : Text) where
  before : Text
  source : Text
  after : Text
  shorter : after.length < s.length

theorem breakAtPair_length {s before after : Text} (h : breakAtPair s = some (before, after)) :
    s.length = before.length + 2 + after.length := by
  fun_induction breakAtPair s generalizing before after with
  | case1 rest => simp at h; obtain ⟨rfl, rfl⟩ := h; simp; omega
  | case2 => simp at h
  | case3 g rest _ ih =>
    simp only [Option.map_eq_some_iff, Prod.mk.injEq] at h
    obtain ⟨⟨b, a⟩, hb, rfl, rfl⟩ := h
    have := ih hb
    simp
    omega

theorem inlineBody?_length {s source after : Text} (h : inlineBody? s = some (source, after)) :
    s.length = source.length + 1 + after.length := by
  unfold inlineBody? at h
  split at h
  · rename_i g body after' h₁ h₂
    simp at h
    obtain ⟨rfl, rfl⟩ := h
    have := congrArg List.length (List.takeWhile_append_dropWhile (p := isInlineChar) (l := s))
    rw [h₁, h₂] at this
    simp at this ⊢
    omega
  · simp at h

/-- The first block formula. -/
def findBlock? (s : Text) : Option (Found s) :=
  match h : breakAtPair s with
  | none => none
  | some (before, rest) =>
    match h' : breakAtPair rest with
    | none => none
    | some (source, after) => some ⟨before, source, after, by
        have := breakAtPair_length h; have := breakAtPair_length h'; omega⟩

/-- The first inline formula. -/
def findInline? : (s : Text) → Option (Found s)
  | [] => none
  | g :: rest =>
    let later := (findInline? rest).map fun f =>
      (⟨g :: f.before, f.source, f.after, by have := f.shorter; simp; omega⟩ : Found (g :: rest))
    if g = .char '$' then
      match h : inlineBody? rest with
      | some (source, after) =>
        some ⟨[], source, after, by have := inlineBody?_length h; simp; omega⟩
      | none => later
    else later

/-- Literal text, unless it is empty. -/
def literalOf : Text → List Segment
  | [] => []
  | t => [.literal t]

/-- Cuts a text at the formulas that `find?` finds, from left to right. -/
def cut (find? : (s : Text) → Option (Found s)) (formula : Text → Segment) (s : Text) :
    List Segment :=
  match find? s with
  | none => literalOf s
  | some ⟨before, source, after, _⟩ =>
    literalOf before ++ formula source :: cut find? formula after
termination_by s.length

/-- The segments of a text. -/
def split (s : Text) : List Segment :=
  (cut findBlock? block s).flatMap fun
    | literal t => cut findInline? inline t
    | other => [other]

/-- Whether a text contains a formula. -/
def contains (s : Text) : Bool := (findInline? s).isSome || (findBlock? s).isSome

/-- The formula of a segment. -/
def formula? : Segment → Option Segment
  | literal _ => none
  | formula => some formula

/-- The text of the literal segments. -/
def literalText (segments : List Segment) : Text :=
  segments.flatMap fun
    | literal t => t
    | _ => []

/-- A segment as it stands in a text. -/
def spelled : Segment → Text
  | literal t => t
  | inline source => .char '$' :: (source ++ [.char '$'])
  | block source => .char '$' :: .char '$' :: (source ++ [.char '$', .char '$'])

/-- The formulas of a text: the block formulas, and then the inline formulas of the text that is
left when the block formulas are taken out. -/
def formulas (s : Text) : List Segment :=
  let blocks := cut findBlock? block s
  blocks.filterMap formula? ++
    (cut findInline? inline (literalText blocks)).filterMap formula?

end Segment

end DeltaPreview
