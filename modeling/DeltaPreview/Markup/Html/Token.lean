import DeltaPreview.Markup.Html.Printer
import DeltaPreview.Markup.Html.Reference

/-!
# Tokens of HTML

HTML is read leniently: every text has tokens.  What looks like markup and is none becomes text or a
comment.  The content of some elements is text up to their end tag, or up to the end of the text.
-/

namespace DeltaPreview.Html

/-- How a start tag ends: with a bracket, with a slash before it, or with the text. -/
inductive TagEnd where
  | bracket
  | slash
  | missing
  deriving DecidableEq, Repr

/-- A token of HTML. -/
inductive Token where
  | text (content : List Char)
  | start (name : List Char) (attributes : List (List Char × Option (List Char))) (ending : TagEnd)
  | stop (name : List Char)
  | comment (content : List Char)
  deriving DecidableEq, Repr

/-- The blanks between the parts of a tag. -/
def isSpace (c : Char) : Bool := c == ' ' || c == '\t' || c == '\n' || c == '\x0c' || c == '\r'

/-- A character of the name of a tag. -/
def isTagNamePart (c : Char) : Bool := !isSpace c && c != '/' && c != '>'

/-- A character of the name of an attribute, its first one apart. -/
def isAttributeNamePart (c : Char) : Bool := isTagNamePart c && c != '='

/-- A character of a value without quotes. -/
def isBareValuePart (c : Char) : Bool := !isSpace c && c != '>'

/-- The elements whose content is text in which references are resolved. -/
def textNames : List String := ["textarea", "title"]

/-- The elements whose content is text as it stands. -/
def literalNames : List String := ["style", "xmp", "iframe", "noembed", "noframes"]

/-- A name in lower case. -/
def lower (name : List Char) : List Char := name.map Char.toLower

/-- The value after the name of an attribute, if an equals sign assigns one. -/
def assigned (s : List Char) : Option (List Char) × List Char :=
  match s.dropWhile isSpace with
  | '=' :: rest =>
    match rest.dropWhile isSpace with
    | '"' :: t => (some (t.takeWhile (· != '"')), (t.dropWhile (· != '"')).drop 1)
    | '\'' :: t => (some (t.takeWhile (· != '\'')), (t.dropWhile (· != '\'')).drop 1)
    | t => (some (t.takeWhile isBareValuePart), t.dropWhile isBareValuePart)
  | _ => (none, s)

theorem dropWhile_length (p : Char → Bool) (s : List Char) : (s.dropWhile p).length ≤ s.length :=
  (List.dropWhile_sublist p).length_le

theorem assigned_length (s : List Char) : (assigned s).2.length ≤ s.length := by
  have h₁ := dropWhile_length isSpace s
  unfold assigned
  split
  · rename_i rest hr
    have h₂ := dropWhile_length isSpace rest
    simp [hr] at h₁
    split
    · rename_i t ht
      have := dropWhile_length (· != '"') t
      simp [ht] at h₂ this ⊢
      omega
    · rename_i t ht
      have := dropWhile_length (· != '\'') t
      simp [ht] at h₂ this ⊢
      omega
    · have := dropWhile_length isBareValuePart (rest.dropWhile isSpace)
      dsimp only
      omega
  · simp

/-- What follows the name of a start tag: its attributes, whether it ends at once, and the text
after it.  The end of the text may come first. -/
def attributes (s : List Char) : List (List Char × Option (List Char)) × Option (Bool × List Char) :=
  match s with
  | [] => ([], none)
  | c :: rest =>
    if c = '>' then ([], some (false, rest))
    else if isSpace c then attributes rest
    else if c = '/' then
      if rest.head? = some '>' then ([], some (true, rest.drop 1)) else attributes rest
    else
      have := dropWhile_length isAttributeNamePart rest
      have := assigned_length (rest.dropWhile isAttributeNamePart)
      let name := lower (c :: rest.takeWhile isAttributeNamePart)
      let value := assigned (rest.dropWhile isAttributeNamePart)
      let following := attributes value.2
      ((name, value.1.map (resolve true 0)) :: following.1, following.2)
termination_by s.length
decreasing_by all_goals simp <;> omega

theorem attributes_length {s rest : List Char} {closed : Bool}
    (h : (attributes s).2 = some (closed, rest)) : rest.length < s.length := by
  fun_induction attributes s with
  | case1 => simp at h
  | case2 => simp at h; obtain ⟨-, rfl⟩ := h; simp
  | case3 c t _ _ ih => have := ih h; simp; omega
  | case4 =>
    simp at h
    obtain ⟨-, rfl⟩ := h
    simp only [List.length_cons, List.length_tail]
    omega
  | case5 t _ _ _ ih => have := ih h; simp; omega
  | case6 c t _ _ _ h₁ h₂ _ value _ ih =>
    have := ih h
    simp [value] at this ⊢
    omega

/-- The text up to a mark, or all of it, and the text after the mark. -/
def upTo (mark s : List Char) : List Char × List Char := (Xml.upTo? mark s).getD (s, [])

/-- A comment that the text cuts off, without the beginning of its closing mark. -/
def withoutEnding (s : List Char) : List Char :=
  match s.reverse with
  | '!' :: '-' :: '-' :: rest => rest.reverse
  | '-' :: '-' :: rest => rest.reverse
  | '-' :: rest => rest.reverse
  | _ => s

/-- A comment, given the text after its opening. -/
def comment (s : List Char) : Token × List Char :=
  match s with
  | '>' :: rest => (.comment [], rest)
  | '-' :: '>' :: rest => (.comment [], rest)
  | _ =>
    match Xml.upTo? "-->".toList s, Xml.upTo? "--!>".toList s with
    | some (a, afterA), some (b, afterB) =>
      if a.length ≤ b.length then (.comment a, afterA) else (.comment b, afterB)
    | some (a, after), none => (.comment a, after)
    | none, some (b, after) => (.comment b, after)
    | none, none => (.comment (withoutEnding s), [])

/-- What only looks like markup: a comment up to the next end of a tag. -/
def bogusComment (s : List Char) : Token × List Char :=
  let (content, rest) := upTo ['>'] s
  (.comment content, rest)

/-- Whether a text begins with a tag: its opening, in any case, and something that ends a name. -/
def beginsTag (opening s : List Char) : Bool :=
  match Xml.after? opening (lower (s.take (opening.length + 1))) with
  | some (d :: _) => isSpace d || d == '/' || d == '>'
  | _ => false

/-- The text before the end tag of an element, and the text from that tag on. -/
def untilEnd (name : List Char) : List Char → List Char × List Char
  | [] => ([], [])
  | c :: rest =>
    if beginsTag ('<' :: '/' :: name) (c :: rest) then ([], c :: rest)
    else let (before, after) := untilEnd name rest; (c :: before, after)

/-- Where a script stands: outside comments, in a comment, or in a script inside a comment. -/
inductive ScriptPlace where
  | code
  | comment
  | inner
  deriving DecidableEq, Repr

/-- The place after the character that begins a text. -/
def ScriptPlace.next (place : ScriptPlace) (s : List Char) : ScriptPlace :=
  match place with
  | code => if (Xml.after? "<!--".toList s).isSome then comment else code
  | comment =>
    if (Xml.after? "-->".toList s).isSome then code
    else if beginsTag "<script".toList s then inner
    else comment
  | inner =>
    if (Xml.after? "-->".toList s).isSome then code
    else if beginsTag "</script".toList s then comment
    else inner

/-- The text before the end tag of a script, and the text from that tag on.  The end tag of a script
inside a comment does not count. -/
def untilScriptEnd (place : ScriptPlace) : List Char → List Char × List Char
  | [] => ([], [])
  | c :: rest =>
    if place ≠ .inner ∧ beginsTag "</script".toList (c :: rest) then ([], c :: rest)
    else
      let (before, after) := untilScriptEnd (place.next (c :: rest)) rest
      (c :: before, after)

/-- The content of an element that holds text only, and the text after it. -/
def content? (name s : List Char) : Option (List Char × List Char) :=
  let word := String.ofList name
  if word = "plaintext" then some (s, [])
  else if word = "script" then some (untilScriptEnd .code s)
  else if literalNames.contains word then some (untilEnd name s)
  else if textNames.contains word then
    some ((untilEnd name s).map (resolve false 0) id)
  else none

/-- The tokens of a start tag, given the text at its name, and of the text that its element holds. -/
def startTag (s : List Char) : List Token × List Char :=
  let name := lower (s.takeWhile isTagNamePart)
  let (found, ended) := attributes (s.dropWhile isTagNamePart)
  match ended with
  | none => ([.start name found .missing], [])
  | some (true, rest) => ([.start name found .slash], rest)
  | some (false, rest) =>
    match content? name rest with
    | some (content, after) => ([.start name found .bracket, .text content], after)
    | none => ([.start name found .bracket], rest)

/-- The tokens of an end tag, given the text after its slash. -/
def endTag (s : List Char) : List Token × List Char :=
  match s with
  | [] => ([.text ['<', '/']], [])
  | '>' :: rest => ([], rest)
  | c :: _ =>
    if c.isAlpha then
      let name := lower (s.takeWhile isTagNamePart)
      match (attributes (s.dropWhile isTagNamePart)).2 with
      | none => ([], [])
      | some (_, rest) => ([.stop name], rest)
    else let (t, rest) := bogusComment s; ([t], rest)

/-- The tokens that an opening bracket begins, given the text after it. -/
def markup (s : List Char) : List Token × List Char :=
  match s with
  | '/' :: rest => endTag rest
  | '!' :: '-' :: '-' :: rest => let (t, after) := comment rest; ([t], after)
  | '!' :: rest =>
    let (t, after) := bogusComment rest
    (if Xml.after? "doctype".toList (lower rest) |>.isSome then [] else [t], after)
  | '?' :: _ => let (t, after) := bogusComment s; ([t], after)
  | c :: _ => if c.isAlpha then startTag s else ([.text ['<']], s)
  | [] => ([.text ['<']], [])

theorem upTo_length (mark s : List Char) : (upTo mark s).2.length ≤ s.length := by
  unfold upTo
  cases h : Xml.upTo? mark s with
  | none => simp
  | some r =>
    obtain ⟨before, rest⟩ := r
    have := Xml.upTo?_length h
    simp
    omega

theorem comment_length (s : List Char) : (comment s).2.length ≤ s.length := by
  unfold comment
  split
  · simp
  · simp; omega
  · split
    · rename_i ha hb
      have h₁ := Xml.upTo?_length ha
      have h₂ := Xml.upTo?_length hb
      split <;> simp <;> omega
    · rename_i ha _; have := Xml.upTo?_length ha; simp; omega
    · rename_i _ hb; have := Xml.upTo?_length hb; simp; omega
    · simp

theorem untilEnd_length (name s : List Char) : (untilEnd name s).2.length ≤ s.length := by
  fun_induction untilEnd name s with
  | case1 => simp
  | case2 => simp
  | case3 c t _ _ _ h ih => simp [h] at ih ⊢; omega

theorem untilScriptEnd_length (place : ScriptPlace) (s : List Char) :
    (untilScriptEnd place s).2.length ≤ s.length := by
  fun_induction untilScriptEnd place s with
  | case1 => simp
  | case2 => simp
  | case3 place c t _ _ _ h ih => simp [h] at ih ⊢; omega

theorem content?_length {name s content rest : List Char}
    (h : content? name s = some (content, rest)) : rest.length ≤ s.length := by
  have h₁ := untilScriptEnd_length .code s
  have h₂ := untilEnd_length name s
  unfold content? at h
  extract_lets at h
  split at h
  · simp at h; simp [h.2]
  · split at h
    · simp only [Option.some.injEq] at h; rw [h] at h₁; exact h₁
    · split at h
      · simp only [Option.some.injEq] at h; rw [h] at h₂; exact h₂
      · split at h
        · simp only [Option.some.injEq, Prod.ext_iff] at h; rw [← h.2]; exact h₂
        · simp at h

theorem startTag_length (s : List Char) : (startTag s).2.length ≤ s.length := by
  have h₁ := dropWhile_length isTagNamePart s
  unfold startTag
  dsimp only
  cases h : (attributes (s.dropWhile isTagNamePart)).2 with
  | none => simp
  | some r =>
    obtain ⟨closed, rest⟩ := r
    have h₂ := attributes_length h
    cases closed with
    | true => simp; omega
    | false =>
      dsimp only
      split
      · rename_i hc; have := content?_length hc; simp; omega
      · simp; omega

theorem endTag_length (s : List Char) : (endTag s).2.length ≤ s.length := by
  unfold endTag
  split
  · simp
  · simp
  · rename_i c t _
    have h₁ := dropWhile_length isTagNamePart (c :: t)
    split
    · dsimp only
      split
      · simp
      · rename_i h; have := attributes_length h; simp at h₁ ⊢; omega
    · exact upTo_length ['>'] (c :: t)

theorem markup_length (s : List Char) : (markup s).2.length ≤ s.length := by
  unfold markup
  split
  · rename_i t; have := endTag_length t; simp; omega
  · rename_i t; have := comment_length t; simp; omega
  · rename_i t _; have := upTo_length ['>'] t; simp [bogusComment]; omega
  · rename_i t; exact upTo_length ['>'] ('?' :: t)
  · split
    · exact startTag_length _
    · simp
  · simp

/-- The tokens of HTML. -/
def tokens (s : List Char) : List Token :=
  match s with
  | [] => []
  | c :: rest =>
    if c = '<' then
      have := markup_length rest
      (markup rest).1 ++ tokens (markup rest).2
    else
      have := dropWhile_length (· != '<') rest
      .text (resolve false 0 (c :: rest.takeWhile (· != '<'))) :: tokens (rest.dropWhile (· != '<'))
termination_by s.length
decreasing_by all_goals (simp; omega)

end DeltaPreview.Html
