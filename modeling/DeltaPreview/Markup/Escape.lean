import DeltaPreview.Text.Basic

/-!
# Escaping text for markup

The characters that would begin markup are written as references; inside a quoted attribute value
the quotes are too.
-/

namespace DeltaPreview.Escape

/-- The reference that stands for a character of literal text. -/
def reference? : Char → Option String
  | '&' => some "&amp;"
  | '<' => some "&lt;"
  | '>' => some "&gt;"
  | _ => none

/-- The reference that stands for a character of a quoted value. -/
def quotedReference? : Char → Option String
  | '"' => some "&quot;"
  | '\'' => some "&#x27;"
  | c => reference? c

/-- A text with references in place of some of its characters. -/
def replace (reference? : Char → Option String) (t : Text) : Text :=
  t.flatMap fun g =>
    match g.toChar?.bind reference? with
    | some r => Text.ofString r
    | none => [g]

/-- Literal text as markup. -/
def text (t : Text) : Text := replace reference? t

/-- A quoted value as markup. -/
def quoted (t : Text) : Text := replace quotedReference? t

end DeltaPreview.Escape
