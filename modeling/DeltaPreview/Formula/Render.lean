import DeltaPreview.Formula.Segment
import DeltaPreview.Formula.Typesetter
import DeltaPreview.Markup.Escape
import DeltaPreview.Double.Print

/-!
# Rendering formulas

A typesetter turns the source of a formula into markup or fails.  A failure is shown in place of the
formula and never reaches the text around it.
-/

namespace DeltaPreview

namespace Formula

/-- What formulas are rendered with. -/
structure Renderer where
  typesetter : Typesetter
  /-- The colour of error messages for which none is given. -/
  errorColor : Text

/-- The markup that shows an error message, in the usual colour if none is given. -/
def errorFragment (usual : Text) (message : Text) (color : Option Text) : Text :=
  let color := match color with
    | some (g :: t) => g :: t
    | _ => usual
  Text.ofString "<span style=\"color: " ++ Escape.quoted color ++
    Text.ofString "; font-family: monospace;\">Error: " ++ Escape.text message ++
    Text.ofString "</span>"

/-- The markup of a formula, or the failure of the typesetter. -/
def typeset (typesetter : Typesetter) (layout : Layout) (source : Text) :
    Except TypesetFailure Text :=
  typesetter source.trim layout

/-- The markup of a formula; a failure is shown as an error message. -/
def render (r : Renderer) (layout : Layout) (color : Option Text) (source : Text) : Text :=
  match typeset r.typesetter layout source with
  | .ok markup => markup
  | .error failure => errorFragment r.errorColor failure.detail color

/-- The markup of a segment of a text. -/
def renderSegment (r : Renderer) : Segment → Text
  | .literal t => Escape.text t
  | .inline source => render r .inline none source
  | .block source => render r .display none source

/-- A text as markup, with its formulas rendered. -/
def renderText (r : Renderer) (t : Text) : Text := (Segment.split t).flatMap (renderSegment r)

/-- A formula in the line, in a font size if one other than zero is given. -/
def renderSized (r : Renderer) (size : Option Double) (source : Text) : Text :=
  let markup := render r .inline none source
  match size with
  | none => markup
  | some x =>
    if x.isZero then markup
    else Text.ofString "<span style=\"font-size: " ++ Text.ofChars x.compact ++
      Text.ofString "px !important;\">" ++ markup ++ Text.ofString "</span>"

end Formula

end DeltaPreview
