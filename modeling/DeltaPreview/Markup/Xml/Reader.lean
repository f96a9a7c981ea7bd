import DeltaPreview.Markup.Basic
import DeltaPreview.Markup.Xml.Event
import DeltaPreview.Markup.Xml.Uri

/-!
# Reading XML content

The events of XML content nest into a tree: every end tag closes the innermost open element, under
the same name.  Prefixes of names must be declared; a declaration of a namespace that an outer
element declares already is left out, and its prefix becomes that of the outer one.
-/

namespace DeltaPreview.Xml

/-- A declared namespace: the prefix as it is written, the name of the namespace, and the prefix
under which it was first declared. -/
structure Declared where
  written : List Char
  uri : List Char
  printed : List Char
  deriving DecidableEq, Repr

/-- The namespace that is declared in advance. -/
def reserved : Declared :=
  ⟨"xml".toList, "http://www.w3.org/XML/1998/namespace".toList, "xml".toList⟩

/-- A name and its prefix; the prefix is empty if there is none. -/
def splitName (name : List Char) : Option (List Char × List Char) :=
  match name.splitOn ':' with
  | [base] => some ([], base)
  | [pre, base] =>
    match pre, base with
    | _ :: _, c :: _ => if isNameStart c then some (pre, base) else none
    | _, _ => none
  | _ => none

/-- The namespace that a prefix stands for; without a prefix there need not be one. -/
def resolve? (scope : List Declared) (pre : List Char) : Option (Option Declared) :=
  match scope.find? (·.written == pre) with
  | some d => some (if d.uri.isEmpty then none else some d)
  | none => if pre.isEmpty then some none else none

/-- A name with the prefix under which its namespace was first declared. -/
def printedName (space : Option Declared) (base : List Char) : String :=
  match space with
  | none => String.ofList base
  | some d => String.ofList (if d.printed.isEmpty then base else d.printed ++ ':' :: base)

/-- The namespace of the declarations themselves. -/
def declaringUri : List Char := "http://www.w3.org/2000/xmlns/".toList

/-- The prefix and the namespace that an attribute declares, if it declares one. -/
def declaration? (a : List Char × List Char) : Option (List Char × List Char) :=
  match splitName a.1 with
  | some (pre, base) =>
    if pre == "xmlns".toList then some (base, a.2)
    else if pre.isEmpty && base == "xmlns".toList then some ([], a.2)
    else none
  | none => none

/-- Whether a namespace may be declared under a prefix.  Only one without a prefix may be nameless.
-/
def allowed (d : List Char × List Char) : Bool :=
  if d.1 == reserved.written then d.2 == reserved.uri
  else d.1 != "xmlns".toList && d.2 != reserved.uri && d.2 != declaringUri &&
    (d.1.isEmpty || !d.2.isEmpty) && isReference d.2

/-- The prefix under which a scope declares a namespace, unless a nearer declaration hides it. -/
def knownPrefix? (scope : List Declared) (uri : List Char) : Option (List Char) :=
  (scope.find? fun known => known.uri == uri &&
    (scope.find? (·.printed == known.printed)).all (·.uri == uri)).map (·.printed)

/-- A declared namespace in the scope of the outer elements. -/
def declareIn (scope : List Declared) (d : List Char × List Char) : Declared :=
  ⟨d.1, d.2, (knownPrefix? scope d.2).getD d.1⟩

/-- The namespace of an attribute and its name in it.  One without a prefix is in no namespace. -/
def expandedName? (scope : List Declared) (name : List Char) :
    Option (Option Declared × List Char) := do
  let (pre, base) ← splitName name
  if pre.isEmpty then return (none, base)
  else return (← resolve? scope pre, base)

/-- An attribute with its expanded name. -/
def attributeOf (space : Option Declared) (base value : List Char) : Attribute :=
  ⟨printedName space base, some value, space.isSome⟩

/-- The tag of a start event, and the scope inside the element.  No two attributes have the same name
in the same namespace. -/
def tagIn? (scope : List Declared) (name : List Char) (attributes : List (List Char × List Char)) :
    Option (Tag × List Declared) := do
  let declarations := attributes.filterMap declaration?
  if !declarations.all allowed then none
  let own := declarations.filter (·.1 != reserved.written)
  let kept := own.filter fun d => (knownPrefix? scope d.2).isNone
  let inner := own.map (declareIn scope) ++ scope
  let (pre, base) ← splitName name
  let space ← resolve? inner pre
  let ordinary := attributes.filter fun a => (declaration? a).isNone
  let names ← ordinary.mapM fun a => expandedName? inner a.1
  if ¬ (names.map fun n => (n.1.map Declared.uri, n.2)).Nodup then none
  let written := List.zipWith (fun n a => attributeOf n.1 n.2 a.2) names ordinary
  return (⟨printedName space base, space.isSome, kept, written⟩, inner)

/-- An open element: its name as it is written, its tag, the siblings before it, and the scope
around it. -/
structure Frame where
  name : List Char
  tag : Tag
  before : List Markup
  scope : List Declared

/-- The tree of some events, with the open elements, the siblings and the scope so far. -/
def build? (opened : List Frame) (siblings : List Markup) (scope : List Declared) :
    List Event → Option (List Markup)
  | [] => if opened.isEmpty then some siblings else none
  | .text t :: events => build? opened (Markup.pushText siblings t) scope events
  | .comment t :: events => build? opened (siblings ++ [.comment t]) scope events
  | .instruction target t :: events =>
    build? opened (siblings ++ [.instruction target t]) scope events
  | .start name attributes closed :: events =>
    match tagIn? scope name attributes with
    | none => none
    | some (tag, inner) =>
      if closed then build? opened (siblings ++ [.element tag []]) scope events
      else build? (⟨name, tag, siblings, scope⟩ :: opened) [] inner events
  | .stop name :: events =>
    match opened with
    | [] => none
    | frame :: opened =>
      if frame.name = name then
        build? opened (frame.before ++ [.element frame.tag siblings]) frame.scope events
      else none

/-- The nodes of XML content, if it is well formed. -/
def content? (s : List Char) : Option (List Markup) :=
  (events? (normalizeLines s)).bind (build? [] [] [reserved])

end DeltaPreview.Xml
