/-!
# Names of namespaces

A namespace is named by a reference to a resource: a scheme and a path, or a path alone, and then a
query and a fragment.  A path that begins with two slashes names an authority first.
-/

namespace DeltaPreview.Xml

/-- A character of the path of a reference, its slashes apart.  A percent sign begins a byte. -/
def isSegmentPart (c : Char) : Bool := c.isAlphanum || "-._~!$&'()*+,;=:@%".toList.contains c

/-- A digit of a byte in percent encoding. -/
def isHexDigit (c : Char) : Bool :=
  c.isDigit || ('a' ≤ c && c ≤ 'f') || ('A' ≤ c && c ≤ 'F')

/-- Whether two digits follow every percent sign. -/
def bytesComplete : List Char → Bool
  | [] => true
  | '%' :: a :: b :: rest => isHexDigit a && isHexDigit b && bytesComplete rest
  | c :: rest => c != '%' && bytesComplete rest

/-- The text before the first mark, and the text after it; without a mark the latter is empty. -/
def cutAt (mark : Char) (s : List Char) : List Char × List Char :=
  (s.takeWhile (· != mark), (s.dropWhile (· != mark)).drop 1)

/-- The end of an authority: nothing, or a colon and a number. -/
def endsAuthority : List Char → Bool
  | [] => true
  | ':' :: digits => !digits.isEmpty && digits.all Char.isDigit
  | _ => false

/-- A character of the name of a host. -/
def isHostPart (c : Char) : Bool := isSegmentPart c && c != ':' && c != '@'

/-- A host and the end of its authority.  An address between brackets is not looked into. -/
def isHost : List Char → Bool
  | '[' :: rest => rest.contains ']' && endsAuthority (cutAt ']' rest).2
  | s => endsAuthority (s.dropWhile isHostPart)

/-- An authority: a host, and before it perhaps a user. -/
def isAuthority (s : List Char) : Bool :=
  if s.contains '@' && (cutAt '@' s).1.all isSegmentPart then isHost (cutAt '@' s).2 else isHost s

/-- Segments of a path between slashes. -/
def isPath (s : List Char) : Bool := s.all fun c => c == '/' || isSegmentPart c

/-- A path, and before it perhaps an authority. -/
def isHierarchy : List Char → Bool
  | '/' :: '/' :: s => isAuthority (s.takeWhile (· != '/')) && isPath (s.dropWhile (· != '/'))
  | s => isPath s

/-- The name of a scheme. -/
def isScheme : List Char → Bool
  | [] => false
  | c :: rest => c.isAlpha && rest.all fun d => d.isAlphanum || "+-.".toList.contains d

/-- A reference without query and fragment.  Where no scheme comes first, there is no colon before
the first slash. -/
def isResource (s : List Char) : Bool :=
  let (first, rest) := cutAt ':' s
  (s.contains ':' && isScheme first && isHierarchy rest) ||
    (isHierarchy s && !(s.takeWhile (· != '/')).contains ':')

/-- A character of a query. -/
def isQueryPart (c : Char) : Bool := isSegmentPart c || c == '/' || c == '?'

/-- A character of a fragment. -/
def isFragmentPart (c : Char) : Bool := isQueryPart c || c == '[' || c == ']'

/-- Whether a text refers to a resource. -/
def isReference (s : List Char) : Bool :=
  let (whole, fragment) := cutAt '#' s
  let (resource, query) := cutAt '?' whole
  bytesComplete s && isResource resource && query.all isQueryPart && fragment.all isFragmentPart

end DeltaPreview.Xml
