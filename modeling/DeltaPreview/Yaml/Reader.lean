import DeltaPreview.Yaml.Text

/-!
# Reading YAML nodes

A block collection is recognised by the column of its first entry: its entries stand in that column,
what belongs to an entry is indented further, and less indentation ends it.  An entry of a block
mapping begins with a key on one line and a colon.  Flow collections stand in brackets and know no
indentation.  The recursion is bounded by fuel, which `Node.read?` computes from the text: every
step that spends it has moved past a character, or is followed by one that does.
-/

namespace DeltaPreview.Yaml

/-- The longest distance from the beginning of a key to its colon. -/
def maxKeyLength : Nat := 1024

/-- Whether the key of an entry, begun at `start`, ends with the colon at the cursor. -/
def Cursor.endsKey (start : Cursor) (inFlow : Bool) (c : Cursor) : Bool :=
  c.isAt [':'] && (inFlow || c.gapAt 1) && c.line == start.line &&
    start.rest.length - c.rest.length ≤ maxKeyLength

/-! ### Names and tags -/

/-- A character of a name. -/
def isNameChar (c : Char) : Bool := c.isAlphanum || c == '-' || c == '_'

/-- A name, after its first character. -/
def name : Reader (List Char) := do
  forward 1
  let found ← takeWhile isNameChar
  let c ← get
  if !found.isEmpty && (c.gapAt 0 || c.isAt "?:,]\x7d%@`".toList) then return found else failure

/-- What a node can be tagged as. -/
inductive Tag where
  | scalar (kind : Kind)
  | sequence
  | mapping
  deriving DecidableEq, Repr

/-- The spellings of the tags, after two exclamation marks. -/
def tags : List (String × Tag) :=
  [("str", .scalar .text), ("int", .scalar .integer), ("float", .scalar .double),
    ("bool", .scalar .truth), ("null", .scalar .null), ("seq", .sequence), ("map", .mapping)]

/-- What tags have in front of them when they are written in full. -/
def tagPrefix : String := "tag:yaml.org,2002:"

/-- The tag at the cursor; a single exclamation mark asks for the kind that the spelling has. -/
def tag : Reader Tag := do
  let spelled ← takeWhile fun c => c != ' ' && !isBreak c
  let known (found : List Char) : Reader Tag :=
    match tags.lookup (String.ofList found) with
    | some m => return m
    | none => failure
  match spelled with
  | ['!'] => return .scalar .implicit
  | '!' :: '!' :: found => known found
  | '!' :: '<' :: uri =>
    if tagPrefix.toList.isPrefixOf uri && uri.getLast? = some '>' then
      known ((uri.drop tagPrefix.length).dropLast)
    else failure
  | _ => failure

/-- What stands in front of a node. -/
structure Properties where
  anchor : Option (List Char)
  tag : Option Tag

/-- No properties. -/
def Properties.none : Properties := ⟨.none, .none⟩

/-- Whether anything stands in front of a node. -/
def Properties.any (p : Properties) : Bool := p.anchor.isSome || p.tag.isSome

/-- A node with its properties: a tag must suit it, and a name must be new. -/
def Properties.apply (p : Properties) (node : Node) : Reader Node := do
  let tagged ← match p.tag, node with
    | .none, node => pure node
    | some (.scalar .implicit), .scalar _ text => pure (.scalar .implicit text)
    | some (.scalar .implicit), node => pure node
    | some (.scalar kind), .scalar _ text => pure (.scalar kind text)
    | some .sequence, .sequence items => pure (.sequence items)
    | some .mapping, .mapping entries => pure (.mapping entries)
    | _, _ => failure
  if let some name := p.anchor then
    if (← get).anchors.any (·.1 == name) then failure
    modify fun c => ⟨c.line, c.column, c.rest, (name, tagged) :: c.anchors⟩
  return tagged

/-- The node that an alias at the cursor stands for. -/
def aliased : Reader Node := do
  let found ← name
  match (← get).anchors.lookup found with
  | some node => return node
  | none => failure

/-- A scalar in quotes at the cursor. -/
def quoted (quote : Char) : Reader Node := do
  let fuel := (← get).rest.length
  forward 1
  let text ← if quote = '"' then doubleQuoted fuel [] else singleQuoted fuel []
  return .scalar .text text

/-- A property at the cursor in addition to others, if it is not one too many. -/
def property (mark : Char) (p : Properties) : Option (Reader Properties) :=
  if mark == '&' && p.anchor.isNone then
    some do
      let anchor ← name
      return ⟨anchor, p.tag⟩
  else if mark == '!' && p.tag.isNone then
    some do
      let t ← tag
      return ⟨p.anchor, t⟩
  else none

/-! ### Flow collections -/

/-- The next token inside a flow collection, which no document marker interrupts. -/
def flowToken : Reader Cursor := do
  let (c, _) ← nextToken
  if c.atDocumentEnd then failure
  set c
  return c

mutual

/-- What follows the properties of a node at the cursor: an alias, a flow collection or a scalar
that is no block scalar.  After properties there may be nothing. -/
def content (inFlow : Bool) (least : Nat) : Nat → Properties → Reader Node
  | 0, _ => failure
  | fuel + 1, properties => do
    let c ← get
    match c.peek 0 with
    | some '*' => if properties.any then properties.apply .empty else aliased
    | some '[' =>
      forward 1
      let items ← flowItems fuel []
      properties.apply (.sequence items)
    | some '\x7b' =>
      forward 1
      let entries ← flowEntries fuel []
      properties.apply (.mapping entries)
    | some '"' =>
      let node ← quoted '"'
      properties.apply node
    | some '\'' =>
      let node ← quoted '\''
      properties.apply node
    | _ =>
      if c.beginsPlain inFlow then
        let text ← plain inFlow least
        properties.apply (.scalar .implicit text)
      else if properties.any then properties.apply .empty
      else failure

/-- A node inside a flow collection. -/
def flowNode : Nat → Properties → Reader Node
  | 0, _ => failure
  | fuel + 1, properties => do
    let c ← flowToken
    match (c.peek 0).bind (property · properties) with
    | some more => flowNode fuel (← more)
    | none => content true 0 fuel properties

/-- The value of an entry of a flow collection, if a colon is next. -/
def flowValue : Nat → Reader Node
  | 0 => failure
  | fuel + 1 => do
    let c ← flowToken
    if c.isAt [':'] then
      forward 1
      let c ← flowToken
      if c.isAt [',', ']', '\x7d'] then return .empty else flowNode fuel .none
    else return .empty

/-- The items of a flow sequence up to its bracket.  A key with a value is a mapping of its own. -/
def flowItems : Nat → List Node → Reader (List Node)
  | 0, _ => failure
  | fuel + 1, items => do
    let start ← flowToken
    if start.isAt [']'] then
      forward 1
      return items
    let item ← do
      if start.isAt ['?'] then
        forward 1
        let c ← flowToken
        let key ← if c.isAt [':', ',', ']'] then pure Node.empty else flowNode fuel .none
        let value ← flowValue fuel
        pure (Node.mapping [(key, value)])
      else
        let node ← flowNode fuel .none
        let c ← flowToken
        if start.endsKey true c then
          let value ← flowValue fuel
          pure (Node.mapping [(node, value)])
        else pure node
    let c ← flowToken
    if c.isAt [','] then
      forward 1
      flowItems fuel (items ++ [item])
    else if c.isAt [']'] then flowItems fuel (items ++ [item])
    else failure

/-- The entries of a flow mapping up to its bracket. -/
def flowEntries : Nat → List (Node × Node) → Reader (List (Node × Node))
  | 0, _ => failure
  | fuel + 1, entries => do
    let start ← flowToken
    if start.isAt ['\x7d'] then
      forward 1
      return entries
    let entry ← do
      if start.isAt ['?'] then
        forward 1
        let c ← flowToken
        let key ← if c.isAt [':', ',', '\x7d'] then pure Node.empty else flowNode fuel .none
        let value ← flowValue fuel
        pure (key, value)
      else
        let key ← flowNode fuel .none
        let c ← flowToken
        if start.endsKey true c then
          let value ← flowValue fuel
          pure (key, value)
        else pure (key, Node.empty)
    let c ← flowToken
    if c.isAt [','] then
      forward 1
      flowEntries fuel (entries ++ [entry])
    else if c.isAt ['\x7d'] then flowEntries fuel (entries ++ [entry])
    else failure

end

/-! ### Block collections -/

/-- A node on one line that has no block structure. -/
def leaf (least : Nat) : Nat → Properties → Reader Node
  | 0, _ => failure
  | fuel + 1, properties => do
    let (c, fresh) ← nextToken
    if fresh && properties.any then properties.apply .empty
    else
      set c
      match (c.peek 0).bind (property · properties) with
      | some more => leaf least fuel (← more)
      | none => content false least fuel properties

/-- The key of an entry, whose first token is at the cursor, with its colon. -/
def blockKey (fuel least : Nat) : Reader Node := do
  let start ← get
  let key ← leaf least fuel .none
  let (c, _) ← nextToken
  if start.endsKey false c then
    set c
    forward 1
    return key
  else failure

/-- Where a node may stand that follows an indicator. -/
structure Place where
  /-- The least column of what belongs to the node. -/
  least : Nat
  /-- Whether a block collection may begin on the line of the indicator. -/
  opens : Bool
  /-- Whether the items of a sequence may stand one column further to the left. -/
  outdents : Bool

mutual

/-- The node that follows an indicator, or the empty node where nothing belongs to it. -/
def blockNode : Nat → Place → Properties → Reader Node
  | 0, _, _ => failure
  | fuel + 1, place, properties => do
    let (c, fresh) ← nextToken
    let onEdge := fresh && c.column + 1 == place.least
    if c.atDocumentEnd then properties.apply .empty
    else if onEdge && place.outdents && c.indicates '-' then
      set c
      let items ← blockItems fuel c.column []
      properties.apply (.sequence items)
    else if fresh && c.column < place.least && !(onEdge && c.isAt ['|', '>']) then
      properties.apply .empty
    else
      set c
      let opens := place.opens || fresh
      if c.indicates '-' || c.indicates '?' then
        if !opens then failure
        else if c.indicates '-' then
          let items ← blockItems fuel c.column []
          properties.apply (.sequence items)
        else
          let entries ← blockEntries fuel c.column []
          properties.apply (.mapping entries)
      else
        let key ← if opens then some <$> blockKey fuel place.least <|> pure none else pure none
        match key with
        | some key =>
          let value ← blockNode fuel ⟨c.column + 1, false, true⟩ .none
          let entries ← blockEntries fuel c.column [(key, value)]
          properties.apply (.mapping entries)
        | none => blockContent fuel place properties

/-- A node at the cursor that is no block collection, unless it begins on a line after its
properties. -/
def blockContent : Nat → Place → Properties → Reader Node
  | 0, _, _ => failure
  | fuel + 1, place, properties => do
    let c ← get
    match (c.peek 0).bind (property · properties) with
    | some more => blockNode fuel ⟨place.least, false, place.outdents⟩ (← more)
    | none =>
      if c.isAt ['|', '>'] then
        forward 1
        let text ← blockScalar (c.isAt ['>']) place.least
        properties.apply (.scalar .text text)
      else content false place.least fuel properties

/-- The items of a block sequence in a column, the first of which is at the cursor. -/
def blockItems : Nat → Nat → List Node → Reader (List Node)
  | 0, _, _ => failure
  | fuel + 1, column, items => do
    forward 1
    let item ← blockNode fuel ⟨column + 1, true, false⟩ .none
    let (c, fresh) ← nextToken
    if fresh && !c.atDocumentEnd && c.column == column && c.indicates '-' then
      set c
      blockItems fuel column (items ++ [item])
    else return items ++ [item]

/-- The entries of a block mapping in a column after those that are read. -/
def blockEntries : Nat → Nat → List (Node × Node) → Reader (List (Node × Node))
  | 0, _, _ => failure
  | fuel + 1, column, entries => do
    let (c, fresh) ← nextToken
    if c.atDocumentEnd || c.column < column then return entries
    else if c.column != column || !(fresh || entries.isEmpty) then failure
    else
      set c
      let entry ← do
        if c.indicates '?' then
          forward 1
          let key ← blockNode fuel ⟨column + 1, true, true⟩ .none
          let (after, fresh) ← nextToken
          if fresh && !after.atDocumentEnd && after.column == column && after.indicates ':' then
            set after
            forward 1
            let value ← blockNode fuel ⟨column + 1, true, true⟩ .none
            pure (key, value)
          else pure (key, Node.empty)
        else
          let key ← blockKey fuel (column + 1)
          let value ← blockNode fuel ⟨column + 1, false, true⟩ .none
          pure (key, value)
      blockEntries fuel column (entries ++ [entry])

end

/-! ### Documents -/

/-- Whether nothing is left of a line. -/
def Cursor.atLineEnd (c : Cursor) : Bool := (c.peek 0).all isBreak

/-- The number of a version, which must be one of those with major number one, and nothing after it
but a comment. -/
def version : Reader Unit := do
  let _ ← takeWhile (· == ' ')
  let major ← takeWhile isDigit
  if !(← get).isAt ['.'] then failure
  forward 1
  let minor ← takeWhile isDigit
  let c ← get
  if major.isEmpty || minor.isEmpty || numberOf 10 major != 1 then failure
  if !(c.isAt [' '] || c.atLineEnd) then failure
  let _ ← takeWhile (· == ' ')
  let c ← get
  if !(c.isAt ['#'] || c.atLineEnd) then failure
  let _ ← takeWhile (!isBreak ·)

/-- The lines of directives before the marker of a document: a version at most once, and any others.
`fuel` bounds their number. -/
def directives : Nat → Bool → Reader Unit
  | 0, _ => failure
  | fuel + 1, versioned => do
    let (c, _) ← nextToken
    if c.column == 0 && c.isAt ['%'] then
      set c
      forward 1
      let found ← takeWhile isNameChar
      let c ← get
      if found.isEmpty || !(c.isAt [' '] || c.atLineEnd) then failure
      let isVersion := found == "YAML".toList
      if isVersion && versioned then failure
      if isVersion then version
      let _ ← takeWhile (!isBreak ·)
      directives fuel (versioned || isVersion)
    else if c.isMarker "---" then return
    else failure

/-- Skips the markers that end a document; nothing may come after them.  `fuel` bounds their
number. -/
def documentEnd : Nat → Reader Unit
  | 0 => failure
  | fuel + 1 => do
    let (c, _) ← nextToken
    if c.rest.isEmpty then return
    else if c.isMarker "..." then
      set c
      forward 3
      documentEnd fuel
    else failure

/-- The only document of a text. -/
def document (fuel : Nat) : Reader Node := do
  let (c, _) ← nextToken
  if c.rest.isEmpty then return .empty
  else if c.isMarker "..." then failure
  else
    if c.column == 0 && c.isAt ['%'] then directives fuel false
    let (c, _) ← nextToken
    if c.isMarker "---" then
      set c
      forward 3
    let node ← blockNode fuel ⟨0, !c.isMarker "---", false⟩ .none
    documentEnd fuel
    return node

/-- The document of a text, if it is well formed. -/
def Node.read? (s : List Char) : Option Node :=
  if s.all isPrintable then
    (document (4 * s.length + 8) (Cursor.ofChars s)).map Prod.fst
  else none

end DeltaPreview.Yaml
