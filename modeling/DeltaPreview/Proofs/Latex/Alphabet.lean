import DeltaPreview.Proofs.Latex.Atoms

/-!
# The alphabets of letters

A font command sets the letters and numbers of its argument in its alphabet.  `Phrase.Letters` is the grammar
once more, together with the letters and numbers of a phrase in the order of the tree and with the font commands
around each of them.

In the tree of a formula a letter is set in the alphabet of the outermost of these commands
(`letters_of_tree`): a command writes its alphabet over that of a command inside of it.  So the innermost
command decides exactly if it names the same alphabet as the outermost one.  A letter outside of all font commands
has no alphabet, unless it is an operator name, which is upright by itself.
-/

namespace DeltaPreview

/-! ### Letters of trees -/

namespace Markup

mutual

/-- The elements of letters and numbers in a tree, in order. -/
def letters : Markup → List Markup
  | .element tag children =>
    if ["mi", "mn"].contains tag.name then [.element tag children] else allLetters children
  | _ => []

/-- The elements of letters and numbers in a sequence of nodes. -/
def allLetters : List Markup → List Markup
  | [] => []
  | m :: ms => letters m ++ allLetters ms

end

theorem letters_plain {name : String} (hname : ["mi", "mn"].contains name = false)
    (attributes : List (String × List Char)) (children : List Markup) :
    (plain name attributes children).letters = allLetters children := by
  rw [plain, letters, if_neg (by rw [Tag.plain, hname]; exact Bool.false_ne_true)]

end Markup

namespace Latex

/-- Whether a leaf is a letter or a number. -/
def Leaf.isLetter (l : Leaf) : Bool := l.kind == .identifier || l.kind == .number

/-- The letter or number that an atom is. -/
def Math.letter? : Math → Option Leaf
  | leaf l => if l.isLetter then some l else none
  | _ => none

namespace Math

/-- The letters and numbers of a sequence of formulas, in the order of the tree. -/
def letters (ms : List Math) : List Leaf := (allAtoms ms).filterMap letter?

@[simp] theorem letters_nil : letters [] = [] := rfl

@[simp] theorem letters_append (ms ns : List Math) : letters (ms ++ ns) = letters ms ++ letters ns := by
  rw [letters, allAtoms_append, List.filterMap_append]
  rfl

theorem letters_of_atoms {m : Math} {as : List Math} (hatoms : m.atoms = as) :
    letters [m] = as.filterMap letter? := by
  rw [letters, allAtoms, allAtoms, List.append_nil, hatoms]

theorem letters_fraction (line : Bool) (upper lower : List Math) :
    letters [fraction line (single upper) (single lower)] = letters upper ++ letters lower := by
  rw [letters_of_atoms rfl, atoms, atoms_single, atoms_single, List.filterMap_append]
  rfl

theorem letters_radical (index : Option (List Math)) (base : List Math) :
    letters [radical index base] = letters base ++ letters (index.getD []) := by
  rw [letters_of_atoms (atoms_radical index base), List.filterMap_append]
  rfl

theorem letters_accent (base : List Math) (mark : Char) :
    letters [accent (single base) (.operator [mark] .fixed)] = letters base := by
  rw [letters_of_atoms rfl, atoms, atoms_single, List.filterMap_append]
  exact List.append_nil _

theorem letters_fence (text : List Char) : (allAtoms (fence text)).filterMap letter? = [] := by
  cases text <;> rfl

theorem letters_fenced (left right : List Char) (ms : List Math) :
    letters [fenced left ms right] = letters ms := by
  rw [letters_of_atoms (atoms_fenced left right ms), List.filterMap_append, List.filterMap_append,
    letters_fence, letters_fence, List.nil_append, List.append_nil]
  rfl

theorem letters_formula (e : Environment) (rows : List (List (List Math))) :
    letters [e.formula rows] = (rowAtoms rows).filterMap letter? := by
  rw [letters_of_atoms (atoms_formula e rows), List.filterMap_append, List.filterMap_append,
    letters_fence, letters_fence, List.nil_append, List.append_nil]

theorem letter?_withVariant (v : Variant) (m : Math) :
    (m.withVariant v).letter? = m.letter?.map (Leaf.withVariant v) := by
  cases m with
  | leaf l =>
    have hsame : (l.withVariant v).isLetter = l.isLetter := rfl
    rw [withVariant, letter?, letter?, hsame]
    split <;> rfl
  | _ => rfl

theorem letters_withVariants (v : Variant) (ms : List Math) :
    letters (withVariants v ms) = (letters ms).map (Leaf.withVariant v) := by
  rw [letters, letters, allAtoms_withVariants, List.filterMap_map, List.map_filterMap]
  exact List.filterMap_congr fun m _ => letter?_withVariant v m

end Math

theorem Leaf.letters_markup (l : Leaf) :
    l.markup.letters = (Math.letter? (.leaf l)).toList.map Leaf.markup := by
  obtain ⟨kind, text, role, variant⟩ := l
  cases kind <;> rfl

section Letters

open DeltaPreview.Markup

variable (layout : Layout)

mutual

/-- The letters and numbers of a formula keep their order in its tree. -/
theorem letters_markup (m : Math) :
    (m.markup layout).letters = (m.atoms.filterMap Math.letter?).map Leaf.markup := by
  match m with
  | .leaf l =>
    rw [Math.markup, l.letters_markup, Math.atoms]
    cases h : Math.letter? (.leaf l) <;> simp [h]
  | .space width | .newline => rfl
  | .row children =>
    rw [Math.markup, letters_plain rfl, allLetters_markups children]
    rfl
  | .fraction _ numerator denominator =>
    simp [Math.markup, letters_plain, allLetters, letters_markup numerator,
      letters_markup denominator, Math.atoms]
  | .sqrt children =>
    rw [Math.markup, letters_plain rfl, allLetters_markups children]
    rfl
  | .root base index =>
    simp [Math.markup, letters_plain, allLetters, letters_markup base, letters_markup index,
      Math.atoms]
  | .accent base mark =>
    have hmark := mark.letters_markup
    cases h : Math.letter? (.leaf mark) <;>
      simp_all [Math.markup, letters_plain, allLetters, letters_markup base, Math.atoms]
  | .sub base lower =>
    cases h : takesLimits layout base <;>
      simp [Math.markup, h, letters_plain, allLetters, letters_markup base, letters_markup lower,
        Math.atoms]
  | .sup base upper =>
    cases h : takesLimits layout base <;>
      simp [Math.markup, h, letters_plain, allLetters, letters_markup base, letters_markup upper,
        Math.atoms]
  | .subsup base lower upper =>
    cases h : takesLimits layout base <;>
      simp [Math.markup, h, letters_plain, allLetters, letters_markup base, letters_markup lower,
        letters_markup upper, Math.atoms]
  | .table _ rows =>
    rw [Math.markup, letters_plain rfl, allLetters_rowMarkups rows]
    rfl

theorem allLetters_markups (ms : List Math) :
    allLetters (markups layout ms) = (Math.letters ms).map Leaf.markup := by
  match ms with
  | [] => rfl
  | m :: ms =>
    rw [markups, allLetters, letters_markup m, allLetters_markups ms, ← List.map_append,
      Math.letters, ← List.filterMap_append]
    rfl

theorem allLetters_cellMarkups (cells : List (List Math)) :
    allLetters (cellMarkups layout cells) =
      ((Math.cellAtoms cells).filterMap Math.letter?).map Leaf.markup := by
  match cells with
  | [] => rfl
  | cell :: cells =>
    rw [cellMarkups, allLetters, letters_plain rfl, allLetters_markups cell,
      allLetters_cellMarkups cells, ← List.map_append, Math.letters, ← List.filterMap_append]
    rfl

theorem allLetters_rowMarkups (rows : List (List (List Math))) :
    allLetters (rowMarkups layout rows) =
      ((Math.rowAtoms rows).filterMap Math.letter?).map Leaf.markup := by
  match rows with
  | [] => rfl
  | cells :: rows =>
    rw [rowMarkups, allLetters, letters_plain rfl, allLetters_cellMarkups cells,
      allLetters_rowMarkups rows, ← List.map_append, ← List.filterMap_append]
    rfl

end

end Letters

/-! ### Letters of sources -/

/-- A letter or a number of a source. -/
structure Letter where
  token : Token
  /-- What the token stands for outside of all font commands. -/
  leaf : Leaf
  /-- The alphabets of the font commands around the token, from the innermost on. -/
  fonts : List Variant
  deriving DecidableEq, Repr

namespace Letter

/-- A letter in the argument of a font command. -/
def inside (v : Variant) (l : Letter) : Letter := { l with fonts := l.fonts ++ [v] }

/-- The leaf of a letter that is set in an alphabet, or in its own if that is none. -/
def setIn (v : Option Variant) (l : Letter) : Leaf := { l.leaf with variant := v.or l.leaf.variant }

/-- The leaf of a letter that is set in the alphabet of the outermost font command around it. -/
def outermost (l : Letter) : Leaf := l.setIn l.fonts.getLast?

/-- The leaf of a letter that is set in the alphabet of the innermost font command around it. -/
def innermost (l : Letter) : Leaf := l.setIn l.fonts.head?

end Letter

/-- The letter that a token stands for, if its leaf is one. -/
def Token.letters (t : Token) (l : Leaf) : List Letter := if l.isLetter then [⟨t, l, []⟩] else []

/-- Letters of two scripts in the order of the tree: those of the subscript come first. -/
def inOrder (script : Token) (first second : List Letter) : List Letter :=
  if script = .subscript then first ++ second else second ++ first

theorem forall_mem_inOrder {P : Letter → Prop} {script : Token} {first second : List Letter} :
    (∀ l ∈ inOrder script first second, P l) ↔ (∀ l ∈ first, P l) ∧ ∀ l ∈ second, P l := by
  unfold inOrder
  split
  · exact List.forall_mem_append
  · exact List.forall_mem_append.trans and_comm

namespace Phrase

/-- A phrase stands at the beginning of some tokens and leaves the others, and has some letters.  The letters of
a scripts phrase are those of the scripts that it adds. -/
inductive Letters : Phrase → List Token → List Token → List Letter → Prop
  | sequenceEnd {stop : Token → Bool} : Letters (sequence stop []) [] [] []
  | sequenceStop {stop : Token → Bool} {t : Token} {ts : List Token} (hstop : stop t = true) :
      Letters (sequence stop []) (t :: ts) (t :: ts) []
  | sequenceScripts {stop : Token → Bool} {t : Token} {ts after after' rest : List Token}
      {ms more : List Math} {both : Scripts Math} {xs ys zs : List Letter} (hstop : stop t = false)
      (hscript : t.isScript = true) (hargument : Letters (argument ms) ts after xs)
      (hscripts : Letters (scripts (Scripts.none.add t ms) both) after after' ys)
      (hmore : Letters (sequence stop more) after' rest zs) :
      Letters (sequence stop (both.attach [] ++ more)) (t :: ts) rest (inOrder t xs ys ++ zs)
  | sequenceElement {stop : Token → Bool} {t : Token} {ts after after' rest : List Token}
      {base more : List Math} {both : Scripts Math} {xs ys zs : List Letter} (hstop : stop t = false)
      (hscript : t.isScript = false) (hbase : Letters (element t base) ts after xs)
      (hscripts : Letters (scripts Scripts.none both) after after' ys)
      (hmore : Letters (sequence stop more) after' rest zs) :
      Letters (sequence stop (both.attach base ++ more)) (t :: ts) rest (xs ++ ys ++ zs)
  | scriptsEnd {found : Scripts Math} {ts : List Token} (hend : ∀ t ∈ ts.head?, t.isScript = false) :
      Letters (scripts found found) ts ts []
  | scriptsMore {found all : Scripts Math} {t : Token} {ts after rest : List Token} {ms : List Math}
      {xs ys : List Letter} (hscript : t.isScript = true) (hsingle : found.double? t = none)
      (hargument : Letters (argument ms) ts after xs)
      (hmore : Letters (scripts (found.add t ms) all) after rest ys) :
      Letters (scripts found all) (t :: ts) rest (inOrder t xs ys)
  | argumentGroup {ms : List Math} {ts rest : List Token} {xs : List Letter}
      (hbody : Letters (sequence (stopAt .closeBrace) ms) ts (.closeBrace :: rest) xs) :
      Letters (argument ms) (.openBrace :: ts) rest xs
  | argumentElement {ms : List Math} {t : Token} {ts rest : List Token} {xs : List Letter}
      (hend : t.endsArgument = false) (hopen : t ≠ .openBrace)
      (helement : Letters (element t ms) ts rest xs) : Letters (argument ms) (t :: ts) rest xs
  | optionNone {ts : List Token} (hopen : ts.head? ≠ some .openBracket) :
      Letters (option none) ts ts []
  | optionSome {ms : List Math} {ts rest : List Token} {xs : List Letter}
      (hbody : Letters (sequence (stopAt .closeBracket) ms) ts (.closeBracket :: rest) xs) :
      Letters (option (some ms)) (.openBracket :: ts) rest xs
  | rowsEnd {environment : String} {cell : List Math} {ts rest : List Token} {xs : List Letter}
      (hcell : Letters (sequence (stopAtCell environment) cell) ts
        (.ending environment :: rest) xs) : Letters (rows environment [[cell]]) ts rest xs
  | rowsCell {environment : String} {cell : List Math} {more : List (List (List Math))}
      {ts after rest : List Token} {xs ys : List Letter}
      (hcell : Letters (sequence (stopAtCell environment) cell) ts (.separator :: after) xs)
      (hmore : Letters (rows environment more) after rest ys) :
      Letters (rows environment (consCell cell more)) ts rest (xs ++ ys)
  | rowsRow {environment : String} {cell : List Math} {more : List (List (List Math))}
      {ts after rest : List Token} {xs ys : List Letter}
      (hcell : Letters (sequence (stopAtCell environment) cell) ts (.newRow :: after) xs)
      (hmore : Letters (rows environment more) after rest ys) :
      Letters (rows environment ([cell] :: more)) ts rest (xs ++ ys)
  | leaf {t : Token} {kind : LeafKind} {text : Text} {role : LeafRole} {variant : Option Variant}
      {l : Leaf} {ts : List Token} (hmeaning : t.meaning = .leaf kind text role variant)
      (hleaf : leafOf kind text role variant = .ok (Math.leaf l)) :
      Letters (element t [.leaf l]) ts ts (t.letters l)
  | space {t : Token} {width : String} {ts : List Token} (hmeaning : t.meaning = .space width) :
      Letters (element t [.space width]) ts ts []
  | newline {t : Token} {ts : List Token} (hmeaning : t.meaning = .newline) :
      Letters (element t [.newline]) ts ts []
  | group {t : Token} {ms : List Math} {ts rest : List Token} {xs : List Letter}
      (hmeaning : t.meaning = .group)
      (hbody : Letters (sequence (stopAt .closeBrace) ms) ts (.closeBrace :: rest) xs) :
      Letters (element t [.row ms]) ts rest xs
  | fraction {t : Token} {numerator denominator : List Math} {ts after rest : List Token}
      {xs ys : List Letter} (hmeaning : t.meaning = .fraction)
      (hnumerator : Letters (argument numerator) ts after xs)
      (hdenominator : Letters (argument denominator) after rest ys) :
      Letters (element t [.fraction true (.single numerator) (.single denominator)]) ts rest
        (xs ++ ys)
  | binomial {t : Token} {upper lower : List Math} {ts after rest : List Token}
      {xs ys : List Letter} (hmeaning : t.meaning = .binomial)
      (hupper : Letters (argument upper) ts after xs)
      (hlower : Letters (argument lower) after rest ys) :
      Letters (element t [.fenced ['('] [.fraction false (.single upper) (.single lower)] [')']])
        ts rest (xs ++ ys)
  /-- The index stands after the base. -/
  | radical {t : Token} {index : Option (List Math)} {base : List Math}
      {ts after rest : List Token} {xs ys : List Letter} (hmeaning : t.meaning = .radical)
      (hindex : Letters (option index) ts after xs)
      (hbase : Letters (argument base) after rest ys) :
      Letters (element t [.radical index base]) ts rest (ys ++ xs)
  | accent {t : Token} {mark : Char} {base : List Math} {ts rest : List Token}
      {xs : List Letter} (hmeaning : t.meaning = .accent mark)
      (hbase : Letters (argument base) ts rest xs) :
      Letters (element t [.accent (.single base) (.operator [mark] .fixed)]) ts rest xs
  /-- What stands in the argument is in one more font command. -/
  | font {t : Token} {variant : Variant} {ms : List Math} {ts rest : List Token}
      {xs : List Letter} (hmeaning : t.meaning = .font variant)
      (hbody : Letters (argument ms) ts rest xs) :
      Letters (element t (Math.withVariants variant ms)) ts rest (xs.map (Letter.inside variant))
  | bigDelimiter {t d : Token} {text : List Char} {ts : List Token}
      (hmeaning : t.meaning = .bigDelimiter) (hdelimiter : d.delimiter? = some text) :
      Letters (element t [.leaf (.operator text .fixed)]) (d :: ts) ts []
  | delimiters {t l r : Token} {left right : List Char} {ms : List Math} {ts rest : List Token}
      {xs : List Letter} (hmeaning : t.meaning = .leftDelimiter)
      (hleft : l.delimiter? = some left)
      (hbody : Letters (sequence (stopAt (.word "right")) ms) ts (.word "right" :: r :: rest) xs)
      (hright : r.delimiter? = some right) :
      Letters (element t [.fenced left ms right]) (l :: ts) rest xs
  | environment {t : Token} {name : String} {e : Environment} {cells : List (List (List Math))}
      {ts after rest : List Token} {xs : List Letter} (hmeaning : t.meaning = .environment name)
      (hknown : environments.lookup name = some e) (hcolumns : Letters (columns name) ts after [])
      (hrows : Letters (rows name cells) after rest xs) :
      Letters (element t [e.formula cells]) ts rest xs
  /-- A column specification is not set. -/
  | columns {name : String} {ts rest : List Token} (htakes : Takes (columns name) ts rest) :
      Letters (columns name) ts rest []

end Phrase

/-! ### Letters in trees -/

namespace Scripts

/-- The letters and numbers of scripts, those of the subscript first. -/
def letters (s : Scripts Math) : List Leaf := s.atoms.filterMap Math.letter?

/-- Scripts that were found, and letters of those that are added to them.  If both were found, none is added. -/
def Completes (found all : Scripts Math) (added : List Leaf) : Prop :=
  (found.lower.isSome = true → found.upper.isSome = true → added = []) ∧
    all.letters = if found.upper.isSome then added ++ found.letters else found.letters ++ added

theorem letters_mk (lower upper : Option (List Math)) :
    letters ⟨lower, upper⟩ = Math.letters (lower.getD []) ++ Math.letters (upper.getD []) := by
  rw [letters, atoms, List.filterMap_append]
  rfl

theorem completes_self (found : Scripts Math) : found.Completes found [] := by
  refine ⟨fun _ _ => rfl, ?_⟩
  split <;> simp

theorem letters_attach (s : Scripts Math) (base : List Math) :
    Math.letters (s.attach base) = Math.letters base ++ s.letters := by
  rw [Math.letters, allAtoms_attach, List.filterMap_append]
  rfl

theorem Completes.letters_eq {all : Scripts Math} {added : List Leaf}
    (h : Scripts.none.Completes all added) : all.letters = added := h.2

end Scripts

namespace Phrase

/-- The letters of a phrase, as they are set. -/
def Shows : Phrase → List Letter → Prop
  | sequence _ ms, ls => Math.letters ms = ls.map Letter.outermost
  | scripts found all, ls => found.Completes all (ls.map Letter.outermost)
  | argument ms, ls => Math.letters ms = ls.map Letter.outermost
  | option ms, ls => Math.letters (ms.getD []) = ls.map Letter.outermost
  | rows _ cells, ls => (Math.rowAtoms cells).filterMap Math.letter? = ls.map Letter.outermost
  | element _ ms, ls => Math.letters ms = ls.map Letter.outermost
  | columns _, ls => ls = []

end Phrase

/-- A script goes in front of the others or after them. -/
theorem Scripts.completes_add {found all : Scripts Math} {t : Token} {ms : List Math}
    {first second : List Letter} (hsingle : found.double? t = Option.none)
    (hms : Math.letters ms = first.map Letter.outermost)
    (h : (found.add t ms).Completes all (second.map Letter.outermost)) :
    found.Completes all ((inOrder t first second).map Letter.outermost) := by
  obtain ⟨lower, upper⟩ := found
  obtain ⟨hfull, hall⟩ := h
  -- A second script of the same kind is an error, and after both kinds none follows.
  by_cases ht : t = .subscript
  · cases lower <;> cases upper <;>
      simp_all [double?, Scripts.add, Completes, inOrder, letters_mk]
  · cases lower <;> cases upper <;>
      simp_all [double?, Scripts.add, Completes, inOrder, letters_mk]

/-- Outside of font commands a letter is set as its token says. -/
theorem Token.shows_letters (t : Token) (l : Leaf) :
    Math.letters [.leaf l] = (t.letters l).map Letter.outermost := by
  rw [Math.letters_of_atoms rfl, Math.atoms, Token.letters]
  cases h : l.isLetter <;> simp [Math.letter?, h, Letter.outermost, Letter.setIn]

/-- Every phrase has letters, and they are set in the alphabets of the outermost font commands around them. -/
theorem Phrase.Takes.letters {p : Phrase} {ts rest : List Token} (h : p.Takes ts rest) :
    ∃ ls, p.Letters ts rest ls ∧ p.Shows ls := by
  induction h with
  | sequenceEnd => exact ⟨[], .sequenceEnd, rfl⟩
  | sequenceStop hstop => exact ⟨[], .sequenceStop hstop, rfl⟩
  | sequenceScripts hstop hscript _ _ _ iha ihs ihm =>
    obtain ⟨xs, hxs, hx⟩ := iha
    obtain ⟨ys, hys, hy⟩ := ihs
    obtain ⟨zs, hzs, hz⟩ := ihm
    refine ⟨_, .sequenceScripts hstop hscript hxs hys hzs, ?_⟩
    have hboth := (Scripts.completes_add (Scripts.double?_none _) hx hy).letters_eq
    rw [Shows, Math.letters_append, Scripts.letters_attach, hboth, hz, List.map_append]
    rfl
  | sequenceElement hstop hscript _ _ _ ihb ihs ihm =>
    obtain ⟨xs, hxs, hx⟩ := ihb
    obtain ⟨ys, hys, hy⟩ := ihs
    obtain ⟨zs, hzs, hz⟩ := ihm
    refine ⟨_, .sequenceElement hstop hscript hxs hys hzs, ?_⟩
    rw [Shows, Math.letters_append, Scripts.letters_attach, hx, hy.letters_eq, hz, List.map_append,
      List.map_append]
  | scriptsEnd hend => exact ⟨[], .scriptsEnd hend, Scripts.completes_self _⟩
  | scriptsMore hscript hsingle _ _ iha ihm =>
    obtain ⟨xs, hxs, hx⟩ := iha
    obtain ⟨ys, hys, hy⟩ := ihm
    exact ⟨_, .scriptsMore hscript hsingle hxs hys, Scripts.completes_add hsingle hx hy⟩
  | argumentGroup _ ih =>
    obtain ⟨xs, hxs, hx⟩ := ih
    exact ⟨xs, .argumentGroup hxs, hx⟩
  | argumentElement hend hopen _ ih =>
    obtain ⟨xs, hxs, hx⟩ := ih
    exact ⟨xs, .argumentElement hend hopen hxs, hx⟩
  | optionNone hopen => exact ⟨[], .optionNone hopen, rfl⟩
  | optionSome _ ih =>
    obtain ⟨xs, hxs, hx⟩ := ih
    exact ⟨xs, .optionSome hxs, hx⟩
  | rowsEnd _ ih =>
    obtain ⟨xs, hxs, hx⟩ := ih
    refine ⟨xs, .rowsEnd hxs, ?_⟩
    rw [Shows, Math.rowAtoms, Math.rowAtoms, Math.cellAtoms, Math.cellAtoms, List.append_nil,
      List.append_nil]
    exact hx
  | rowsCell _ _ ihc ihm =>
    obtain ⟨xs, hxs, hx⟩ := ihc
    obtain ⟨ys, hys, hy⟩ := ihm
    refine ⟨_, .rowsCell hxs hys, ?_⟩
    rw [Shows, Math.rowAtoms_consCell, List.filterMap_append, hy, List.map_append, ← hx]
    rfl
  | rowsRow _ _ ihc ihm =>
    obtain ⟨xs, hxs, hx⟩ := ihc
    obtain ⟨ys, hys, hy⟩ := ihm
    refine ⟨_, .rowsRow hxs hys, ?_⟩
    rw [Shows, Math.rowAtoms, Math.cellAtoms, Math.cellAtoms, List.append_nil,
      List.filterMap_append, hy, List.map_append, ← hx]
    rfl
  | leaf hmeaning hleaf =>
    obtain ⟨l, rfl⟩ := eq_leaf_of_leafOf hleaf
    exact ⟨_, .leaf hmeaning hleaf, Token.shows_letters _ l⟩
  | space hmeaning => exact ⟨[], .space hmeaning, rfl⟩
  | newline hmeaning => exact ⟨[], .newline hmeaning, rfl⟩
  | group hmeaning _ ih =>
    obtain ⟨xs, hxs, hx⟩ := ih
    exact ⟨xs, .group hmeaning hxs, (Math.letters_of_atoms rfl).trans hx⟩
  | fraction hmeaning _ _ ihn ihd =>
    obtain ⟨xs, hxs, hx⟩ := ihn
    obtain ⟨ys, hys, hy⟩ := ihd
    refine ⟨_, .fraction hmeaning hxs hys, ?_⟩
    rw [Shows, Math.letters_fraction, hx, hy, List.map_append]
  | binomial hmeaning _ _ ihu ihl =>
    obtain ⟨xs, hxs, hx⟩ := ihu
    obtain ⟨ys, hys, hy⟩ := ihl
    refine ⟨_, .binomial hmeaning hxs hys, ?_⟩
    rw [Shows, Math.letters_fenced, Math.letters_fraction, hx, hy, List.map_append]
  | radical hmeaning _ _ ihi ihb =>
    obtain ⟨xs, hxs, hx⟩ := ihi
    obtain ⟨ys, hys, hy⟩ := ihb
    refine ⟨_, .radical hmeaning hxs hys, ?_⟩
    rw [Shows, Math.letters_radical, hx, hy, List.map_append]
  | accent hmeaning _ ih =>
    obtain ⟨xs, hxs, hx⟩ := ih
    exact ⟨xs, .accent hmeaning hxs, (Math.letters_accent _ _).trans hx⟩
  | @font _ variant _ _ _ hmeaning _ ih =>
    obtain ⟨xs, hxs, hx⟩ := ih
    refine ⟨_, .font hmeaning hxs, ?_⟩
    -- The command is outside of those in its argument, so it decides.
    have hinside : ∀ l : Letter, (l.inside variant).outermost = l.outermost.withVariant variant := by
      intro l
      simp [Letter.inside, Letter.outermost, Letter.setIn, Leaf.withVariant]
    rw [Shows, Math.letters_withVariants, hx, List.map_map, List.map_map]
    exact List.map_congr_left fun l _ => (hinside l).symm
  | bigDelimiter hmeaning hdelimiter => exact ⟨[], .bigDelimiter hmeaning hdelimiter, rfl⟩
  | delimiters hmeaning hleft _ hright ih =>
    obtain ⟨xs, hxs, hx⟩ := ih
    exact ⟨xs, .delimiters hmeaning hleft hxs hright, (Math.letters_fenced _ _ _).trans hx⟩
  | environment hmeaning hknown _ _ ihc ihr =>
    obtain ⟨-, hcolumns, rfl⟩ := ihc
    obtain ⟨xs, hxs, hx⟩ := ihr
    exact ⟨xs, .environment hmeaning hknown hcolumns hxs, (Math.letters_formula _ _).trans hx⟩
  | columnsNone hnone => exact ⟨[], .columns (.columnsNone hnone), rfl⟩
  | columnsSome hbody => exact ⟨[], .columns (.columnsSome hbody), rfl⟩

/-! ### Alphabets of their own -/

/-- Whether a token is an operator name, which is set upright. -/
def Token.isOperatorName : Token → Bool
  | .text command _ _ => command == "operatorname" || command == "operatorname*"
  | _ => false

/-- The alphabet that a token has outside of font commands. -/
def Token.ownVariant (t : Token) : Option Variant := if t.isOperatorName then some .normal else none

namespace Meaning

/-- Whether a leaf has an alphabet. -/
def variant? : Meaning → Option Variant
  | leaf _ _ _ variant => variant
  | _ => none

theorem variant?_ofWord (name : String) : (ofWord name).variant? = none :=
  ofWord_cases (P := fun m => m.variant? = none) rfl (fun _ _ _ => rfl) (fun _ _ => rfl)
    (fun _ _ => rfl) (fun _ => rfl) (fun _ => rfl) (by decide)

theorem variant?_ofEscape (g : CodePoint) : (ofEscape g).variant? = none :=
  ofEscape_cases (P := fun m => m.variant? = none) rfl rfl (fun _ _ _ => rfl) fun _ _ _ => rfl

theorem variant?_ofGlyph (g : CodePoint) : (ofGlyph g).variant? = none :=
  ofGlyph_cases (P := fun m => m.variant? = none) rfl rfl rfl rfl fun _ _ _ => rfl

end Meaning

theorem Token.variant?_meaning (t : Token) : t.meaning.variant? = t.ownVariant := by
  cases t with
  | word name => exact Meaning.variant?_ofWord name
  | symbol g => exact Meaning.variant?_ofEscape g
  | text command gap body =>
    change (Meaning.ofTextCommand command body).variant? = _
    unfold Meaning.ofTextCommand
    split
    · rename_i hname
      rw [ownVariant, isOperatorName, if_pos (by simpa using hname)]
      rfl
    · rename_i hname
      rw [ownVariant, isOperatorName, if_neg (by simpa using hname)]
      rfl
  | glyph g => exact Meaning.variant?_ofGlyph g
  | _ => rfl

theorem variant_of_leafOf {kind : LeafKind} {text : Text} {role : LeafRole} {variant : Option Variant}
    {l : Leaf} (h : leafOf kind text role variant = .ok (Math.leaf l)) : l.variant = variant := by
  unfold leafOf at h
  split at h
  · cases h
  · cases h
    rfl

/-- The letters of a phrase have no alphabets but those of operator names. -/
theorem Phrase.Letters.ownVariant {p : Phrase} {ts rest : List Token} {ls : List Letter}
    (h : p.Letters ts rest ls) : ∀ l ∈ ls, l.leaf.variant = l.token.ownVariant := by
  induction h with
  | sequenceEnd | sequenceStop | scriptsEnd | optionNone | space | newline | bigDelimiter | columns =>
    rintro _ ⟨⟩
  | sequenceScripts _ _ _ _ _ iha ihs ihm =>
    exact List.forall_mem_append.mpr ⟨forall_mem_inOrder.mpr ⟨iha, ihs⟩, ihm⟩
  | sequenceElement _ _ _ _ _ ihb ihs ihm =>
    exact List.forall_mem_append.mpr ⟨List.forall_mem_append.mpr ⟨ihb, ihs⟩, ihm⟩
  | scriptsMore _ _ _ _ iha ihm => exact forall_mem_inOrder.mpr ⟨iha, ihm⟩
  | argumentGroup _ ih | argumentElement _ _ _ ih | optionSome _ ih | rowsEnd _ ih | group _ _ ih
  | accent _ _ ih | delimiters _ _ _ _ ih | environment _ _ _ _ _ ih => exact ih
  | rowsCell _ _ ih ih' | rowsRow _ _ ih ih' | fraction _ _ _ ih ih' | binomial _ _ _ ih ih' =>
    exact List.forall_mem_append.mpr ⟨ih, ih'⟩
  | radical _ _ _ ihi ihb => exact List.forall_mem_append.mpr ⟨ihb, ihi⟩
  | @leaf t _ _ _ _ l _ hmeaning hleaf =>
    intro letter hletter
    unfold Token.letters at hletter
    split at hletter
    · obtain rfl := List.mem_singleton.mp hletter
      have hvariant := t.variant?_meaning
      rw [hmeaning] at hvariant
      exact (variant_of_leafOf hleaf).trans hvariant
    · cases hletter
  | font _ _ ih => exact List.forall_mem_map.mpr ih

/-! ### Trees -/

theorem letters_wrap (layout : Layout) (ms : List Math) (source : List Char) :
    (wrap layout (markups layout ms) source).letters = (Math.letters ms).map Leaf.markup := by
  rw [← allLetters_markups layout ms]
  cases layout <;> simp [wrap, Markup.letters_plain, Markup.allLetters, Markup.letters]

theorem Variant.name_injective {v w : Variant} (h : v.name = w.name) : v = w := by
  cases v <;> cases w <;> first | rfl | exact absurd h (by decide)

theorem Variant.attributes_injective {v w : Option Variant}
    (h : Variant.attributes v = Variant.attributes w) : v = w := by
  cases v <;> cases w <;> simp_all [Variant.attributes]
  exact Variant.name_injective (String.toList_inj.mp h)

/-- The alphabet of a letter can be read off its element. -/
theorem Letter.markup_setIn_inj {l : Letter} {v w : Option Variant} :
    (l.setIn v).markup = (l.setIn w).markup ↔ v.or l.leaf.variant = w.or l.leaf.variant := by
  constructor
  · intro h
    have hattributes : (Variant.attributes (v.or l.leaf.variant)).map (fun a => Attribute.plain a.1 a.2) =
        (Variant.attributes (w.or l.leaf.variant)).map fun a => Attribute.plain a.1 a.2 := by
      simpa [setIn, Leaf.markup, Markup.plain, Tag.plain] using h
    refine Variant.attributes_injective ((List.map_inj_right fun a b hab => ?_).mp hattributes)
    obtain ⟨hname, hvalue⟩ : a.1 = b.1 ∧ a.2 = b.2 := by simpa [Attribute.plain] using hab
    exact Prod.ext hname hvalue
  · intro h
    rw [setIn, setIn, h]

/-- Two alphabets that are both there or both not set a letter alike exactly if they are the same. -/
theorem Letter.innermost_eq_outermost {l : Letter} :
    l.outermost.markup = l.innermost.markup ↔ l.fonts.head? = l.fonts.getLast? := by
  rw [outermost, innermost, markup_setIn_inj, eq_comm (a := l.fonts.head?)]
  cases hfonts : l.fonts with
  | nil => simp
  | cons v fonts => simp

/-- The letters and numbers of a tree, in order, are those of its source, each in the alphabet of the outermost
font command around it, and outside of all font commands in its own.  The innermost commands decide exactly if
they name the same alphabets as the outermost ones. -/
theorem letters_of_tree {layout : Layout} {source : Text} {m : Markup}
    (h : tree layout source = .ok m) :
    ∃ ms ls, parse (tokenize source.trim) = .ok ms ∧
      (Phrase.sequence stopNever ms).Letters (tokenize source.trim) [] ls ∧
      (∀ l ∈ ls, l.leaf.variant = l.token.ownVariant) ∧
      m.letters = ls.map (fun l => l.outermost.markup) ∧
      (m.letters = ls.map (fun l => l.innermost.markup) ↔
        ∀ l ∈ ls, l.fonts.head? = l.fonts.getLast?) := by
  obtain ⟨ms, hms, -, rfl⟩ := tree_eq_ok_iff.mp h
  obtain ⟨ls, hls, hshows⟩ := (takes_of_parse hms).letters
  have hshows : Math.letters ms = ls.map Letter.outermost := hshows
  have houtermost : (wrap layout (markups layout ms) source.trim.chars).letters =
      ls.map fun l => l.outermost.markup := by
    rw [letters_wrap, hshows, List.map_map]
    rfl
  refine ⟨ms, ls, hms, hls, hls.ownVariant, houtermost, ?_⟩
  rw [houtermost, List.map_inj_left]
  exact forall₂_congr fun l _ => Letter.innermost_eq_outermost

/-- A roman letter in a bold fraction, and a letter outside. -/
theorem letters_of_tree_sample :
    let source := Text.ofString "\\mathbf\x7b\\frac\x7b\\mathrm\x7bx\x7d\x7d2\x7dy"
    ∃ m, tree .inline source = .ok m ∧
      ∃ ms ls, parse (tokenize source.trim) = .ok ms ∧
        (Phrase.sequence stopNever ms).Letters (tokenize source.trim) [] ls ∧
        (∀ l ∈ ls, l.leaf.variant = l.token.ownVariant) ∧
        m.letters = ls.map (fun l => l.outermost.markup) ∧
        (m.letters = ls.map (fun l => l.innermost.markup) ↔
          ∀ l ∈ ls, l.fonts.head? = l.fonts.getLast?) := by
  intro source
  obtain ⟨m, hm⟩ : ∃ m, tree .inline source = .ok m := exists_of_toBool (by decide +kernel)
  exact ⟨m, hm, letters_of_tree hm⟩

/-- The roman letter becomes bold, too. -/
example : (tree .inline (Text.ofString "\\mathbf\x7b\\frac\x7b\\mathrm\x7bx\x7d\x7d2\x7dy")).toOption.map
    (fun m => m.letters.map fun letter => String.ofList (Xml.write letter)) =
      some ["<mi mathvariant=\"bold\">x</mi>", "<mn mathvariant=\"bold\">2</mn>", "<mi>y</mi>"] := by
  decide +kernel

end Latex

end DeltaPreview
