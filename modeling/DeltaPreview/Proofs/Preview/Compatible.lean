import DeltaPreview.Proofs.Markup.Clean
import DeltaPreview.Proofs.Preview.Rendering
import DeltaPreview.Proofs.Text.Trim

/-!
# Pages of characters that markup can hold

If the finished markup of some nodes is well formed, then their page has no character that markup cannot
hold, whatever stands in their texts, links and addresses.  Only what is written exactly as it is can be
refused, and then there is no page: the texts of an empty preview, and the sizes of an image
(`renderHtml_content`).
-/

namespace DeltaPreview

/-- A text that is XML content once the characters that no markup can hold are dropped. -/
def Text.IsContent (t : Text) : Prop := (Xml.content? t.compatible).isSome = true

instance (t : Text) : Decidable t.IsContent := inferInstanceAs (Decidable (_ = true))

/-- The finished markup of a run. -/
def Inline.markup? : Inline → Option Text
  | text _ _ _ => none
  | markup m _ => some m
  | lineBreak => none

namespace Node

/-- The finished markup of a node, at any depth. -/
def markups : Node → List Text
  | paragraph children => children.filterMap Inline.markup?
  | heading _ children => children.filterMap Inline.markup?
  | blockquote children => children.filterMap Inline.markup?
  | codeBlock children => children.filterMap Inline.markup?
  | list _ items => items.flatMap (·.filterMap Inline.markup?)
  | image _ => []
  | formula markup _ _ => [markup]
  | align _ child => child.markups
  | empty _ _ => []

end Node

/-! ### What is written as it is -/

/-- Something that is written exactly as it is. -/
inductive Exact where
  | text (t : Text)
  | number (n : Int)
  deriving DecidableEq, Repr

namespace Exact

/-- Texts without characters that markup cannot hold, and numbers that are not too long, can be written. -/
def Writable : Exact → Prop
  | text t => t.fitsMarkup = true
  | number n => n.natAbs < 10 ^ Json.maxDigits

instance : (x : Exact) → Decidable x.Writable
  | text t => inferInstanceAs (Decidable (t.fitsMarkup = true))
  | number n => inferInstanceAs (Decidable (n.natAbs < 10 ^ Json.maxDigits))

/-- Writes it, or says why it cannot be written. -/
def write : Exact → Except Unrenderable (List Char)
  | text t => t.toMarkup.mapError .refused
  | number n => Node.keptNumber n

theorem write_eq_ok_iff {x : Exact} : (∃ cs, x.write = .ok cs) ↔ x.Writable := by
  cases x with
  | text t =>
    constructor
    · rintro ⟨cs, hcs⟩
      exact (Text.toMarkup_eq_ok_iff.mp (mapError_eq_ok.mp hcs)).1
    · intro h
      exact ⟨_, mapError_eq_ok.mpr (Text.toMarkup_eq_ok_iff.mpr ⟨h, rfl⟩)⟩
  | number n =>
    by_cases h : n.natAbs < 10 ^ Json.maxDigits
    · exact iff_of_true ⟨_, Node.keptNumber_of_lt h⟩ h
    · refine iff_of_false ?_ h
      rintro ⟨cs, hcs⟩
      exact h (Node.lt_of_keptNumber hcs)

/-- The first of some things that cannot be written is what fails. -/
theorem mapM_write_refused {xs : List Exact} {x : Exact} (h : xs.find? (¬ ·.Writable) = some x) :
    ∃ reason, x.write = .error reason ∧ xs.mapM write = .error reason := by
  induction xs with
  | nil => cases h
  | cons y xs ih =>
    rw [List.mapM_cons]
    cases hy : y.write with
    | ok cs =>
      have hwritable := write_eq_ok_iff.mp ⟨cs, hy⟩
      rw [List.find?_cons_of_neg (by simpa using hwritable)] at h
      obtain ⟨reason, hx, hxs⟩ := ih h
      exact ⟨reason, hx, by rw [hxs]; rfl⟩
    | error reason =>
      have hrefused : ¬ y.Writable := by
        rw [← write_eq_ok_iff, hy]
        simp
      rw [List.find?_cons_of_pos (by simpa using hrefused)] at h
      cases h
      exact ⟨reason, hy, rfl⟩

end Exact

/-- What a node holds that is written exactly as it is, in order: the sizes of an image, and the texts of an
empty preview. -/
def Node.exact (settings : Settings) : Node → List Exact
  | image _ => [.number settings.image.width, .number settings.image.height]
  | align _ child => child.exact settings
  | empty message hint => [.text message, .text hint]
  | _ => []

/-! ### Trees -/

theorem Json.clean_intText (n : Int) : Clean (Json.intText n) := by
  refine clean_append.mpr ⟨?_, fun c hc => ?_⟩
  · split
    · exact clean_of_all (by decide)
    · exact clean_nil
  · have hdigit := Nat.isDigit_of_mem_toDigits (by decide) (by decide) hc
    have hword : (c.isAlphanum || c == '-') = true := by simp [Char.isAlphanum, hdigit]
    obtain ⟨hlow, hhigh⟩ := toNat_word hword
    simp [compatibleChar]
    omega

namespace Markup

theorem isClean_plain {name : String} {attributes : List (String × List Char)} {children : List Markup}
    (hname : name.toList.all compatibleChar = true)
    (hattributes : ∀ a ∈ attributes, a.1.toList.all compatibleChar = true ∧ Clean a.2)
    (hchildren : AllClean children) : (plain name attributes children).IsClean :=
  isClean_element.mpr ⟨Tag.isClean_plain hname hattributes, hchildren⟩

/-- An element without attributes. -/
theorem isClean_bare {name : String} {children : List Markup}
    (hname : name.toList.all compatibleChar = true) (hchildren : AllClean children) :
    (plain name [] children).IsClean :=
  isClean_plain hname (fun _ ha => absurd ha List.not_mem_nil) hchildren

/-- Fixed attributes can be checked. -/
theorem clean_fixed {attributes : List (String × List Char)}
    (h : (attributes.all fun a => a.1.toList.all compatibleChar && a.2.all compatibleChar) = true) :
    ∀ a ∈ attributes, a.1.toList.all compatibleChar = true ∧ Clean a.2 := by
  intro a ha
  obtain ⟨hname, hvalue⟩ := Bool.and_eq_true_iff.mp (List.all_eq_true.mp h a ha)
  exact ⟨hname, clean_of_all hvalue⟩

theorem isClean_wrapped {nodes : List Markup} (h : AllClean nodes) : (wrapped nodes).IsClean := by
  unfold wrapped
  split
  · exact isClean_bare (by decide) h
  · exact allClean_singleton.mp h
  · exact isClean_bare (by decide) h

/-- XML content stands for a clean node. -/
theorem ofText_content {t : Text} (h : t.IsContent) : ∃ m, ofText t = .ok m ∧ m.IsClean := by
  obtain ⟨nodes, hnodes⟩ := Option.isSome_iff_exists.mp h
  refine ⟨wrapped nodes, ?_, isClean_wrapped (Xml.clean_content? (clean_compatible t) hnodes)⟩
  rw [ofText, nodesOf, hnodes]
  rfl

end Markup

namespace Mark

theorem isClean_tag (m : Mark) (link : Option Text) : (m.tag link).IsClean := by
  cases m with
  | link =>
    refine Tag.isClean_plain (by decide) fun a ha => ?_
    simp only [List.mem_cons, List.not_mem_nil, or_false] at ha
    rcases ha with rfl | rfl | rfl
    · have hname : "href".toList.all compatibleChar = true := by decide
      exact ⟨hname, clean_compatible _⟩
    · exact ⟨by decide, clean_of_all (by decide)⟩
    · exact ⟨by decide, clean_of_all (by decide)⟩
  | _ => exact Tag.isClean_plain (by decide) fun _ ha => absurd ha List.not_mem_nil

theorem isClean_wrap (marks : List Mark) (link : Option Text) {node : Markup} (h : node.IsClean) :
    (wrap marks link node).IsClean := by
  induction marks generalizing node with
  | nil => exact h
  | cons m marks ih =>
    have hchildren := Markup.allClean_push Markup.allClean_nil h
    exact ih (Markup.isClean_element.mpr ⟨m.isClean_tag link, hchildren⟩)

end Mark

/-! ### Runs and blocks -/

namespace Inline

theorem markupNode_content {i : Inline} (h : ∀ t ∈ i.markup?, t.IsContent) :
    ∃ m, i.markupNode = .ok m ∧ m.IsClean := by
  cases i with
  | text t marks link =>
    exact ⟨_, rfl, Mark.isClean_wrap marks link (Markup.isClean_text.mpr (clean_compatible t))⟩
  | markup t marks =>
    obtain ⟨m, hm, hclean⟩ := Markup.ofText_content (h t rfl)
    exact ⟨Mark.wrap marks none m, map_eq_ok.mpr ⟨m, hm, rfl⟩, Mark.isClean_wrap marks none hclean⟩
  | lineBreak => exact ⟨_, rfl, Markup.isClean_bare (by decide) Markup.allClean_nil⟩

theorem markupNodes_content {children : List Inline}
    (h : ∀ t ∈ children.filterMap markup?, t.IsContent) :
    ∃ ms, markupNodes children = .ok ms ∧ Markup.AllClean ms := by
  obtain ⟨ms, hms, hclean⟩ := exists_mapM_eq_ok.mpr fun i hi =>
    markupNode_content fun t ht => h t (List.mem_filterMap.mpr ⟨i, hi, ht⟩)
  exact ⟨_, map_eq_ok.mpr ⟨ms, hms, rfl⟩,
    Markup.allClean_pushAll Markup.allClean_nil (Markup.allClean_iff.mpr hclean)⟩

end Inline

namespace Node

theorem block_content {name : String} (hname : name.toList.all compatibleChar = true)
    {children : List Inline} (h : ∀ t ∈ children.filterMap Inline.markup?, t.IsContent) :
    ∃ m, block name children = .ok m ∧ m.IsClean := by
  obtain ⟨ms, hms, hclean⟩ := Inline.markupNodes_content h
  exact ⟨_, mapError_eq_ok.mpr (map_eq_ok.mpr ⟨ms, hms, rfl⟩), Markup.isClean_bare hname hclean⟩

/-! ### Nodes -/

theorem agree_keptText (t : Text) :
    Agree (fun _ ms => Markup.AllClean ms) (Exact.write (.text t)) (keptText t) := by
  rw [Exact.write, keptText]
  cases htext : t.toMarkup with
  | error refusal => exact .error (Unrenderable.refused refusal)
  | ok cs =>
    obtain ⟨hfits, rfl⟩ := Text.toMarkup_eq_ok_iff.mp htext
    have hclean := clean_of_all (Text.fitsMarkup_iff.mp hfits).2
    have hkept := Markup.allClean_singleton.mpr (Markup.isClean_text.mpr hclean)
    exact .ok hkept

theorem agree_keptNumber (n : Int) :
    Agree (fun _ cs => Clean cs) (Exact.write (.number n)) (keptNumber n) := by
  rw [Exact.write, keptNumber]
  split
  · exact .error Unrenderable.tooManyDigits
  · exact .ok (Json.clean_intText n)

/-- Where nothing has to be written as it is, nothing fails. -/
theorem agree_nothing {x : Except Unrenderable Markup} (h : ∃ m, x = .ok m ∧ m.IsClean) :
    Agree (fun _ m => m.IsClean) (([] : List Exact).mapM Exact.write) x := by
  obtain ⟨m, rfl, hclean⟩ := h
  exact .ok hclean

theorem clean_imageAttributes (src alt : Text) {width height : List Char} (hwidth : Clean width)
    (hheight : Clean height) :
    ∀ a ∈ [("src", src.compatible), ("alt", alt.compatible), ("width", width), ("height", height)],
      a.1.toList.all compatibleChar = true ∧ Clean a.2 := by
  simp only [List.forall_mem_cons]
  exact ⟨⟨by decide, clean_compatible _⟩, ⟨by decide, clean_compatible _⟩, ⟨by decide, hwidth⟩,
    ⟨by decide, hheight⟩, fun _ ha => absurd ha List.not_mem_nil⟩

/-- The element of a node fails exactly as writing does what has to be written as it is, and otherwise is
clean. -/
theorem agree_element (settings : Settings) {node : Node} (h : ∀ t ∈ node.markups, t.IsContent) :
    Agree (fun _ m => m.IsClean) ((node.exact settings).mapM Exact.write) (element settings node) := by
  induction node with
  | paragraph children => exact agree_nothing (block_content (by decide) h)
  | heading level children => cases level <;> exact agree_nothing (block_content (by decide) h)
  | blockquote children => exact agree_nothing (block_content (by decide) h)
  | codeBlock children =>
    have hname : "code".toList.all compatibleChar = true := by decide
    obtain ⟨code, hcode, hclean⟩ := block_content hname h
    exact agree_nothing ⟨_, map_eq_ok.mpr ⟨code, hcode, rfl⟩,
      Markup.isClean_bare (by decide) (Markup.allClean_singleton.mpr hclean)⟩
  | list kind items =>
    have hname : "li".toList.all compatibleChar = true := by decide
    obtain ⟨ms, hms, hclean⟩ := exists_mapM_eq_ok.mpr fun item hitem =>
      block_content hname fun t ht => h t (List.mem_flatMap.mpr ⟨item, hitem, ht⟩)
    refine agree_nothing ⟨_, map_eq_ok.mpr ⟨ms, hms, rfl⟩,
      Markup.isClean_bare ?_ (Markup.allClean_iff.mpr hclean)⟩
    cases kind <;> decide
  | image src =>
    simp only [exact, element, List.mapM_cons, List.mapM_nil, bind_assoc, pure_bind]
    refine (agree_keptNumber settings.image.width).bind fun _ width hwidth => ?_
    refine (agree_keptNumber settings.image.height).bind fun _ height hheight => .ok ?_
    have hattributes := clean_imageAttributes src settings.image.alt hwidth hheight
    exact Markup.isClean_plain (by decide) hattributes Markup.allClean_nil
  | formula markup size marks =>
    obtain ⟨m, hm, hclean⟩ := Markup.ofText_content (h markup (List.mem_singleton.mpr rfl))
    have hwrap := Mark.isClean_wrap marks none hclean
    exact agree_nothing ⟨_, map_eq_ok.mpr ⟨m, mapError_eq_ok.mpr hm, rfl⟩,
      Markup.isClean_plain (by decide) (Markup.clean_fixed (by decide))
        (Markup.allClean_singleton.mpr hwrap)⟩
  | align alignment child ih =>
    refine (ih h).map_right fun _ m hclean =>
      Markup.isClean_plain (by decide) (Markup.clean_fixed ?_)
        (Markup.allClean_singleton.mpr hclean)
    cases alignment <;> decide
  | empty message hint =>
    simp only [exact, element, List.mapM_cons, List.mapM_nil, bind_assoc, pure_bind]
    refine (agree_keptText message).bind fun _ message hmessage => ?_
    refine (agree_keptText hint).bind fun _ hint hhint => .ok ?_
    have hmessage : (Markup.plain "p" [] message).IsClean :=
      Markup.isClean_bare (by decide) hmessage
    have hhint : (Markup.plain "p" [("class", "delta-empty-hint".toList)] hint).IsClean :=
      Markup.isClean_plain (by decide) (Markup.clean_fixed (by decide)) hhint
    refine Markup.isClean_plain (by decide) (Markup.clean_fixed (by decide)) ?_
    exact Markup.allClean_iff.mpr
      (List.forall_mem_cons.mpr ⟨hmessage, List.forall_mem_singleton.mpr hhint⟩)

/-- The elements of some nodes fail exactly as writing does what has to be written as it is. -/
theorem agree_elements (settings : Settings) {nodes : List Node}
    (h : ∀ t ∈ nodes.flatMap markups, t.IsContent) :
    Agree (fun _ ms => Markup.AllClean ms) ((nodes.flatMap (exact settings)).mapM Exact.write)
      (nodes.mapM (element settings)) := by
  induction nodes with
  | nil => exact .ok Markup.allClean_nil
  | cons node nodes ih =>
    rw [List.flatMap_cons] at h ⊢
    obtain ⟨hnode, hnodes⟩ := List.forall_mem_append.mp h
    rw [List.mapM_append, List.mapM_cons]
    refine (agree_element settings hnode).bind fun _ m hm => ?_
    refine (ih hnodes).bind fun _ ms hms => .ok ?_
    rw [Markup.AllClean]
    exact ⟨hm, hms⟩

end Node

/-! ### The page -/

theorem agree_renderHtml (settings : Settings) {nodes : List Node}
    (h : ∀ t ∈ nodes.flatMap Node.markups, t.IsContent) :
    Agree (fun _ html => Clean html) ((nodes.flatMap (Node.exact settings)).mapM Exact.write)
      (renderHtml settings nodes) := by
  have hpage : Agree (fun _ page => page.IsClean)
      ((nodes.flatMap (Node.exact settings)).mapM Exact.write) (previewElement settings nodes) :=
    (Node.agree_elements settings h).map_right fun _ _ hms =>
      Markup.isClean_plain (by decide) (Markup.clean_fixed (by decide)) hms
  exact hpage.map_right fun _ page hclean => Html.clean_write false page hclean

/-- Nodes with well-formed markup are rendered exactly if all can be written that has to be written as it is:
the texts of empty previews, if markup can hold their characters, and the sizes of images, if they have no
more digits than a number may be written with.  Then the page has no other characters than markup can hold.
Otherwise the first of these texts and sizes that cannot be written is what fails. -/
theorem renderHtml_content (settings : Settings) (nodes : List Node)
    (h : ∀ t ∈ nodes.flatMap Node.markups, t.IsContent) :
    ((∃ html, renderHtml settings nodes = .ok html) ↔
      ∀ x ∈ nodes.flatMap (Node.exact settings), x.Writable) ∧
    (∀ html, renderHtml settings nodes = .ok html → html.all compatibleChar = true) ∧
    ∀ x, (nodes.flatMap (Node.exact settings)).find? (¬ ·.Writable) = some x →
      ∃ reason, x.write = .error reason ∧ renderHtml settings nodes = .error reason := by
  have hagree := agree_renderHtml settings h
  refine ⟨?_, fun html hhtml => ?_, fun x hx => ?_⟩
  · rw [hagree.exists_ok_iff, exists_mapM_iff]
    simp only [Exact.write_eq_ok_iff]
  · obtain ⟨-, -, hclean⟩ := hagree.eq_ok hhtml
    exact List.all_eq_true.mpr hclean
  · obtain ⟨reason, hreason, hwrite⟩ := Exact.mapM_write_refused hx
    exact ⟨reason, hreason, hagree.eq_error hwrite⟩

/-- A control character, a surrogate and a non-character in texts, a link, an address and markup, and then
in an empty preview too; and an image whose width has a digit too many. -/
theorem renderHtml_content_sample :
    let raw : Text := [.char 'x', .char '\x01', .surrogate 5, .char '\uffff']
    let nodes : List Node := [
      .paragraph [.text raw [.link] (some raw), .markup (Text.ofString "<b>&#9;</b>" ++ raw) [.bold]],
      .align .center (.image raw), .list .bullet [[.text raw [] none]]]
    let hinted (hint : Text) : List Node := nodes ++ [.align .left (.empty (Text.ofString "m") hint)]
    let wide : Settings := ⟨Settings.default.formula, ⟨10 ^ Json.maxDigits, 300, raw⟩,
      Settings.default.logging⟩
    (∀ hint, ∀ t ∈ (hinted hint).flatMap Node.markups, t.IsContent) ∧
    (∃ html, renderHtml Settings.default (hinted (Text.ofString "h")) = .ok html ∧
      html.all compatibleChar = true) ∧
    renderHtml Settings.default (hinted raw) = .error (.refused (.surrogates 2 [5])) ∧
    renderHtml wide (hinted raw) = .error .tooManyDigits := by
  intro raw nodes hinted wide
  have hcontent : ∀ hint, ∀ t ∈ (hinted hint).flatMap Node.markups, t.IsContent := by
    intro hint
    have hmarkup : (Text.ofString "<b>&#9;</b>" ++ raw).IsContent := by decide +kernel
    exact List.forall_mem_singleton.mpr hmarkup
  refine ⟨hcontent, ?_, ?_, ?_⟩
  · obtain ⟨hrendered, hclean, -⟩ := renderHtml_content Settings.default _ (hcontent (Text.ofString "h"))
    obtain ⟨html, hhtml⟩ := hrendered.mpr (by decide +kernel)
    exact ⟨html, hhtml, hclean html hhtml⟩
  · obtain ⟨-, -, hrefused⟩ := renderHtml_content Settings.default _ (hcontent raw)
    obtain ⟨reason, hreason, hpage⟩ := hrefused (.text raw) (by decide +kernel)
    cases hreason
    exact hpage
  · obtain ⟨-, -, hrefused⟩ := renderHtml_content wide _ (hcontent raw)
    obtain ⟨reason, hreason, hpage⟩ := hrefused (.number (10 ^ Json.maxDigits)) (by decide +kernel)
    rw [Exact.write, Node.keptNumber_of_le (by decide +kernel)] at hreason
    cases hreason
    exact hpage

end DeltaPreview
