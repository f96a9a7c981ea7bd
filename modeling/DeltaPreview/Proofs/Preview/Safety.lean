import DeltaPreview.Proofs.Preview.Compiled

/-!
# No markup but the renderer's own

Texts, links, image sources and formulas come from the user, and reach the page inside texts and inside
values, and so does the colour that is set for messages.  Whatever they contain, the page reads strictly as
the tags of its own tree, references and characters; the tags are in the vocabulary, and they nest:
`renderHtml_wellFormed`.
-/

namespace DeltaPreview

/-- The page of a document reads as the pieces of its tree: every `<` begins a start tag or an end tag
of an element that has been built, with just the attributes that belong there, so no value has ended
early.  All tags are in the vocabulary, and they nest, apart from the elements that cannot have content
and from list items without content, which have no end tag.  This is so whatever the settings are and
whatever colour messages have, though a page that shows images exists only if their sizes fit. -/
theorem renderHtml_wellFormed (settings : Settings) (color : Text) (expandInlineMath : Bool)
    (doc : Document) (h : doc.Convertible) :
    ∃ nodes, Compiler.compile ⟨⟨Latex.typesetter, color⟩, expandInlineMath⟩ doc = .ok nodes ∧
      ((∃ html, renderHtml settings nodes = .ok html) ↔
        (nodes.any Node.showsImage = true → settings.image.Fits)) ∧
      ∀ html, renderHtml settings nodes = .ok html →
        ∃ page, previewElement settings nodes = .ok page ∧
          Html.pieces? html = some (Html.pieces page) ∧
          (∀ p ∈ Html.pieces page, p.known = true) ∧
          Html.nested ["li"] [] (Html.pieces page) = true := by
  let c : Compiler := ⟨⟨Latex.typesetter, color⟩, expandInlineMath⟩
  obtain ⟨nodes, hcompile, hlegible, -, hpage⟩ :=
    h.exists_page (c := c) (fun d _ => d.legible rfl) settings
  have hexists := renderHtml_legible_iff settings hlegible
  refine ⟨nodes, hcompile, hexists, fun html hhtml => ?_⟩
  obtain ⟨page, hpage, hinner, -⟩ := hpage (hexists.mp ⟨html, hhtml⟩)
  obtain rfl := Except.ok.inj (hhtml.symm.trans (renderHtml_eq_ok hpage))
  refine ⟨page, hpage, Html.pieces?_page hinner.proper.plainTags,
    Html.pieces_known page hinner.proper, ?_⟩
  have := Html.nested_pieces page hinner.proper hinner.notItem [] []
  rwa [List.append_nil] at this

/-- A link and a text that try to begin a script, an image source that tries to end its value, and a
formula that cannot be set, whose message has a colour that tries to end its value. -/
theorem renderHtml_wellFormed_sample :
    let link := Json.ofMembers [("link", Json.ofString "\"><script>"), ("header", .int 1)]
    let object (name source : String) : Operation :=
      ⟨some (.embed [(Text.ofString name, Json.ofString source)]), none, none, none, []⟩
    let doc : Document := ⟨[⟨some (.text "<script>&"), none, none, some link, []⟩,
      object "image" "' onerror='x", object "formula" "\\frac\x7b<"], []⟩
    let color := Text.ofString "red\"><script>"
    doc.Convertible ∧ ∃ nodes html page,
      Compiler.compile ⟨⟨Latex.typesetter, color⟩, true⟩ doc = .ok nodes ∧
      renderHtml Settings.default nodes = .ok html ∧
      previewElement Settings.default nodes = .ok page ∧
      Html.pieces? html = some (Html.pieces page) ∧
      (∀ p ∈ Html.pieces page, p.known = true) ∧
      Html.nested ["li"] [] (Html.pieces page) = true := by
  intro link object doc color
  have convertible : doc.Convertible := by
    intro op hop _
    simp only [doc, List.mem_cons, List.not_mem_nil, or_false] at hop
    rcases hop with rfl | rfl | rfl <;> exact ⟨_, rfl⟩
  obtain ⟨nodes, hnodes, hexists, hpage⟩ :=
    renderHtml_wellFormed Settings.default color true doc convertible
  have hfits : Settings.default.image.Fits := ⟨by decide +kernel, by decide +kernel⟩
  obtain ⟨html, hhtml⟩ := hexists.mpr fun _ => hfits
  obtain ⟨page, hpage⟩ := hpage html hhtml
  exact ⟨convertible, nodes, html, page, hnodes, hhtml, hpage⟩

/-- A list item without content has no end tag, so not all tags that could have one are balanced. -/
theorem empty_item_stays_open :
    let bullet := Json.ofMembers [("list", Json.ofString "bullet")]
    let doc : Document := ⟨[⟨some (.text ""), none, none, some bullet, []⟩], []⟩
    doc.Convertible ∧ ∃ nodes html ps,
      Compiler.compile ⟨⟨Latex.typesetter, Text.ofString "#f00"⟩, true⟩ doc = .ok nodes ∧
      renderHtml Settings.default nodes = .ok html ∧
      html = "<div class=\"delta-preview\"><ul><li></ul></div>".toList ∧
      Html.pieces? html = some ps ∧ Html.nested [] [] ps = false := by
  intro bullet doc
  let page := Markup.plain "div" [("class", "delta-preview".toList)]
    [.plain "ul" [] [.plain "li" [] []]]
  have hitem : (Markup.plain "li" [] []).Proper :=
    Markup.proper_plain (by decide) (by simp) (by simp)
  have hlist : (Markup.plain "ul" [] [.plain "li" [] []]).Proper :=
    Markup.proper_plain (by decide) (by simpa using hitem) (by decide)
  have hpage : page.Proper :=
    Markup.proper_plain (by decide) (by simpa using hlist) (by decide)
  refine ⟨?_, _, _, Html.pieces page, rfl, rfl, by decide,
    Html.pieces?_page hpage.plainTags, by decide⟩
  intro op hop _
  simp only [doc, List.mem_cons, List.not_mem_nil, or_false] at hop
  exact ⟨_, by rw [hop]; rfl⟩

end DeltaPreview
