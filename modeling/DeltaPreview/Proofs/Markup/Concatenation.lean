import DeltaPreview.Proofs.Markup.Content
import DeltaPreview.Proofs.Markup.Locality
import Mathlib.Data.List.Induction

/-!
# Contents one after the other

Well-formed content before other content stands for the nodes of both (`Xml.content?_append`), with two
things to be seen to where the two meet.  The end of a marked section must not lie across the border
(`Xml.Crosses`): a text with it is refused.  And a carriage return before the border and a line feed
after it are one line end (`Xml.continued`).
-/

namespace DeltaPreview

namespace Xml

/-! ### The end of a marked section -/

/-- The end of a marked section lies across the border of two texts. -/
def Crosses (s t : List Char) : Prop :=
  ([']', ']'] <:+ s ∧ ['>'] <+: t) ∨ ([']'] <:+ s ∧ [']', '>'] <+: t)

instance (s t : List Char) : Decidable (Crosses s t) := by
  unfold Crosses
  infer_instance

/-- A section end in two texts lies in the one, in the other, or across their border. -/
theorem sectionEnd_append {s t : List Char} (h : "]]>".toList <:+: s ++ t) :
    "]]>".toList <:+: s ∨ "]]>".toList <:+: t ∨ Crosses s t := by
  induction s with
  | nil => exact .inr (.inl h)
  | cons c s ih =>
    rcases List.infix_cons_iff.mp h with hbegins | hinfix
    · change [']', ']', '>'] <+: c :: s ++ t at hbegins
      -- The mark begins with the first text: one, two or all three of its characters lie there.
      match s with
      | [] =>
        obtain ⟨rfl, ht⟩ := List.cons_prefix_cons.mp hbegins
        exact .inr (.inr (.inr ⟨List.suffix_refl _, ht⟩))
      | [d] =>
        obtain ⟨rfl, hrest⟩ := List.cons_prefix_cons.mp hbegins
        obtain ⟨rfl, ht⟩ := List.cons_prefix_cons.mp hrest
        exact .inr (.inr (.inl ⟨List.suffix_refl _, ht⟩))
      | d :: e :: s =>
        obtain ⟨rfl, hrest⟩ := List.cons_prefix_cons.mp hbegins
        obtain ⟨rfl, hlast⟩ := List.cons_prefix_cons.mp hrest
        obtain ⟨rfl, -⟩ := List.cons_prefix_cons.mp hlast
        exact .inl ⟨[], s, rfl⟩
    · rcases ih hinfix with hs | ht | hcrosses
      · exact .inl (List.infix_cons hs)
      · exact .inr (.inl ht)
      · refine .inr (.inr (hcrosses.imp ?_ ?_))
        · exact fun ⟨hs, ht⟩ => ⟨hs.trans (List.suffix_cons c s), ht⟩
        · exact fun ⟨hs, ht⟩ => ⟨hs.trans (List.suffix_cons c s), ht⟩

theorem sectionEnd_of_crosses {s t : List Char} (h : Crosses s t) : "]]>".toList <:+: s ++ t := by
  rcases h with ⟨⟨a, rfl⟩, ⟨b, rfl⟩⟩ | ⟨⟨a, rfl⟩, ⟨b, rfl⟩⟩
  · exact ⟨a, b, by simp⟩
  · exact ⟨a, b, by simp⟩

theorem not_crosses_nil (t : List Char) : ¬ Crosses [] t := by simp [Crosses]

theorem Crosses.of_prefix {s t u : List Char} (h : Crosses s t) (htu : t <+: u) : Crosses s u :=
  h.imp (fun ⟨hs, ht⟩ => ⟨hs, ht.trans htu⟩) fun ⟨hs, ht⟩ => ⟨hs, ht.trans htu⟩

theorem Crosses.of_suffix {s t u : List Char} (h : Crosses s u) (hst : s <:+ t) : Crosses t u :=
  h.imp (fun ⟨hs, hu⟩ => ⟨hs.trans hst, hu⟩) fun ⟨hs, hu⟩ => ⟨hs.trans hst, hu⟩

/-- The part of a section end that lies before a border ends the text there. -/
theorem crosses_iff_of_stop {s after tail : List Char} {c : Char} (hc : c ≠ ']')
    (hs : c :: tail <:+ s) (htail : tail <:+ after) (hafter : after <:+ s) (t : List Char) :
    Crosses s t ↔ Crosses after t := by
  have hword {w : List Char} (hw : c ∉ w) (h : w <:+ s) : w <:+ after := by
    rcases List.suffix_or_suffix_of_suffix h hs with hshort | hlong
    · rcases List.suffix_cons_iff.mp hshort with rfl | hshort
      · exact absurd List.mem_cons_self hw
      · exact hshort.trans htail
    · exact absurd (hlong.subset List.mem_cons_self) hw
  refine ⟨fun h => ?_, fun h => h.of_suffix hafter⟩
  exact h.imp (fun ⟨hs, ht⟩ => ⟨hword (by simp [hc]) hs, ht⟩) fun ⟨hs, ht⟩ =>
    ⟨hword (by simp [hc]) hs, ht⟩

end Xml

/-! ### Trees one after the other -/

namespace Markup

theorem pushAll_pushText (siblings nodes : List Markup) (t : List Char) :
    pushAll siblings (pushText nodes t) = pushText (pushAll siblings nodes) t := by
  unfold pushText
  by_cases ht : t.isEmpty = true
  · rw [if_pos ht, if_pos ht]
  rw [if_neg ht]
  split
  · -- The last of the nodes is a text, and so is the last of them all.
    rename_i last hlast
    obtain ⟨ms, rfl⟩ := List.getLast?_eq_some_iff.mp hlast
    rw [List.dropLast_concat, pushAll_concat, pushAll_concat, push, push, ← pushText_pushText]
    rfl
  · rw [pushAll_concat]
    rfl

/-- Nodes that were added to nothing can be added again. -/
theorem pushAll_pushAll (siblings nodes : List Markup) :
    pushAll siblings (pushAll [] nodes) = pushAll siblings nodes := by
  induction nodes using List.reverseRecOn with
  | nil => rfl
  | append_singleton nodes m ih =>
    rw [pushAll_concat, pushAll_concat, ← ih]
    cases m with
    | text t => exact pushAll_pushText _ _ t
    | element tag children => exact pushAll_concat _ _ _
    | comment t => exact pushAll_concat _ _ _
    | instruction target t => exact pushAll_concat _ _ _

end Markup

namespace Xml

open Markup

/-- The siblings inside some open elements, with other siblings before the outermost element. -/
def siblingsAfter (before : List Markup) (opened : List Frame) (siblings : List Markup) :
    List Markup :=
  if opened.isEmpty then pushAll before siblings else siblings

/-- Open elements with other siblings before the outermost one. -/
def framesAfter (before : List Markup) : List Frame → List Frame
  | [] => []
  | frame :: opened =>
    { frame with before := siblingsAfter before opened frame.before } :: framesAfter before opened

section After

variable (before : List Markup) (opened : List Frame) (siblings : List Markup)

theorem isEmpty_framesAfter : (framesAfter before opened).isEmpty = opened.isEmpty := by
  cases opened <;> rfl

theorem siblingsAfter_pushText (t : List Char) :
    siblingsAfter before opened (pushText siblings t) =
      pushText (siblingsAfter before opened siblings) t := by
  unfold siblingsAfter
  split
  · exact pushAll_pushText before siblings t
  · rfl

theorem siblingsAfter_concat {m : Markup} (hm : m.isText = false) :
    siblingsAfter before opened (siblings ++ [m]) = siblingsAfter before opened siblings ++ [m] := by
  unfold siblingsAfter
  split
  · rw [pushAll_concat]
    cases m with
    | text t => cases hm
    | _ => rfl
  · rfl

/-- What stands before the outermost element does not matter for the tree that is built. -/
theorem build?_after (scope : List Declared) (events : List Event) :
    build? (framesAfter before opened) (siblingsAfter before opened siblings) scope events =
      (build? opened siblings scope events).map (pushAll before) := by
  induction events generalizing opened siblings scope with
  | nil =>
    rw [build?, build?, isEmpty_framesAfter, siblingsAfter]
    split <;> rfl
  | cons event events ih =>
    cases event with
    | text t =>
      rw [build?, build?, ← ih, siblingsAfter_pushText]
    | comment t =>
      rw [build?, build?, ← ih, siblingsAfter_concat _ _ _ rfl]
    | instruction target t =>
      rw [build?, build?, ← ih, siblingsAfter_concat _ _ _ rfl]
    | start name attributes closed =>
      rw [build?, build?]
      cases tagIn? scope name attributes with
      | none => rfl
      | some found =>
        obtain ⟨tag, inner⟩ := found
        cases closed with
        | true =>
          simp only [if_true]
          rw [← ih, siblingsAfter_concat _ _ _ rfl]
        | false => exact ih (⟨name, tag, siblings, scope⟩ :: opened) [] inner
    | stop name =>
      cases opened with
      | nil => rfl
      | cons frame opened =>
        simp only [framesAfter, build?]
        split
        · rw [← ih, siblingsAfter_concat _ _ _ rfl]
          rfl
        · rfl

end After

/-- The scope around all the open elements. -/
def outerScope (scope : List Declared) : List Frame → List Declared
  | [] => scope
  | frame :: opened => outerScope frame.scope opened

/-- The events that complete a tree leave all elements closed. -/
theorem build?_complete {opened : List Frame} {siblings : List Markup} {scope : List Declared}
    {events : List Event} {nodes : List Markup}
    (h : build? opened siblings scope events = some nodes) (more : List Event) :
    build? opened siblings scope (events ++ more) =
      build? [] nodes (outerScope scope opened) more := by
  induction events generalizing opened siblings scope with
  | nil =>
    rw [build?] at h
    split at h
    · rename_i hempty
      rw [List.isEmpty_iff.mp hempty]
      cases h
      rfl
    · cases h
  | cons event events ih =>
    cases event with
    | text t => exact ih h
    | comment t => exact ih h
    | instruction target t => exact ih h
    | start name attributes closed =>
      rw [List.cons_append, build?]
      rw [build?] at h
      cases htag : tagIn? scope name attributes with
      | none =>
        rw [htag] at h
        cases h
      | some found =>
        rw [htag] at h
        cases closed
        · exact ih h
        · exact ih h
    | stop name =>
      cases opened with
      | nil => cases h
      | cons frame opened =>
        rw [build?] at h
        split at h
        · rename_i hname
          rw [List.cons_append, build?, if_pos hname, ih h, outerScope]
        · cases h

/-- The events of two trees, one after the other. -/
theorem build?_append {scope : List Declared} {events : List Event} {nodes : List Markup}
    (h : build? [] [] scope events = some nodes) (more : List Event) :
    build? [] [] scope (events ++ more) = (build? [] [] scope more).map (pushAll nodes) := by
  rw [build?_complete h, ← build?_after]
  rfl

/-! ### Events up to joined texts -/

/-- Two results of reading events that build the same nodes, wherever they are read. -/
def SameNodes (a b : Option (List Event)) : Prop :=
  ∀ opened siblings scope,
    a.bind (build? opened siblings scope) = b.bind (build? opened siblings scope)

theorem SameNodes.refl (a : Option (List Event)) : SameNodes a a := fun _ _ _ => rfl

/-- The same event before both. -/
theorem SameNodes.map_cons {a b : Option (List Event)} (h : SameNodes a b) (event : Event) :
    SameNodes (a.map (event :: ·)) (b.map (event :: ·)) := by
  intro opened siblings scope
  simp only [Option.bind_map, Function.comp_def]
  cases event with
  | text t => exact h _ _ _
  | comment t => exact h _ _ _
  | instruction target t => exact h _ _ _
  | start name attributes closed =>
    simp only [build?]
    cases tagIn? scope name attributes with
    | none => cases a <;> cases b <;> rfl
    | some found =>
      cases closed
      · exact h _ _ _
      · exact h _ _ _
  | stop name =>
    simp only [build?]
    cases opened with
    | nil => cases a <;> cases b <;> rfl
    | cons frame opened =>
      simp only
      split
      · exact h _ _ _
      · cases a <;> cases b <;> rfl

/-- A text in one piece or in two. -/
theorem sameNodes_text (a : Option (List Event)) (s t : List Char) :
    SameNodes (a.map (.text (s ++ t) :: ·)) (a.map fun events => .text s :: .text t :: events) := by
  intro opened siblings scope
  simp only [Option.bind_map, Function.comp_def, build?, pushText_pushText]

/-! ### The first event -/

theorem events?_of_none {s : List Char} (h : event? s = none) (hs : s ≠ []) : events? s = none := by
  have hne : s.isEmpty = false := by simpa using hs
  rw [events?.eq_def]
  simp only [hne, Bool.false_eq_true, if_false]
  split
  · rfl
  · rename_i hsome
    cases h.symm.trans hsome

/-- The first event does not depend on what follows the content, and neither does a section end that
lies across the end of the content; unless the event is a text up to the end. -/
theorem event?_append {s after : List Char} {event : Event} (h : event? s = some (event, after)) :
    (∀ rest, event? (s ++ rest) = some (event, after ++ rest) ∧
        (Crosses s rest ↔ Crosses after rest)) ∨
      (after = [] ∧ event = .text s ∧ IsRun s) := by
  match s with
  | [] => cases h
  | c :: s =>
    by_cases hlt : c = '<'
    · subst hlt
      obtain ⟨hcloses, happend⟩ := local_markup? _ _ _ h
      obtain ⟨d, hd, hstop⟩ := hcloses.trans (List.suffix_cons '<' s)
      exact .inl fun rest => ⟨happend rest, crosses_iff_of_stop hd hstop (List.suffix_refl _)
        ((List.suffix_cons d after).trans hstop) rest⟩
    by_cases hamp : c = '&'
    · subst hamp
      obtain ⟨⟨character, _⟩, hreference, hpair⟩ := Option.map_eq_some_iff.mp h
      cases hpair
      obtain ⟨hcloses, happend⟩ := local_reference? _ _ _ hreference
      obtain ⟨d, hd, hstop⟩ := hcloses.trans (List.suffix_cons '&' s)
      exact .inl fun rest => ⟨Option.map_eq_some_iff.mpr ⟨_, happend rest, rfl⟩,
        crosses_iff_of_stop hd hstop (List.suffix_refl _)
          ((List.suffix_cons d after).trans hstop) rest⟩
    have hc : isPlain c = true := by simp [isPlain, hlt, hamp]
    have hsplit := List.takeWhile_append_dropWhile (p := isPlain) (l := c :: s)
    rw [event?_plain hc] at h
    split at h
    · cases h
    · rename_i hnone
      cases h
      cases hafter : (c :: s).dropWhile isPlain with
      | nil =>
        have hrun : (c :: s).takeWhile isPlain = c :: s := by
          rwa [hafter, List.append_nil] at hsplit
        rw [hrun] at hnone
        refine .inr ⟨rfl, by rw [hrun], List.cons_ne_nil c s, ?_, ?_⟩
        · exact List.takeWhile_eq_self_iff.mp hrun
        · exact (upTo?_eq_none (by decide)).mp (by simpa using hnone)
      | cons d tail =>
        -- The run ends at the beginning of markup or of a reference, which is no bracket.
        have hd : d ≠ ']' := by
          rintro rfl
          have hnext := takeWhile_dropWhile (c :: s)
          rw [hafter] at hnext
          cases hnext
        have hstop : d :: tail <:+ c :: s := hafter ▸ List.dropWhile_suffix isPlain
        refine .inl fun rest =>
          ⟨?_, crosses_iff_of_stop hd hstop (List.suffix_cons d tail) hstop rest⟩
        have hlength : ((c :: s).takeWhile isPlain).length ≠ (c :: s).length := fun hlength => by
          have hsum := congrArg List.length hsplit
          rw [hafter, List.length_append, hlength] at hsum
          simp at hsum
        rw [List.cons_append, event?_plain hc, ← List.cons_append, List.takeWhile_append,
          List.dropWhile_append, if_neg hlength, if_neg hnone, hafter]
        rfl

/-- A run of plain characters with a section end in it is refused. -/
theorem events?_sectionEnd {s : List Char} (h : "]]>".toList <:+: s.takeWhile isPlain) :
    events? s = none := by
  cases s with
  | nil => exact absurd h (by decide)
  | cons c s =>
    have hc : isPlain c = true := by
      by_contra hc
      rw [List.takeWhile_cons_of_neg hc] at h
      exact absurd h (by decide)
    have hsome : (upTo? "]]>".toList ((c :: s).takeWhile isPlain)).isSome = true := by
      rw [Option.isSome_iff_ne_none]
      exact fun hnone => (upTo?_eq_none (by decide)).mp hnone h
    refine events?_of_none ?_ (List.cons_ne_nil c s)
    rw [event?_plain hc, if_pos hsome]

/-- A section end across a border lies in the run of plain characters there. -/
theorem Crosses.takeWhile {s t : List Char} (h : Crosses s t) : Crosses s (t.takeWhile isPlain) := by
  have hword {w : List Char} (hw : w.all isPlain = true) (ht : w <+: t) :
      w <+: t.takeWhile isPlain := by
    obtain ⟨u, rfl⟩ := ht
    rw [List.takeWhile_append_of_pos (List.all_eq_true.mp hw)]
    exact List.prefix_append w _
  exact h.imp (fun ⟨hs, ht⟩ => ⟨hs, hword (by decide) ht⟩) fun ⟨hs, ht⟩ => ⟨hs, hword (by decide) ht⟩

/-- A run before other content: the two runs that meet are read as one. -/
theorem sameNodes_run {s : List Char} (hs : IsRun s) (rest : List Char) :
    SameNodes (events? (s ++ rest))
      (if Crosses s rest then none else (events? rest).map (.text s :: ·)) := by
  let run := rest.takeWhile isPlain
  let after := rest.dropWhile isPlain
  have hsplit : run ++ after = rest := List.takeWhile_append_dropWhile
  have hafter : after.takeWhile isPlain = [] := takeWhile_dropWhile rest
  have hplain : ∀ c ∈ run, isPlain c = true := fun c hc => List.mem_takeWhile_imp hc
  have htake : (s ++ rest).takeWhile isPlain = s ++ run := List.takeWhile_append_of_pos hs.plain
  split
  · rename_i hcrosses
    have hend : "]]>".toList <:+: (s ++ rest).takeWhile isPlain := by
      rw [htake]
      exact sectionEnd_of_crosses hcrosses.takeWhile
    rw [events?_sectionEnd hend]
    exact .refl none
  rename_i hcrosses
  by_cases hend : "]]>".toList <:+: run
  · have hboth : "]]>".toList <:+: (s ++ rest).takeWhile isPlain := by
      rw [htake]
      exact hend.trans (List.suffix_append s run).isInfix
    rw [events?_sectionEnd hend, events?_sectionEnd hboth]
    exact .refl none
  · have hnoEnd : ¬ "]]>".toList <:+: s ++ run := fun h => by
      rcases sectionEnd_append h with h | h | h
      · exact hs.noEnd h
      · exact hend h
      · exact hcrosses (h.of_prefix (List.takeWhile_prefix isPlain))
    by_cases hrun : run = []
    · have hrest : rest.takeWhile isPlain = [] := hrun
      rw [events?_run hs hrest]
      exact .refl _
    · have hjoined : IsRun (s ++ run) :=
        ⟨by simp [hrun], List.forall_mem_append.mpr ⟨hs.plain, hplain⟩, hnoEnd⟩
      rw [← hsplit, ← List.append_assoc, events?_run hjoined hafter,
        events?_run ⟨hrun, hplain, hend⟩ hafter, Option.map_map]
      exact sameNodes_text _ s run

/-! ### Contents -/

/-- Content before other content: its events come first, unless a section end lies across the
border. -/
theorem sameNodes_append {s : List Char} {events : List Event} (h : events? s = some events)
    (rest : List Char) :
    SameNodes (events? (s ++ rest))
      (if Crosses s rest then none else (events? rest).map (events ++ ·)) := by
  fun_induction events? s generalizing events with
  | case1 s hs =>
    cases h
    rw [List.isEmpty_iff.mp hs, if_neg (not_crosses_nil rest)]
    simpa using .refl _
  | case2 => cases h
  | case3 s hs event after hevent _ ih =>
    obtain ⟨more, hmore, rfl⟩ := Option.map_eq_some_iff.mp h
    rcases event?_append hevent with hlocal | ⟨rfl, rfl, hrun⟩
    · obtain ⟨hfirst, hcrosses⟩ := hlocal rest
      have hsame := (ih hmore).map_cons event
      rw [apply_ite (Option.map _), Option.map_map] at hsame
      simp only [events?_of_event hfirst, hcrosses]
      exact hsame
    · have hend : events? [] = some [] := by
        rw [events?.eq_def]
        rfl
      obtain rfl : [] = more := Option.some.inj (hend.symm.trans hmore)
      exact sameNodes_run hrun rest

/-- A content that is read to its end, before more content. -/
theorem resume?_append {s : List Char} {nodes : List Markup} (h : resume? [] [] s = some nodes)
    (t : List Char) :
    resume? [] [] (s ++ t) =
      if Crosses s t then none else (resume? [] [] t).map (pushAll nodes) := by
  obtain ⟨events, hevents, hbuild⟩ := Option.bind_eq_some_iff.mp h
  have hread := sameNodes_append hevents t [] [] [reserved]
  rw [apply_ite (Option.bind · (build? [] [] [reserved])), Option.bind_map] at hread
  rw [resume?, hread]
  congr 1
  rw [resume?, Option.map_bind]
  congr 1
  funext more
  exact build?_append hbuild more

/-! ### Line ends -/

/-- A text after another one.  A line feed belongs to the carriage return before it. -/
def continued (before s : List Char) : List Char :=
  match s with
  | '\n' :: rest => if before.getLast? = some '\r' then rest else s
  | _ => s

/-- The text goes on as it is, or a carriage return meets a line feed. -/
theorem continued_cases (before s : List Char) :
    ((before.getLast? ≠ some '\r' ∨ s.head? ≠ some '\n') ∧ continued before s = s) ∨
      ∃ start rest, before = start ++ ['\r'] ∧ s = '\n' :: rest ∧ continued before s = rest := by
  unfold continued
  split
  · rename_i rest
    split
    · rename_i hlast
      obtain ⟨start, rfl⟩ := List.getLast?_eq_some_iff.mp hlast
      exact .inr ⟨start, rest, rfl, rfl, rfl⟩
    · rename_i hlast
      exact .inl ⟨.inl hlast, rfl⟩
  · rename_i hfeed
    refine .inl ⟨.inr fun hhead => ?_, rfl⟩
    obtain ⟨rest, rfl⟩ := List.head?_eq_some_iff.mp hhead
    exact hfeed rest rfl

theorem continued_of_seam {before s : List Char}
    (h : before.getLast? ≠ some '\r' ∨ s.head? ≠ some '\n') : continued before s = s := by
  rcases continued_cases before s with ⟨-, hsame⟩ | ⟨start, rest, rfl, rfl, -⟩
  · exact hsame
  · simp at h

theorem normalizeLines_continued (s t : List Char) :
    normalizeLines (s ++ t) = normalizeLines s ++ normalizeLines (continued s t) := by
  rcases continued_cases s t with ⟨hseam, hsame⟩ | ⟨start, rest, rfl, rfl, hrest⟩
  · rw [hsame, normalizeLines_append hseam]
  · have hreturn (after : List Char) :
        normalizeLines (start ++ '\r' :: after) =
          normalizeLines start ++ normalizeLines ('\r' :: after) :=
      normalizeLines_append (.inr (by simp))
    rw [hrest, List.append_assoc, List.singleton_append, hreturn, hreturn, List.append_assoc]
    rfl

theorem getLast?_normalizeLines (s : List Char) :
    (normalizeLines s).getLast? = s.getLast?.map fun c => if c = '\r' then '\n' else c := by
  fun_induction normalizeLines s with
  | case1 => rfl
  | case2 rest ih =>
    rw [List.getLast?_cons, ih]
    cases hlast : rest.getLast? <;> simp [List.getLast?_cons, hlast]
  | case3 rest _ ih =>
    rw [List.getLast?_cons, ih]
    cases hlast : rest.getLast? <;> simp [List.getLast?_cons, hlast]
  | case4 c rest _ hreturn ih =>
    rw [List.getLast?_cons, ih]
    have hc : c ≠ '\r' := hreturn
    cases hlast : rest.getLast? <;> simp [List.getLast?_cons, hlast, hc]

/-- A text ends in the same word, if it has no line end, when its line ends are normalised. -/
theorem suffix_normalizeLines {word : List Char} (hword : '\n' ∉ word ∧ '\r' ∉ word)
    {s : List Char} : word <:+ normalizeLines s ↔ word <:+ s := by
  induction word using List.reverseRecOn generalizing s with
  | nil => simp
  | append_singleton word c ih =>
    obtain ⟨⟨hfeed, hfeedc⟩, hreturn, hreturnc⟩ :
        ('\n' ∉ word ∧ '\n' ≠ c) ∧ '\r' ∉ word ∧ '\r' ≠ c := by
      simpa using hword
    have hconcat (start : List Char) :
        normalizeLines (start ++ [c]) = normalizeLines start ++ [c] := by
      have hone : normalizeLines [c] = [c] := normalizeLines_of_not_mem (by simpa using hreturnc)
      rw [normalizeLines_append (.inr (by simpa using hfeedc.symm)), hone]
    constructor
    · rintro ⟨start, hstart⟩
      have hlast := getLast?_normalizeLines s
      rw [← hstart, ← List.append_assoc, List.getLast?_concat] at hlast
      obtain ⟨d, hd, hdc⟩ := Option.map_eq_some_iff.mp hlast.symm
      split at hdc
      · exact absurd hdc hfeedc
      obtain rfl := hdc
      obtain ⟨front, rfl⟩ := List.getLast?_eq_some_iff.mp hd
      rw [hconcat, ← List.append_assoc] at hstart
      have hfront := (ih ⟨hfeed, hreturn⟩).mp ⟨start, List.append_cancel_right hstart⟩
      obtain ⟨more, rfl⟩ := hfront
      exact ⟨more, (List.append_assoc _ _ _).symm⟩
    · rintro ⟨start, rfl⟩
      obtain ⟨more, hmore⟩ := (ih ⟨hfeed, hreturn⟩).mpr (List.suffix_append start word)
      rw [← List.append_assoc, hconcat, ← hmore]
      exact ⟨more, (List.append_assoc _ _ _).symm⟩

/-- And a text begins with the same word. -/
theorem prefix_normalizeLines {word : List Char} (hword : '\n' ∉ word ∧ '\r' ∉ word)
    {s : List Char} : word <+: normalizeLines s ↔ word <+: s := by
  induction word generalizing s with
  | nil => simp
  | cons c word ih =>
    obtain ⟨⟨hfeedc, hfeed⟩, hreturnc, hreturn⟩ :
        ('\n' ≠ c ∧ '\n' ∉ word) ∧ '\r' ≠ c ∧ '\r' ∉ word := by
      simpa using hword
    -- As the function goes: the end, the two kinds of line ends, and any other character.
    fun_cases normalizeLines s with
    | case1 => rfl
    | case2 rest => simp [List.cons_prefix_cons, hfeedc.symm, hreturnc.symm]
    | case3 rest => simp [List.cons_prefix_cons, hfeedc.symm, hreturnc.symm]
    | case4 d rest => rw [List.cons_prefix_cons, List.cons_prefix_cons, ih ⟨hfeed, hreturn⟩]

/-- Normalising the line ends moves no section end across a border. -/
theorem crosses_normalizeLines (s t : List Char) :
    Crosses (normalizeLines s) (normalizeLines (continued s t)) ↔ Crosses s t := by
  have hnormal (t : List Char) : Crosses (normalizeLines s) (normalizeLines t) ↔ Crosses s t := by
    unfold Crosses
    rw [suffix_normalizeLines (by decide), suffix_normalizeLines (by decide),
      prefix_normalizeLines (by decide), prefix_normalizeLines (by decide)]
  rcases continued_cases s t with ⟨-, hsame⟩ | ⟨start, rest, rfl, rfl, hrest⟩
  · rw [hsame, hnormal]
  · -- The text before the border ends in a line end, not in a bracket.
    rw [hrest, hnormal]
    have hend (t : List Char) : ¬ Crosses (start ++ ['\r']) t := by
      rintro (⟨⟨front, hfront⟩, -⟩ | ⟨⟨front, hfront⟩, -⟩)
      · simpa using congrArg List.getLast? hfront
      · simpa using congrArg List.getLast? hfront
    simp [hend]

/-- Content after other content is well formed, unless a section end lies across the border. -/
theorem content?_append {s : List Char} {nodes : List Markup} (h : content? s = some nodes)
    (t : List Char) :
    content? (s ++ t) =
      if Crosses s t then none else (content? (continued s t)).map (pushAll nodes) := by
  have happend := resume?_append h (normalizeLines (continued s t))
  simp only [crosses_normalizeLines] at happend
  rw [← normalizeLines_continued] at happend
  exact happend

/-- A line feed less at the front leaves content well formed. -/
theorem isSome_content?_continued (before : List Char) {s : List Char}
    (h : (content? s).isSome = true) : (content? (continued before s)).isSome = true := by
  rcases continued_cases before s with ⟨-, hsame⟩ | ⟨start, rest, -, rfl, hrest⟩
  · rwa [hsame]
  · have hfeed : content? ['\n'] = some (pushAll [] [.text ['\n']]) :=
      content?_of_reads (reads_text ['\n'])
    have happend := content?_append hfeed rest
    rw [continued_of_seam (.inl (by decide)), List.singleton_append] at happend
    rw [happend] at h
    split at h
    · cases h
    · rw [hrest]
      simpa using h

/-- In the nodes of content no more texts can be joined. -/
theorem pushAll_of_content? {s : List Char} {nodes : List Markup} (h : content? s = some nodes) :
    pushAll [] nodes = nodes := by
  have hempty : content? [] = some [] := content?_of_reads (s := []) Reads.nil
  have happend := content?_append hempty s
  rw [if_neg (not_crosses_nil s), continued_of_seam (.inl (by decide)), List.nil_append, h] at happend
  exact (Option.some.inj happend).symm

end Xml

end DeltaPreview
