import DeltaPreview.Delta.Summary
import DeltaPreview.Proofs.Compile.Shape
import DeltaPreview.Proofs.Preview.Total

/-!
# The status line and the preview

The preview is the sign that there is no document exactly for a value without a list of operations, and no
document of operations has such a sign anywhere in its preview (`present_of_compile`).  The status line
calls null alone no document.  So the two agree on null and on every value with a list of operations, and
contradict each other on all others: an object without such a list has a status line that says that it is
rendered, over a preview that says that there is nothing (`Summary.ofJson_compiled`).
-/

namespace DeltaPreview

namespace Node

/-- A node that is no sign of a missing document and holds none. -/
def Present : Node → Prop
  | empty _ _ => False
  | align _ child => child.Present
  | _ => True

theorem Canonical.present {node : Node} (h : node.Canonical) : node.Present := by
  induction node with
  | empty => exact h
  | align alignment child ih => exact ih h.2
  | _ => trivial

theorem not_present_noContent : ¬ noContent.Present := id

end Node

namespace Compiler

variable {c : Compiler} {v : Json} {nodes : List Node}

/-- A document of operations is never shown as missing. -/
theorem present_of_compile {doc : Document} (h : c.compile doc = .ok nodes) :
    ∀ node ∈ nodes, node.Present := by
  obtain ⟨-, rfl⟩ := compile_eq_ok_iff.mp h
  intro node hnode
  exact (Insertion.canonical_grouped _ node hnode).1.present

/-- A value is compiled as the document of its operations, or it has none and there is no content. -/
theorem compileJson_cases (h : c.compileJson v = .ok nodes) :
    (∃ members ops doc, v = .object members ∧ v.get? "ops" = some (.array ops) ∧
        Document.ofOps ops members = .ok doc ∧ c.compile doc = .ok nodes) ∨
      (∀ ops, v.get? "ops" ≠ some (.array ops)) ∧ nodes = [Node.noContent] := by
  by_cases hops : ∃ ops, v.get? "ops" = some (.array ops)
  · obtain ⟨ops, hops⟩ := hops
    cases v with
    | object members =>
      unfold compileJson at h
      rw [hops] at h
      obtain ⟨doc, hdoc, hnodes⟩ := bind_eq_ok.mp h
      exact .inl ⟨members, ops, doc, rfl, hops, hdoc, hnodes⟩
    | _ => cases hops
  · unfold compileJson at h
    split at h
    next ops hlist => exact absurd ⟨ops, hlist⟩ hops
    next => exact .inr ⟨fun ops hlist => hops ⟨ops, hlist⟩, (Except.ok.inj h).symm⟩

end Compiler

/-- The operations of a document are those of the list, each read by itself. -/
theorem Document.length_ops {ops : List Json} {members : List (Text × Json)} {doc : Document}
    (h : ofOps ops members = .ok doc) : doc.ops.length = ops.length := by
  obtain ⟨os, hos, hrest⟩ := bind_eq_ok.mp h
  obtain ⟨extra, -, hreturn⟩ := bind_eq_ok.mp hrest
  cases hreturn
  exact (mapM_eq_ok.mp hos).length_eq.symm

namespace Summary

variable {v : Json}

theorem hasContent_eq_false_iff : (ofJson v).hasContent = false ↔ v = .null := by
  constructor
  · intro h
    unfold ofJson at h
    split at h
    · rfl
    · split at h <;> cases h
  · rintro rfl
    rfl

theorem opCount_of_ops {ops : List Json} (h : v.get? "ops" = some (.array ops)) :
    (ofJson v).opCount = ops.length := by
  unfold ofJson
  split
  · cases h
  · rw [h]

theorem opCount_of_no_ops (h : ∀ ops, v.get? "ops" ≠ some (.array ops)) : (ofJson v).opCount = 0 := by
  unfold ofJson
  split
  · rfl
  · split
    next ops hops => exact absurd hops (h ops)
    next => rfl

/-- What the status line and the preview say of a value that can be compiled.  The preview is the sign that
there is no document exactly if the value has no list of operations, and holds no such sign otherwise.  The
status line counts the operations that are compiled.  It says that there is no document for null only, so it
agrees with the preview exactly on null and on values with a list of operations. -/
theorem ofJson_compiled {c : Compiler} {nodes : List Node} (h : c.compileJson v = .ok nodes) :
    (nodes = [Node.noContent] ↔ ∀ ops, v.get? "ops" ≠ some (.array ops)) ∧
    ((∃ node ∈ nodes, ¬ node.Present) → nodes = [Node.noContent]) ∧
    ((∃ members ops doc, v = .object members ∧ v.get? "ops" = some (.array ops) ∧
        Document.ofOps ops members = .ok doc ∧ c.compile doc = .ok nodes ∧
        (ofJson v).opCount = doc.ops.length) ∨
      nodes = [Node.noContent] ∧ (ofJson v).opCount = 0) ∧
    ((ofJson v).hasContent = false ↔ v = .null) ∧
    (((ofJson v).hasContent = false ↔ nodes = [Node.noContent]) ↔
      v = .null ∨ ∃ ops, v.get? "ops" = some (.array ops)) := by
  rcases Compiler.compileJson_cases h with ⟨members, ops, doc, rfl, hops, hdoc, hnodes⟩ | ⟨hnone, rfl⟩
  · have hpresent := Compiler.present_of_compile hnodes
    have hcontent : nodes ≠ [Node.noContent] := by
      rintro rfl
      exact Node.not_present_noContent (hpresent _ List.mem_cons_self)
    have hcount : (ofJson (.object members)).opCount = doc.ops.length :=
      (opCount_of_ops hops).trans (Document.length_ops hdoc).symm
    refine ⟨⟨fun heq => absurd heq hcontent, fun hnone => absurd hops (hnone ops)⟩, ?_,
      .inl ⟨members, ops, doc, rfl, hops, hdoc, hnodes, hcount⟩, hasContent_eq_false_iff, ?_⟩
    · rintro ⟨node, hnode, habsent⟩
      exact absurd (hpresent node hnode) habsent
    · rw [hasContent_eq_false_iff]
      simp [hcontent, hops]
  · refine ⟨⟨fun _ => hnone, fun _ => rfl⟩, fun _ => rfl, .inr ⟨rfl, opCount_of_no_ops hnone⟩,
      hasContent_eq_false_iff, ?_⟩
    rw [hasContent_eq_false_iff]
    simp [hnone]

/-- A document of two operations, and an object without a list of operations: its status line says that it
is rendered. -/
theorem ofJson_compiled_sample :
    let c : Compiler := ⟨⟨fun source _ => .ok source, Text.ofString "#f00"⟩, true⟩
    let insertion := Json.object [("insert", .string "a")]
    let v := Json.object [("ops", .array [insertion, .object [("retain", .int 1)]])]
    let run := Inline.text "a" [] none
    c.compileJson v = .ok [.paragraph [run]] ∧ (ofJson v).opCount = 2 ∧
      ((ofJson v).hasContent = false ↔ [Node.paragraph [run]] = [Node.noContent]) ∧
      c.compileJson (.object []) = .ok [Node.noContent] ∧
      (ofJson (.object [])).statusText = "✓ Delta rendered" := by
  intro c insertion v run
  have hcompiled : c.compileJson v = .ok [.paragraph [run]] := by rfl
  have hmissing : c.compileJson (.object []) = .ok [Node.noContent] := by rfl
  obtain ⟨-, -, -, -, hagree⟩ := ofJson_compiled hcompiled
  exact ⟨hcompiled, rfl, hagree.mpr (.inr ⟨_, rfl⟩), hmissing, rfl⟩

end Summary

end DeltaPreview
