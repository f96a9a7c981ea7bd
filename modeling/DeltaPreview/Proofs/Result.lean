import Mathlib.Data.List.Forall2

/-!
# When a computation succeeds

A computation that may fail succeeds exactly if each of its steps does, and fails with its first step
that fails.  Two computations agree if they fail alike or have results that are related (`Agree`).
-/

namespace DeltaPreview

variable {α β ε δ : Type}

theorem bind_eq_ok {x : Except ε α} {f : α → Except ε β} {b : β} :
    (x >>= f) = .ok b ↔ ∃ a, x = .ok a ∧ f a = .ok b := by
  cases x <;> simp [bind, Except.bind]

theorem bind_eq_error {x : Except ε α} {f : α → Except ε β} {e : ε} :
    (x >>= f) = .error e ↔ x = .error e ∨ ∃ a, x = .ok a ∧ f a = .error e := by
  cases x <;> simp [bind, Except.bind]

theorem map_eq_ok {x : Except ε α} {f : α → β} {b : β} :
    x.map f = .ok b ↔ ∃ a, x = .ok a ∧ f a = b := by
  cases x <;> simp [Except.map]

theorem map_eq_error {x : Except ε α} {f : α → β} {e : ε} : x.map f = .error e ↔ x = .error e := by
  cases x <;> simp [Except.map]

theorem mapError_eq_ok {x : Except ε α} {f : ε → δ} {a : α} :
    x.mapError f = .ok a ↔ x = .ok a := by
  cases x <;> simp [Except.mapError]

theorem toOption_eq_some_iff {x : Except ε α} {a : α} : x.toOption = some a ↔ x = .ok a := by
  cases x <;> simp [Except.toOption]

/-- A lookup that succeeds finds an entry of the table. -/
theorem mem_of_lookup [BEq α] [LawfulBEq α] {table : List (α × β)} {a : α} {b : β}
    (h : table.lookup a = some b) : (a, b) ∈ table := by
  obtain ⟨before, after, rfl, -⟩ := List.lookup_eq_some_iff.mp h
  exact List.mem_append_right before List.mem_cons_self

theorem exists_of_toBool {x : Except ε α} (h : x.toBool = true) : ∃ a, x = .ok a := by
  cases x with
  | error e => cases h
  | ok a => exact ⟨a, rfl⟩

theorem mapM_eq_ok {f : α → Except ε β} {as : List α} {bs : List β} :
    as.mapM f = .ok bs ↔ List.Forall₂ (fun a b => f a = .ok b) as bs := by
  induction as generalizing bs with
  | nil => simp [pure, Except.pure, eq_comm]
  | cons a as ih =>
    rw [List.mapM_cons, bind_eq_ok, List.forall₂_cons_left_iff]
    refine exists_congr fun b => ?_
    constructor
    · rintro ⟨hb, htail⟩
      obtain ⟨bs', hbs', hcons⟩ := bind_eq_ok.mp htail
      cases hcons
      exact ⟨bs', hb, ih.mp hbs', rfl⟩
    · rintro ⟨bs', hb, hbs', rfl⟩
      exact ⟨hb, bind_eq_ok.mpr ⟨bs', ih.mpr hbs', rfl⟩⟩

theorem exists_of_mapM_eq_error {f : α → Except ε β} {as : List α} {e : ε} (h : as.mapM f = .error e) :
    ∃ a ∈ as, f a = .error e := by
  induction as with
  | nil => cases h
  | cons a as ih =>
    rw [List.mapM_cons] at h
    rcases bind_eq_error.mp h with ha | ⟨b, -, htail⟩
    · exact ⟨a, List.mem_cons_self, ha⟩
    · rcases bind_eq_error.mp htail with has | ⟨bs, -, hreturn⟩
      · obtain ⟨a', ha', h'⟩ := ih has
        exact ⟨a', List.mem_cons_of_mem _ ha', h'⟩
      · cases hreturn

/-- If every element of a list has a result that is as it should be, so has the list. -/
theorem mapM_forall₂ {f : α → Except ε β} {r : α → β → Prop} {as : List α}
    (h : ∀ a ∈ as, ∃ b, f a = .ok b ∧ r a b) : ∃ bs, as.mapM f = .ok bs ∧ List.Forall₂ r as bs := by
  induction as with
  | nil => exact ⟨[], rfl, .nil⟩
  | cons a as ih =>
    obtain ⟨b, hb, hr⟩ := h a List.mem_cons_self
    obtain ⟨bs, hbs, hrs⟩ := ih fun a ha => h a (List.mem_cons_of_mem _ ha)
    exact ⟨b :: bs, by rw [List.mapM_cons, hb, hbs]; rfl, .cons hr hrs⟩

/-- A list has results with a property exactly if each of its elements has one. -/
theorem exists_mapM_eq_ok {f : α → Except ε β} {p : β → Prop} {as : List α} :
    (∃ bs, as.mapM f = .ok bs ∧ ∀ b ∈ bs, p b) ↔ ∀ a ∈ as, ∃ b, f a = .ok b ∧ p b := by
  constructor
  · rintro ⟨bs, hbs, hp⟩
    have hall := mapM_eq_ok.mp hbs
    clear hbs
    induction hall with
    | nil => simp
    | @cons a b as bs hb _ ih =>
      rw [List.forall_mem_cons] at hp ⊢
      exact ⟨⟨b, hb, hp.1⟩, ih hp.2⟩
  · intro h
    obtain ⟨bs, hbs, hall⟩ := mapM_forall₂ h
    refine ⟨bs, hbs, ?_⟩
    clear hbs h
    induction hall with
    | nil => simp
    | cons hb _ ih => exact List.forall_mem_cons.mpr ⟨hb, ih⟩

theorem exists_mapM_iff {f : α → Except ε β} {as : List α} :
    (∃ bs, as.mapM f = .ok bs) ↔ ∀ a ∈ as, ∃ b, f a = .ok b := by
  simpa only [implies_true, and_true] using exists_mapM_eq_ok (f := f) (p := fun _ => True)

/-- Two computations that fail alike, or have results related by `r`. -/
inductive Agree (r : α → β → Prop) : Except ε α → Except ε β → Prop
  | error (e) : Agree r (.error e) (.error e)
  | ok {a b} : r a b → Agree r (.ok a) (.ok b)

namespace Agree

variable {r : α → β → Prop} {x : Except ε α} {y : Except ε β}

theorem mono {s : α → β → Prop} (h : Agree r x y) (hrs : ∀ a b, r a b → s a b) : Agree s x y := by
  cases h with
  | error e => exact .error e
  | ok hr => exact .ok (hrs _ _ hr)

theorem map {γ : Type} {s : γ → δ → Prop} {f : α → γ} {g : β → δ} (h : Agree r x y)
    (hfg : ∀ a b, r a b → s (f a) (g b)) : Agree s (x.map f) (y.map g) := by
  cases h with
  | error e => exact .error e
  | ok hr => exact .ok (hfg _ _ hr)

theorem eq_ok (h : Agree r x y) {b : β} (hy : y = .ok b) : ∃ a, x = .ok a ∧ r a b := by
  cases h with
  | error e => cases hy
  | ok hr =>
    cases hy
    exact ⟨_, rfl, hr⟩

theorem eq_error (h : Agree r x y) {e : ε} (hx : x = .error e) : y = .error e := by
  cases h with
  | error e =>
    cases hx
    rfl
  | ok hr => cases hx

theorem exists_ok_iff (h : Agree r x y) : (∃ b, y = .ok b) ↔ ∃ a, x = .ok a := by
  cases h <;> simp

theorem map_left {s : δ → β → Prop} {f : α → δ} (h : Agree r x y)
    (hf : ∀ a b, r a b → s (f a) b) : Agree s (x.map f) y := by
  cases h with
  | error e => exact .error e
  | ok hr => exact .ok (hf _ _ hr)

theorem map_right {s : α → δ → Prop} {g : β → δ} (h : Agree r x y)
    (hg : ∀ a b, r a b → s a (g b)) : Agree s x (y.map g) := by
  cases h with
  | error e => exact .error e
  | ok hr => exact .ok (hg _ _ hr)

/-- Computations that agree go on to agree if what they do with related results agrees. -/
theorem bind {γ : Type} {s : γ → δ → Prop} {f : α → Except ε γ} {g : β → Except ε δ}
    (h : Agree r x y) (hfg : ∀ a b, r a b → Agree s (f a) (g b)) : Agree s (x >>= f) (y >>= g) := by
  cases h with
  | error e => exact .error e
  | ok hr => exact hfg _ _ hr

end Agree

end DeltaPreview
