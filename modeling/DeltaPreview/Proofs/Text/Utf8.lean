import DeltaPreview.Proofs.Result
import DeltaPreview.Text.Compatible
import DeltaPreview.Text.Utf8
import Mathlib.Tactic.IntervalCases

/-!
# Decoding and encoding

Bytes are decoded exactly if they are the encoding of a text, and then to this text (`decode_eq_ok_iff`).
The state of the decoder is read as what may still follow it (`Means`), one byte at a time.
-/

namespace DeltaPreview.Utf8

/-- The bytes after the first one that carry the lowest bits of a number, six in each. -/
def continuation : Nat → Nat → List UInt8
  | 0, _ => []
  | n + 1, v => UInt8.ofNat (v / 64 ^ n % 64 + 0x80) :: continuation n v

/-- The number `v` has the bits that have been read, and its next six lie in the range. -/
structure Pending.Completes (p : Pending) (v : Nat) : Prop where
  bits : v / 64 ^ p.missing = p.value
  least : p.least.toNat ≤ v / 64 ^ (p.missing - 1) % 64 + 0x80
  greatest : v / 64 ^ (p.missing - 1) % 64 + 0x80 ≤ p.greatest.toNat

/-- The bytes encode the text, or what is missing of it after the beginning of a character. -/
def Means : Option Pending → List UInt8 → List Char → Prop
  | none, bytes, chars => bytes = encode chars
  | some p, bytes, chars => ∃ v cs, p.Completes v ∧
      bytes = continuation p.missing v ++ encode cs ∧ chars = Char.ofNat v :: cs

/-- Bytes are missing, and the next of them is one that continues a character. -/
structure Pending.Proper (p : Pending) : Prop where
  missing : 0 < p.missing
  least : 0x80 ≤ p.least.toNat
  greatest : p.greatest.toNat ≤ 0xBF

variable {position v : Nat} {b : UInt8} {bytes : List UInt8} {chars : List Char} {p : Pending}

theorem encode_cons (c : Char) (cs : List Char) :
    encode (c :: cs) = String.utf8EncodeChar c ++ encode cs := List.flatMap_cons

/-! ### Bytes that continue a character -/

theorem continues_iff (hp : p.Proper) {w : Nat} :
    (w / 64 = p.value ∧ b = UInt8.ofNat (w % 64 + 0x80)) ∧
      p.least.toNat ≤ w % 64 + 0x80 ∧ w % 64 + 0x80 ≤ p.greatest.toNat ↔
    p.accepts b = true ∧ p.push b = w := by
  have hleast := hp.least
  have hgreatest := hp.greatest
  simp only [Pending.accepts, Pending.push, Bool.and_eq_true, decide_eq_true_eq, UInt8.le_iff_toNat_le,
    ← UInt8.toNat_inj, UInt8.toNat_ofNat']
  norm_num
  omega

/-- The bytes of a number, split at the first of them. -/
theorem completes_succ {m : Nat} (hp : p.Proper) (hm : p.missing = m + 1) {rest : List UInt8} :
    p.Completes v ∧ b :: bytes = continuation p.missing v ++ rest ↔
      (p.accepts b = true ∧ p.push b = v / 64 ^ m) ∧ bytes = continuation m v ++ rest := by
  have hbits : v / 64 ^ p.missing = v / 64 ^ m / 64 := by
    rw [hm, pow_succ, Nat.div_div_eq_div_mul]
  rw [← continues_iff hp]
  constructor
  · rintro ⟨⟨hv, hleast, hgreatest⟩, hbytes⟩
    rw [hbits] at hv
    rw [hm, Nat.add_sub_cancel] at hleast hgreatest
    rw [hm, continuation, List.cons_append] at hbytes
    obtain ⟨hb, hbytes⟩ := List.cons_eq_cons.mp hbytes
    exact ⟨⟨⟨hv, hb⟩, hleast, hgreatest⟩, hbytes⟩
  · rintro ⟨⟨⟨hv, hb⟩, hleast, hgreatest⟩, hbytes⟩
    refine ⟨⟨hbits.trans hv, ?_, ?_⟩, ?_⟩
    · rwa [hm, Nat.add_sub_cancel]
    · rwa [hm, Nat.add_sub_cancel]
    · rw [hm, continuation, List.cons_append, hb, hbytes]

/-- What may follow the beginning of a character, split at its first byte. -/
theorem means_some (hp : p.Proper) :
    Means (some p) (b :: bytes) chars ↔ p.accepts b = true ∧
      if p.missing = 1 then ∃ cs, chars = Char.ofNat (p.push b) :: cs ∧ Means none bytes cs
      else Means (some ⟨p.position, p.first, p.push b, p.missing - 1, 0x80, 0xBF⟩) bytes chars := by
  obtain ⟨m, hm⟩ := Nat.exists_eq_succ_of_ne_zero hp.missing.ne'
  simp only [Means, ← and_assoc, completes_succ hp hm]
  split
  · -- This byte is the last one: the number is known.
    obtain rfl : m = 0 := by omega
    simp only [pow_zero, Nat.div_one, continuation, List.nil_append]
    constructor
    · rintro ⟨v, cs, ⟨⟨haccepts, rfl⟩, hbytes⟩, hchars⟩
      exact ⟨haccepts, cs, hchars, hbytes⟩
    · rintro ⟨haccepts, cs, hchars, hbytes⟩
      exact ⟨_, cs, ⟨⟨haccepts, rfl⟩, hbytes⟩, hchars⟩
  · have hnext : p.missing - 1 = m := by omega
    have hcompletes (v : Nat) : Pending.Completes ⟨p.position, p.first, p.push b, m, 0x80, 0xBF⟩ v ↔
        p.push b = v / 64 ^ m := by
      refine ⟨fun h => h.bits.symm, fun h => ⟨h.symm, ?_, ?_⟩⟩
      · exact Nat.le_add_left _ _
      · have := Nat.mod_lt (v / 64 ^ (m - 1)) (y := 64) (by omega)
        simp
        omega
    simp only [hnext, hcompletes]
    constructor
    · rintro ⟨v, cs, ⟨⟨haccepts, hpush⟩, hbytes⟩, hchars⟩
      exact ⟨haccepts, v, cs, ⟨hpush, hbytes⟩, hchars⟩
    · rintro ⟨haccepts, v, cs, ⟨hpush, hbytes⟩, hchars⟩
      exact ⟨v, cs, ⟨⟨haccepts, hpush⟩, hbytes⟩, hchars⟩

/-! ### First bytes -/

theorem ofFirst?_two {n : Nat} (hlow : 2 ≤ n) (hhigh : n < 32) :
    Pending.ofFirst? position (UInt8.ofNat (n + 0xC0)) =
      some ⟨position, UInt8.ofNat (n + 0xC0), n, 1, 0x80, 0xBF⟩ := by
  interval_cases n <;> rfl

theorem ofFirst?_three {n : Nat} (hhigh : n < 16) :
    Pending.ofFirst? position (UInt8.ofNat (n + 0xE0)) =
      some ⟨position, UInt8.ofNat (n + 0xE0), n, 2, if n = 0 then 0xA0 else 0x80,
        if n = 13 then 0x9F else 0xBF⟩ := by
  interval_cases n <;> rfl

theorem ofFirst?_four {n : Nat} (hhigh : n < 5) :
    Pending.ofFirst? position (UInt8.ofNat (n + 0xF0)) =
      some ⟨position, UInt8.ofNat (n + 0xF0), n, 3, if n = 0 then 0x90 else 0x80,
        if n = 4 then 0x8F else 0xBF⟩ := by
  interval_cases n <;> rfl

theorem range_of_ofFirst? (h : Pending.ofFirst? position b = some p) :
    0xC2 ≤ b.toNat ∧ b.toNat < 0xF5 := by
  unfold Pending.ofFirst? at h
  simp only [UInt8.le_iff_toNat_le, ← UInt8.toNat_inj, UInt8.reduceToNat] at h
  refine Decidable.by_contra fun hrange => ?_
  repeat rw [if_neg (by omega)] at h
  cases h

/-- The bytes that can be first. -/
theorem exists_of_ofFirst? (h : Pending.ofFirst? position b = some p) :
    (∃ n, (2 ≤ n ∧ n < 32) ∧ b = UInt8.ofNat (n + 0xC0)) ∨
      (∃ n < 16, b = UInt8.ofNat (n + 0xE0)) ∨ ∃ n < 5, b = UInt8.ofNat (n + 0xF0) := by
  obtain ⟨hlow, hhigh⟩ := range_of_ofFirst? h
  have hb (base : Nat) (hbase : base ≤ b.toNat) : b = UInt8.ofNat (b.toNat - base + base) := by
    rw [Nat.sub_add_cancel hbase, UInt8.ofNat_toNat]
  rcases Nat.lt_or_ge b.toNat 0xE0 with htwo | hmore
  · exact .inl ⟨b.toNat - 0xC0, by omega, hb _ (by omega)⟩
  rcases Nat.lt_or_ge b.toNat 0xF0 with hthree | hfour
  · exact .inr (.inl ⟨b.toNat - 0xE0, by omega, hb _ hmore⟩)
  · exact .inr (.inr ⟨b.toNat - 0xF0, by omega, hb _ hfour⟩)

/-- The encoding of a character of one byte. -/
theorem utf8EncodeChar_one {c : Char} (h : c.toNat < 0x80) :
    String.utf8EncodeChar c = [UInt8.ofNat c.toNat] := by
  have htoNat : c.val.toNat = c.toNat := rfl
  simp only [String.utf8EncodeChar, htoNat]
  rw [if_pos (by omega)]

theorem utf8EncodeChar_two {c : Char} (hlow : 0x80 ≤ c.toNat) (hhigh : c.toNat < 0x800) :
    String.utf8EncodeChar c = UInt8.ofNat (c.toNat / 64 + 0xC0) :: continuation 1 c.toNat := by
  have htoNat : c.val.toNat = c.toNat := rfl
  simp only [String.utf8EncodeChar, htoNat, continuation, pow_zero, Nat.div_one]
  rw [if_neg (by omega), if_pos (by omega), Nat.mod_eq_of_lt (by omega)]

theorem utf8EncodeChar_three {c : Char} (hlow : 0x800 ≤ c.toNat) (hhigh : c.toNat < 0x10000) :
    String.utf8EncodeChar c = UInt8.ofNat (c.toNat / 4096 + 0xE0) :: continuation 2 c.toNat := by
  have htoNat : c.val.toNat = c.toNat := rfl
  simp only [String.utf8EncodeChar, htoNat, continuation, pow_zero, pow_one, Nat.div_one]
  rw [if_neg (by omega), if_neg (by omega), if_pos (by omega), Nat.mod_eq_of_lt (by omega)]

theorem utf8EncodeChar_four {c : Char} (hlow : 0x10000 ≤ c.toNat) :
    String.utf8EncodeChar c = UInt8.ofNat (c.toNat / 262144 + 0xF0) :: continuation 3 c.toNat := by
  have htoNat : c.val.toNat = c.toNat := rfl
  have hvalid : c.toNat.isValidChar := c.valid
  simp only [Nat.isValidChar] at hvalid
  simp only [String.utf8EncodeChar, htoNat, continuation, pow_zero, pow_one, Nat.div_one]
  rw [if_neg (by omega), if_neg (by omega), if_neg (by omega), Nat.mod_eq_of_lt (by omega)]
  rfl

/-- A first byte begins the characters whose numbers complete its bits. -/
theorem utf8EncodeChar_of_first (h : Pending.ofFirst? position b = some p) (hv : p.Completes v) :
    v.isValidChar ∧ String.utf8EncodeChar (Char.ofNat v) = b :: continuation p.missing v := by
  obtain ⟨hbits, hleast, hgreatest⟩ := hv
  rcases exists_of_ofFirst? h with ⟨n, ⟨hlow, hhigh⟩, rfl⟩ | ⟨n, hhigh, rfl⟩ | ⟨n, hhigh, rfl⟩
  · rw [ofFirst?_two hlow hhigh] at h
    cases h
    simp at hbits
    have hvalid : v.isValidChar := .inl (by omega)
    have hnumber := toNat_charOfNat hvalid
    rw [utf8EncodeChar_two (by omega) (by omega), hnumber, hbits]
    exact ⟨hvalid, rfl⟩
  · rw [ofFirst?_three hhigh] at h
    cases h
    simp at hbits hleast hgreatest
    have hrange : 0x800 ≤ v ∧ v < 0x10000 ∧ ¬ (0xD800 ≤ v ∧ v < 0xE000) := by
      split at hleast <;> split at hgreatest <;> simp at hleast hgreatest <;> omega
    have hvalid : v.isValidChar := by
      simp only [Nat.isValidChar]
      omega
    have hnumber := toNat_charOfNat hvalid
    rw [utf8EncodeChar_three (by omega) (by omega), hnumber, hbits]
    exact ⟨hvalid, rfl⟩
  · rw [ofFirst?_four hhigh] at h
    cases h
    simp at hbits hleast hgreatest
    have hrange : 0x10000 ≤ v ∧ v < 0x110000 := by
      split at hleast <;> split at hgreatest <;> simp at hleast hgreatest <;> omega
    have hvalid : v.isValidChar := .inr (by omega)
    have hnumber := toNat_charOfNat hvalid
    rw [utf8EncodeChar_four (by omega), hnumber, hbits]
    exact ⟨hvalid, rfl⟩

/-- Every character of more than one byte has a first byte, whose bits it completes. -/
theorem exists_first {c : Char} (h : 0x80 ≤ c.toNat) (position : Nat) :
    ∃ b p, Pending.ofFirst? position b = some p ∧ p.Completes c.toNat := by
  have hvalid : c.toNat.isValidChar := c.valid
  simp only [Nat.isValidChar] at hvalid
  rcases Nat.lt_or_ge c.toNat 0x800 with htwo | hmore
  · refine ⟨_, _, ofFirst?_two (n := c.toNat / 64) (by omega) (by omega), ?_, ?_, ?_⟩
    all_goals simp
    omega
  rcases Nat.lt_or_ge c.toNat 0x10000 with hthree | hfour
  · refine ⟨_, _, ofFirst?_three (n := c.toNat / 4096) (by omega), by simp, ?_, ?_⟩
    -- After the smallest first byte the next bits are large, after the one of the surrogates small.
    · dsimp only
      split <;> simp
      omega
    · dsimp only
      split <;> simp <;> omega
  · refine ⟨_, _, ofFirst?_four (n := c.toNat / 262144) (by omega), by simp, ?_, ?_⟩
    · dsimp only
      split <;> simp
      omega
    · dsimp only
      split <;> simp <;> omega

/-! ### All bytes -/

/-- What may follow a character, split at its first byte. -/
theorem means_none (position : Nat) :
    Means none (b :: bytes) chars ↔
      (b < 0x80 ∧ ∃ cs, chars = Char.ofNat b.toNat :: cs ∧ Means none bytes cs) ∨
      ∃ p, Pending.ofFirst? position b = some p ∧ Means (some p) bytes chars := by
  constructor
  · intro h
    cases chars with
    | nil => cases h
    | cons c cs =>
      rw [Means, encode_cons] at h
      rcases Nat.lt_or_ge c.toNat 0x80 with hone | hmore
      · rw [utf8EncodeChar_one hone] at h
        obtain ⟨rfl, rfl⟩ := List.cons_eq_cons.mp h
        have hnumber : (UInt8.ofNat c.toNat).toNat = c.toNat := by
          simp
          omega
        refine .inl ⟨?_, cs, ?_, rfl⟩
        · rw [UInt8.lt_iff_toNat_lt, hnumber]
          exact hone
        · rw [hnumber, Char.ofNat_toNat]
      · obtain ⟨first, p, hfirst, hcompletes⟩ := exists_first hmore position
        obtain ⟨-, hencode⟩ := utf8EncodeChar_of_first hfirst hcompletes
        rw [Char.ofNat_toNat] at hencode
        rw [hencode] at h
        obtain ⟨rfl, rfl⟩ := List.cons_eq_cons.mp h
        exact .inr ⟨p, hfirst, c.toNat, cs, hcompletes, rfl, by rw [Char.ofNat_toNat]⟩
  · rintro (⟨hone, cs, rfl, hbytes⟩ | ⟨p, hfirst, v, cs, hcompletes, rfl, rfl⟩)
    · have hlow : b.toNat < 0x80 := UInt8.lt_iff_toNat_lt.mp hone
      have hnumber := toNat_charOfNat (.inl (by omega) : b.toNat.isValidChar)
      rw [Means, encode_cons, utf8EncodeChar_one (by omega), hnumber, UInt8.ofNat_toNat, hbytes]
      rfl
    · obtain ⟨-, hencode⟩ := utf8EncodeChar_of_first hfirst hcompletes
      rw [Means, encode_cons, hencode]
      rfl

theorem proper_of_first (h : Pending.ofFirst? position b = some p) : p.Proper := by
  rcases exists_of_ofFirst? h with ⟨n, ⟨hlow, hhigh⟩, rfl⟩ | ⟨n, hhigh, rfl⟩ | ⟨n, hhigh, rfl⟩
  · rw [ofFirst?_two hlow hhigh] at h
    cases h
    exact ⟨Nat.succ_pos _, Nat.le_refl _, Nat.le_refl _⟩
  · rw [ofFirst?_three hhigh] at h
    cases h
    refine ⟨Nat.succ_pos _, ?_, ?_⟩ <;> dsimp only <;> split <;> decide
  · rw [ofFirst?_four hhigh] at h
    cases h
    refine ⟨Nat.succ_pos _, ?_, ?_⟩ <;> dsimp only <;> split <;> decide

theorem not_means_nil (hp : p.Proper) : ¬ Means (some p) [] chars := by
  rintro ⟨v, cs, -, hbytes, -⟩
  obtain ⟨m, hm⟩ := Nat.exists_eq_succ_of_ne_zero hp.missing.ne'
  rw [hm] at hbytes
  cases hbytes

theorem encode_eq_nil {cs : List Char} : encode cs = [] ↔ cs = [] := by
  refine ⟨fun h => ?_, fun h => h ▸ rfl⟩
  cases cs with
  | nil => rfl
  | cons c cs =>
    have hlength := congrArg List.length h
    have hsize := c.utf8Size_pos
    simp [encode_cons] at hlength
    omega

/-- From any state, bytes are decoded exactly to what they mean. -/
theorem decodeFrom_eq_ok_iff {state : Option Pending} (hstate : ∀ p ∈ state, p.Proper) :
    decodeFrom position state bytes = .ok chars ↔ Means state bytes chars := by
  induction bytes generalizing position state chars with
  | nil =>
    cases state with
    | none =>
      rw [decodeFrom, Means, Except.ok.injEq, eq_comm, eq_comm (a := []), encode_eq_nil]
    | some p =>
      rw [decodeFrom]
      exact iff_of_false (fun h => by cases h) (not_means_nil (hstate p rfl))
  | cons b bytes ih =>
    have hchar (c : Char) :
        (decodeFrom (position + 1) none bytes).map (c :: ·) = .ok chars ↔
          ∃ cs, chars = c :: cs ∧ Means none bytes cs := by
      rw [map_eq_ok]
      refine exists_congr fun cs => ?_
      rw [ih fun p hp => absurd hp (Option.not_mem_none p), and_comm, eq_comm]
    cases state with
    | none =>
      rw [means_none position, decodeFrom]
      by_cases hone : b < 0x80
      · have hfirst (p : Pending) : Pending.ofFirst? position b ≠ some p := by
          intro h
          have hlow := (range_of_ofFirst? h).1
          have hhigh := UInt8.lt_iff_toNat_lt.mp hone
          simp at hhigh
          omega
        simp [hone, hfirst, hchar]
      · cases hfirst : Pending.ofFirst? position b with
        | none => simp [hone]
        | some p =>
          simp only [hone, if_false, false_and, false_or, Option.some.injEq, exists_eq_left']
          refine ih fun q hq => ?_
          cases hq
          exact proper_of_first hfirst
    | some p =>
      rw [means_some (hstate p rfl), decodeFrom]
      by_cases haccepts : p.accepts b = true
      · simp only [haccepts, if_true, true_and]
        split
        · exact hchar _
        · refine ih fun q hq => ?_
          cases hq
          have hmissing := (hstate p rfl).missing
          have hmore : 0 < p.missing - 1 := by omega
          exact ⟨hmore, Nat.le_refl _, Nat.le_refl _⟩
      · simp [haccepts]

/-- Bytes are decoded exactly if they encode a text, and then to this text. -/
theorem decode_eq_ok_iff : decode bytes = .ok chars ↔ bytes = encode chars :=
  decodeFrom_eq_ok_iff fun p hp => absurd hp (Option.not_mem_none p)

end DeltaPreview.Utf8
