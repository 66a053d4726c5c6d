import LlmGateway.Lib.ByteLength
import LlmGateway.Lib.Utf8

/-!
# Chunks of UTF-8

* `decodeFrom` — what a decoder that holds back a character makes of the bytes that follow, up to their end;
* `decode_append_iff` — the parts of a text can be decoded one by one exactly where no character is cut.
-/

namespace LlmGateway.Lib.Utf8

open Utf16

def decodeFrom (p : Option Pending) (bs : List UInt8) : Text := (write p bs).1 ++ flush (write p bs).2

theorem decodeFrom_cons (p : Option Pending) (b : UInt8) (bs : List UInt8) :
    decodeFrom p (b :: bs) = (feed p b).1 ++ decodeFrom (feed p b).2 bs := by
  rw [decodeFrom, write, List.append_assoc]
  rfl

theorem decodeFrom_of_not_continues {p : Option Pending} {bs : List UInt8} (h : ¬Continues p bs) :
    decodeFrom p bs = flush p ++ decode bs := by
  cases bs with
  | nil =>
    rw [decodeFrom, write, List.nil_append]
    exact (List.append_nil _).symm
  | cons b bs =>
    rw [decodeFrom, write_of_not_continues h, List.append_assoc]
    rfl

theorem decode_append_eq (as bs : List UInt8) : decode (as ++ bs) = (write none as).1 ++ decodeFrom (write none as).2 bs := by
  rw [decode, write_append, List.append_assoc]
  rfl

/-! ## What is held back -/

/-- A character that can be completed: whatever bytes follow, it has a number. -/
structure Pending.Valid (p : Pending) : Prop where
  lower : 0x80 ≤ p.lower.toNat
  upper : p.upper.toNat ≤ 0xBF
  needed : p.needed = 1 ∨ p.needed = 2 ∨ p.needed = 3
  one : p.needed = 1 → ∀ k, p.lower.toNat ≤ k → k ≤ p.upper.toNat → IsScalar (p.codePoint * 64 + (k - 0x80))
  two : p.needed = 2 → ∀ k, p.lower.toNat ≤ k → k ≤ p.upper.toNat → ∀ j < 64,
    IsScalar ((p.codePoint * 64 + (k - 0x80)) * 64 + j)
  three : p.needed = 3 → ∀ k, p.lower.toNat ≤ k → k ≤ p.upper.toNat → ∀ i < 64, ∀ j < 64,
    IsScalar (((p.codePoint * 64 + (k - 0x80)) * 64 + i) * 64 + j)

theorem valid_of_one {n : ℕ} (h : n < 64) (h2 : 2 ≤ n) : Pending.Valid ⟨1, 0x80, 0xBF, n⟩ where
  lower := le_rfl
  upper := le_rfl
  needed := .inl rfl
  one _ k _ hk := by
    have hk : k ≤ 0xBF := hk
    exact ⟨by dsimp only; omega, by dsimp only; omega⟩
  two := nofun
  three := nofun

/-- A character of three bytes, of which the first gives `n`, is no surrogate. -/
theorem valid_of_two {n l u : ℕ} {lower upper : UInt8} (hlower : lower.toNat = l) (hupper : upper.toNat = u) (hl : 0x80 ≤ l)
    (hu : u ≤ 0xBF) (hn : n < 16) (hsurrogate : n = 13 → u < 0xA0) : Pending.Valid ⟨2, lower, upper, n⟩ where
  lower := hlower ▸ hl
  upper := hupper ▸ hu
  needed := .inr (.inl rfl)
  one := nofun
  two _ k hk hk' j hj := by
    dsimp only at hk hk' ⊢
    rw [hlower] at hk
    rw [hupper] at hk'
    constructor
    · omega
    · by_cases h : n = 13
      · have := hsurrogate h
        omega
      · omega
  three := nofun

/-- A character of four bytes has one of the numbers that take two units. -/
theorem valid_of_three {n l u : ℕ} {lower upper : UInt8} (hlower : lower.toNat = l) (hupper : upper.toNat = u) (hl : 0x80 ≤ l)
    (hu : u ≤ 0xBF) (hn : n ≤ 4) (hfirst : n = 0 → 0x90 ≤ l) (hlast : n = 4 → u < 0x90) :
    Pending.Valid ⟨3, lower, upper, n⟩ where
  lower := hlower ▸ hl
  upper := hupper ▸ hu
  needed := .inr (.inr rfl)
  one := nofun
  two := nofun
  three _ k hk hk' i hi j hj := by
    dsimp only at hk hk' ⊢
    rw [hlower] at hk
    rw [hupper] at hk'
    constructor
    · by_cases h : n = 4
      · have := hlast h
        omega
      · omega
    · by_cases h : n = 0
      · have := hfirst h
        omega
      · omega

theorem valid_start {b : UInt8} {p : Pending} (h : (start b).2 = some p) : p.Valid := by
  unfold start at h
  dsimp only at h
  by_cases hascii : b.toNat < 0x80
  · rw [if_pos hascii] at h
    cases h
  rw [if_neg hascii] at h
  by_cases htwo : 0xC2 ≤ b.toNat ∧ b.toNat ≤ 0xDF
  · rw [if_pos htwo] at h
    obtain rfl := Option.some.inj h
    exact valid_of_one (by omega) (by omega)
  rw [if_neg htwo] at h
  by_cases hthree : 0xE0 ≤ b.toNat ∧ b.toNat ≤ 0xEF
  · rw [if_pos hthree] at h
    obtain rfl := Option.some.inj h
    split_ifs with hfirst hsurrogate hsurrogate
    · omega
    · exact valid_of_two rfl rfl (by decide) (by decide) (by omega) (by omega)
    · exact valid_of_two rfl rfl (by decide) (by decide) (by omega) fun _ => by decide
    · exact valid_of_two rfl rfl (by decide) (by decide) (by omega) (by omega)
  rw [if_neg hthree] at h
  by_cases hfour : 0xF0 ≤ b.toNat ∧ b.toNat ≤ 0xF4
  · rw [if_pos hfour] at h
    obtain rfl := Option.some.inj h
    split_ifs with hfirst hlast hlast
    · omega
    · exact valid_of_three rfl rfl (by decide) (by decide) (by omega) (fun _ => by decide) (by omega)
    · exact valid_of_three rfl rfl (by decide) (by decide) (by omega) (by omega) fun _ => by decide
    · exact valid_of_three rfl rfl (by decide) (by decide) (by omega) (by omega) (by omega)
  rw [if_neg hfour] at h
  cases h

/-- What one byte does to a character that is held back. -/
theorem feed_some {p : Pending} {b : UInt8} (h : p.lower ≤ b ∧ b ≤ p.upper) : feed (some p) b =
    if p.needed = 1 then (pointUnits (p.codePoint * 64 + (b.toNat - 0x80)), none)
    else ([], some ⟨p.needed - 1, 0x80, 0xBF, p.codePoint * 64 + (b.toNat - 0x80)⟩) := by
  rw [feed, if_pos h]

theorem Pending.Valid.next {p : Pending} {b : UInt8} (hp : p.Valid) (h : p.lower ≤ b ∧ b ≤ p.upper) (hneeded : p.needed ≠ 1) :
    Pending.Valid ⟨p.needed - 1, 0x80, 0xBF, p.codePoint * 64 + (b.toNat - 0x80)⟩ := by
  have hlower := UInt8.le_iff_toNat_le.1 h.1
  have hupper := UInt8.le_iff_toNat_le.1 h.2
  refine ⟨le_rfl, le_rfl, ?_, fun hone k hk hk' => ?_, fun htwo k hk hk' j hj => ?_, fun hthree => ?_⟩
  · have := hp.needed
    dsimp only
    omega
  · dsimp only at hone
    exact hp.two (by omega) b.toNat hlower hupper (k - 0x80) (by have : k ≤ 0xBF := hk'; omega)
  · dsimp only at htwo
    exact hp.three (by omega) b.toNat hlower hupper (k - 0x80) (by have : k ≤ 0xBF := hk'; omega) j hj
  · have := hp.needed
    dsimp only at hthree
    omega

theorem valid_feed {p : Option Pending} (hp : ∀ q, p = some q → q.Valid) {b : UInt8} {r : Pending} (h : (feed p b).2 = some r) :
    r.Valid := by
  cases p with
  | none => exact valid_start h
  | some q =>
    by_cases hcont : q.lower ≤ b ∧ b ≤ q.upper
    · rw [feed_some hcont] at h
      split_ifs at h with hneeded
      obtain rfl := Option.some.inj h
      exact (hp q rfl).next hcont hneeded
    · rw [feed, if_neg hcont] at h
      exact valid_start h

theorem valid_write {p : Option Pending} (hp : ∀ q, p = some q → q.Valid) {bs : List UInt8} {r : Pending}
    (h : (write p bs).2 = some r) : r.Valid := by
  induction bs generalizing p with
  | nil => exact hp r h
  | cons b bs ih => exact ih (fun q hq => valid_feed hp hq) h

theorem valid_of_none {bs : List UInt8} {r : Pending} (h : (write none bs).2 = some r) : r.Valid :=
  valid_write (fun _ hq => by cases hq) h

theorem Pending.Valid.isScalar {p : Pending} (hp : p.Valid) {b : UInt8} (h : p.lower ≤ b ∧ b ≤ p.upper) (hone : p.needed = 1) :
    IsScalar (p.codePoint * 64 + (b.toNat - 0x80)) :=
  hp.one hone b.toNat (UInt8.le_iff_toNat_le.1 h.1) (UInt8.le_iff_toNat_le.1 h.2)

/-! ## The beginning of a decoded text -/

theorem not_isTrail_start (b : UInt8) : ∀ u ∈ (start b).1.head?, isTrail u = false := by
  intro u hu
  unfold start at hu
  dsimp only at hu
  split_ifs at hu with hascii
  · obtain rfl := Option.some.inj hu
    rw [← Bool.not_eq_true, isTrail_iff, toNat_unit (by omega)]
    omega
  all_goals cases hu
  decide

theorem not_isTrail_decodeFrom {p : Option Pending} (hp : ∀ q, p = some q → q.Valid) (bs : List UInt8) :
    ∀ u ∈ (decodeFrom p bs).head?, isTrail u = false := by
  induction bs generalizing p with
  | nil =>
    intro u hu
    cases p with
    | none => cases hu
    | some q =>
      obtain rfl := Option.some.inj hu
      decide
  | cons b bs ih =>
    intro u hu
    rw [decodeFrom_cons, List.head?_append] at hu
    cases hhead : (feed p b).1.head? with
    | none =>
      rw [hhead, Option.none_or] at hu
      exact ih (fun q hq => valid_feed hp hq) u hu
    | some v =>
      rw [hhead, Option.some_or] at hu
      obtain rfl := Option.some.inj hu
      cases p with
      | none => exact not_isTrail_start b v hhead
      | some q =>
        by_cases hcont : q.lower ≤ b ∧ b ≤ q.upper
        · rw [feed_some hcont] at hhead
          split_ifs at hhead with hone
          · dsimp only at hhead
            exact (isPoint_pointUnits ((hp q rfl).isScalar hcont hone)).2 v hhead
          · cases hhead
        · rw [feed, if_neg hcont] at hhead
          obtain rfl : 0xFFFD = v := Option.some.inj hhead
          decide

theorem not_isTrail_decode (bs : List UInt8) : ∀ u ∈ (decode bs).head?, isTrail u = false :=
  not_isTrail_decodeFrom (p := none) (fun _ hq => by cases hq) bs

theorem byteLength_append_decode (s : Text) (bs : List UInt8) :
    byteLength (s ++ decode bs) = byteLength s + byteLength (decode bs) :=
  byteLength_append_of_head (not_isTrail_decode bs)

/-! ## Where a text can be cut -/

/-- A byte inside a character is no character by itself. -/
theorem decode_cons_of_continues {p : Pending} (hp : p.Valid) {b : UInt8} (h : p.lower ≤ b ∧ b ≤ p.upper) (bs : List UInt8) :
    decode (b :: bs) = 0xFFFD :: decode bs := by
  have hlower := UInt8.le_iff_toNat_le.1 h.1
  have hupper := UInt8.le_iff_toNat_le.1 h.2
  have := hp.lower
  have := hp.upper
  have hstart : start b = ([0xFFFD], none) := by
    unfold start
    dsimp only
    rw [if_neg (by omega), if_neg (by omega), if_neg (by omega), if_neg (by omega)]
  have hcons := decodeFrom_cons none b bs
  rw [feed, hstart] at hcons
  exact hcons

theorem length_pointUnits_le (n : ℕ) : (pointUnits n).length ≤ 2 := by
  unfold pointUnits
  split_ifs
  · exact Nat.le_succ 1
  · exact le_rfl

/-- A character that is held back makes a text one unit longer at most. -/
theorem length_decodeFrom_le {p : Pending} (hp : p.Valid) (bs : List UInt8) :
    (decodeFrom (some p) bs).length ≤ 1 + (decode bs).length := by
  induction bs generalizing p with
  | nil => exact le_rfl
  | cons b bs ih =>
    by_cases hcont : p.lower ≤ b ∧ b ≤ p.upper
    · rw [decodeFrom_cons, feed_some hcont, decode_cons_of_continues hp hcont]
      by_cases hone : p.needed = 1
      · have hle := length_pointUnits_le (p.codePoint * 64 + (b.toNat - 0x80))
        have hrest : decodeFrom none bs = decode bs := rfl
        simp only [if_pos hone, List.length_append, List.length_cons, hrest]
        omega
      · have hle := ih (hp.next hcont hone)
        simp only [if_neg hone, List.nil_append, List.length_cons]
        omega
    · have hnot : ¬Continues (some p) (b :: bs) := hcont
      rw [decodeFrom_of_not_continues hnot, List.length_append]
      exact le_rfl

theorem pointUnits_ne {n : ℕ} (h : IsScalar n) : pointUnits n ≠ [0xFFFD, 0xFFFD] := by
  intro heq
  have hpoint := (isPoint_pointUnits h).1
  rw [heq] at hpoint
  cases hpoint with
  | pair hlead _ => exact absurd hlead (by decide)

theorem decodeFrom_ne {p : Pending} (hp : p.Valid) {bs : List UInt8} (h : Continues (some p) bs) :
    decodeFrom (some p) bs ≠ 0xFFFD :: decode bs := by
  intro heq
  cases bs with
  | nil => exact h
  | cons b bs =>
    rw [decodeFrom_cons, feed_some h, decode_cons_of_continues hp h] at heq
    by_cases hone : p.needed = 1
    · have hsplit : ([0xFFFD, 0xFFFD] : Text) ++ decode bs = 0xFFFD :: 0xFFFD :: decode bs := rfl
      have hrest : decodeFrom none bs = decode bs := rfl
      simp only [if_pos hone, hrest] at heq
      rw [← hsplit] at heq
      exact pointUnits_ne (hp.isScalar h hone) (List.append_cancel_right heq)
    · have hle := length_decodeFrom_le (hp.next h hone) bs
      have hlength := congrArg List.length heq
      simp only [if_neg hone, List.nil_append, List.length_cons] at hlength
      omega

/-- **Parts can be decoded one by one exactly where no character is cut.** -/
theorem decode_append_iff {as bs : List UInt8} : decode (as ++ bs) = decode as ++ decode bs ↔ ¬Continues (write none as).2 bs := by
  constructor
  · intro heq hcont
    rw [decode_append_eq] at heq
    cases hpending : (write none as).2 with
    | none =>
      rw [hpending] at hcont
      exact hcont
    | some p =>
      rw [hpending] at hcont heq
      rw [decode, hpending, List.append_assoc] at heq
      exact decodeFrom_ne (valid_of_none hpending) hcont (List.append_cancel_left heq)
  · exact decode_append

end LlmGateway.Lib.Utf8
