import Mathlib.Tactic.Common
import Mathlib.Data.List.Basic
import Mathlib.Data.Nat.Init

/-!
# Occurrences of a text in another

* `slice s i j` — the elements from position `i` up to position `j`;
* `OccursAt pat s p` — `pat` occurs in `s` at position `p`;
* `indexOf s pat k` — the first occurrence at position `k` or later (`indexOf_eq_some_iff`, `indexOf_eq_none_iff`);
* `hitAt pat s n` — the `n`-th occurrence met by a search from the left that goes on behind each one it finds;
* `occursAt_hit` — an occurrence is such a hit, or overlaps the end of one.
-/

namespace LlmGateway.Lib.Substring

variable {α : Type*}

/-- The elements from position `i` up to position `j`. -/
def slice (s : List α) (i j : ℕ) : List α := (s.take j).drop i

theorem slice_append {s : List α} {i j k : ℕ} (hij : i ≤ j) (hjk : j ≤ k) :
    slice s i j ++ slice s j k = slice s i k := by
  apply List.ext_getElem?
  intro n
  simp only [slice, List.getElem?_append, List.length_drop, List.length_take, List.getElem?_drop,
    List.getElem?_take]
  grind

@[simp] theorem map_slice {β : Type*} (f : α → β) (s : List α) (i j : ℕ) :
    (slice s i j).map f = slice (s.map f) i j := by
  simp [slice, List.map_drop, List.map_take]

theorem slice_length (s : List α) (i : ℕ) : slice s i s.length = s.drop i := by
  rw [slice, List.take_length]

def OccursAt (pat s : List α) (p : ℕ) : Prop := pat <+: s.drop p

theorem OccursAt.length_le {pat s : List α} {p : ℕ} (h : OccursAt pat s p) (hpat : pat ≠ []) :
    p + pat.length ≤ s.length := by
  have hlen := List.IsPrefix.length_le h
  have hpos := List.length_pos_iff.2 hpat
  rw [List.length_drop] at hlen
  omega

theorem occursAt_drop {pat s : List α} {k i : ℕ} : OccursAt pat (s.drop k) i ↔ OccursAt pat s (k + i) := by
  rw [OccursAt, OccursAt, List.drop_drop]

variable [DecidableEq α]

instance (pat s : List α) (p : ℕ) : Decidable (OccursAt pat s p) :=
  decidable_of_iff (pat.isPrefixOf (s.drop p) = true) List.isPrefixOf_iff_prefix

/-- The first occurrence. -/
def search (pat : List α) : List α → Option ℕ
  | [] => if pat = [] then some 0 else none
  | c :: s => if pat.isPrefixOf (c :: s) then some 0 else (search pat s).map (· + 1)

/-- The first occurrence at position `k` or later. -/
def indexOf (s pat : List α) (k : ℕ) : Option ℕ := (search pat (s.drop k)).map (k + ·)

/-- The `n`-th occurrence met by a search from the left that goes on behind each one it finds. -/
def hitAt (pat s : List α) : ℕ → Option ℕ
  | 0 => indexOf s pat 0
  | n + 1 => (hitAt pat s n).bind fun m => indexOf s pat (m + pat.length)

def Hit (pat s : List α) (m : ℕ) : Prop := ∃ n, hitAt pat s n = some m

/-- Position `i` lies in a hit. -/
def Covered (pat s : List α) (i : ℕ) : Prop := ∃ m, Hit pat s m ∧ m ≤ i ∧ i < m + pat.length

variable {pat s : List α} {k m p : ℕ}

theorem search_spec (hpat : pat ≠ []) :
    (search pat s = none ∧ ∀ p, ¬OccursAt pat s p) ∨
      ∃ m, search pat s = some m ∧ OccursAt pat s m ∧ ∀ p < m, ¬OccursAt pat s p := by
  induction s with
  | nil =>
    refine Or.inl ⟨if_neg hpat, fun p h => hpat ?_⟩
    rw [OccursAt, List.drop_nil] at h
    exact List.prefix_nil.1 h
  | cons c s ih =>
    by_cases h0 : pat.isPrefixOf (c :: s) = true
    · refine Or.inr ⟨0, if_pos h0, List.isPrefixOf_iff_prefix.1 h0, fun p hp => ?_⟩
      omega
    · have hzero : ¬OccursAt pat (c :: s) 0 := fun h => h0 (List.isPrefixOf_iff_prefix.2 h)
      rcases ih with ⟨hn, hno⟩ | ⟨m, hm, hocc, hmin⟩
      · refine Or.inl ⟨by rw [search, if_neg h0, hn, Option.map_none], fun p h => ?_⟩
        cases p with
        | zero => exact hzero h
        | succ p => exact hno p h
      · refine Or.inr ⟨m + 1, by rw [search, if_neg h0, hm, Option.map_some], hocc, fun p hp h => ?_⟩
        cases p with
        | zero => exact hzero h
        | succ p => exact hmin p (by omega) h

theorem indexOf_eq_none_iff (hpat : pat ≠ []) : indexOf s pat k = none ↔ ∀ p, k ≤ p → ¬OccursAt pat s p := by
  have hoff : ∀ p, k ≤ p → (OccursAt pat (s.drop k) (p - k) ↔ OccursAt pat s p) := by
    intro p hp
    rw [occursAt_drop, Nat.add_sub_cancel' hp]
  rcases search_spec (s := s.drop k) hpat with ⟨hn, hno⟩ | ⟨m, hm, hocc, -⟩
  · rw [indexOf, hn]
    exact ⟨fun _ p hp h => hno (p - k) ((hoff p hp).2 h), fun _ => rfl⟩
  · rw [indexOf, hm]
    refine ⟨fun h => by simp at h, fun h => ?_⟩
    exact absurd (occursAt_drop.1 hocc) (h (k + m) (Nat.le_add_right k m))

theorem indexOf_eq_some_iff (hpat : pat ≠ []) :
    indexOf s pat k = some m ↔ k ≤ m ∧ OccursAt pat s m ∧ ∀ p, k ≤ p → p < m → ¬OccursAt pat s p := by
  rcases search_spec (s := s.drop k) hpat with ⟨hn, hno⟩ | ⟨i, hi, hocc, hmin⟩
  · rw [indexOf, hn]
    refine ⟨fun h => by simp at h, fun h => ?_⟩
    refine absurd (occursAt_drop.2 ?_) (hno (m - k))
    rw [Nat.add_sub_cancel' h.1]
    exact h.2.1
  · rw [indexOf, hi, Option.map_some, Option.some.injEq]
    rw [occursAt_drop] at hocc
    constructor
    · rintro rfl
      refine ⟨Nat.le_add_right k i, hocc, fun p hp hlt h => hmin (p - k) (by omega) ?_⟩
      rw [occursAt_drop, Nat.add_sub_cancel' hp]
      exact h
    · rintro ⟨hk, hm, hfirst⟩
      by_contra hne
      rcases Nat.lt_or_gt_of_ne hne with hlt | hlt
      · exact hfirst (k + i) (Nat.le_add_right k i) hlt hocc
      · refine hmin (m - k) (by omega) ?_
        rw [occursAt_drop, Nat.add_sub_cancel' hk]
        exact hm

theorem occursAt_of_indexOf (hpat : pat ≠ []) (h : indexOf s pat k = some m) : OccursAt pat s m :=
  ((indexOf_eq_some_iff hpat).1 h).2.1

theorem hitAt_occursAt (hpat : pat ≠ []) {n : ℕ} (h : hitAt pat s n = some m) : OccursAt pat s m := by
  cases n with
  | zero => exact occursAt_of_indexOf hpat h
  | succ n =>
    obtain ⟨m₀, -, h₀⟩ := Option.bind_eq_some_iff.1 h
    exact occursAt_of_indexOf hpat h₀

theorem Hit.occursAt (hpat : pat ≠ []) (h : Hit pat s m) : OccursAt pat s m := by
  obtain ⟨n, hn⟩ := h
  exact hitAt_occursAt hpat hn

theorem hitAt_none_of_le {n n' : ℕ} (h : hitAt pat s n = none) (hle : n ≤ n') : hitAt pat s n' = none := by
  induction n', hle using Nat.le_induction with
  | base => exact h
  | succ n' _ ih => rw [hitAt, ih, Option.bind_none]

/-- Hits do not overlap. -/
theorem hitAt_lt (hpat : pat ≠ []) {n n' m' : ℕ} (h : hitAt pat s n = some m) (h' : hitAt pat s n' = some m')
    (hlt : n < n') : m + pat.length ≤ m' := by
  induction n', hlt using Nat.le_induction generalizing m' with
  | base =>
    rw [hitAt, h, Option.bind_some] at h'
    exact ((indexOf_eq_some_iff hpat).1 h').1
  | succ n' _ ih =>
    obtain ⟨a, ha, h''⟩ := Option.bind_eq_some_iff.1 h'
    have hstep := ((indexOf_eq_some_iff hpat).1 h'').1
    have := ih ha
    omega

theorem Hit.disjoint (hpat : pat ≠ []) {m' : ℕ} (h : Hit pat s m) (h' : Hit pat s m') (hlt : m < m') :
    m + pat.length ≤ m' := by
  obtain ⟨n, hn⟩ := h
  obtain ⟨n', hn'⟩ := h'
  rcases Nat.lt_trichotomy n n' with hc | rfl | hc
  · exact hitAt_lt hpat hn hn' hc
  · rw [hn] at hn'
    injection hn' with hm
    omega
  · have := hitAt_lt hpat hn' hn hc
    omega

/-- There are fewer hits than positions. -/
theorem le_of_hitAt (hpat : pat ≠ []) {n : ℕ} (h : hitAt pat s n = some m) : n ≤ m := by
  have hpos := List.length_pos_iff.2 hpat
  induction n generalizing m with
  | zero => exact Nat.zero_le m
  | succ n ih =>
    obtain ⟨a, ha, h'⟩ := Option.bind_eq_some_iff.1 h
    have := ih ha
    have := ((indexOf_eq_some_iff hpat).1 h').1
    omega

theorem hitAt_length (hpat : pat ≠ []) : hitAt pat s s.length = none := by
  cases h : hitAt pat s s.length with
  | none => rfl
  | some m =>
    have hle := le_of_hitAt hpat h
    have hocc := (hitAt_occursAt hpat h).length_le hpat
    have hpos := List.length_pos_iff.2 hpat
    omega

/-- **Every occurrence is a hit or overlaps the end of one.** -/
theorem occursAt_hit (hpat : pat ≠ []) (h : OccursAt pat s p) :
    Hit pat s p ∨ ∃ m, Hit pat s m ∧ m < p ∧ p < m + pat.length := by
  have hpos := List.length_pos_iff.2 hpat
  -- from some `k ≤ p` on, the search has not passed `p`; the induction is on the way still to go
  have hreach : ∀ r k, p - k ≤ r → k ≤ p → (∀ m, indexOf s pat k = some m → Hit pat s m) →
      Hit pat s p ∨ ∃ m, Hit pat s m ∧ m < p ∧ p < m + pat.length := by
    intro r
    induction r with
    | zero =>
      intro k hn hk hhit
      obtain rfl : k = p := by omega
      exact Or.inl (hhit k ((indexOf_eq_some_iff hpat).2 ⟨Nat.le_refl k, h, fun q hq hlt => by omega⟩))
    | succ r ih =>
      intro k hn hk hhit
      cases hi : indexOf s pat k with
      | none => exact absurd h ((indexOf_eq_none_iff hpat).1 hi p hk)
      | some m =>
        obtain ⟨hkm, -, hfirst⟩ := (indexOf_eq_some_iff hpat).1 hi
        have hmp : m ≤ p := by
          by_contra hc
          exact hfirst p hk (by omega) h
        rcases Nat.eq_or_lt_of_le hmp with rfl | hlt
        · exact Or.inl (hhit m hi)
        · by_cases hin : p < m + pat.length
          · exact Or.inr ⟨m, hhit m hi, hlt, hin⟩
          · refine ih (m + pat.length) (by omega) (by omega) fun m' hm' => ?_
            obtain ⟨n, hn'⟩ := hhit m hi
            exact ⟨n + 1, by rw [hitAt, hn', Option.bind_some, hm']⟩
  exact hreach p 0 (by omega) (Nat.zero_le p) fun m hm => ⟨0, hm⟩

/-- An occurrence begins in a hit. -/
theorem covered_of_occursAt (hpat : pat ≠ []) (h : OccursAt pat s p) : Covered pat s p := by
  have hpos := List.length_pos_iff.2 hpat
  rcases occursAt_hit hpat h with hp | ⟨m, hm, hlt, hin⟩
  · exact ⟨p, hp, Nat.le_refl p, by omega⟩
  · exact ⟨m, hm, by omega, hin⟩

/-- Behind a hit the next one is the first occurrence. -/
theorem exists_hit_of_occursAt (hpat : pat ≠ []) (hm : Hit pat s m) (hp : OccursAt pat s p)
    (hle : m + pat.length ≤ p) : ∃ m', Hit pat s m' ∧ m + pat.length ≤ m' ∧ m' ≤ p := by
  obtain ⟨n, hn⟩ := hm
  cases hi : indexOf s pat (m + pat.length) with
  | none => exact absurd hp ((indexOf_eq_none_iff hpat).1 hi p hle)
  | some m' =>
    obtain ⟨hge, -, hfirst⟩ := (indexOf_eq_some_iff hpat).1 hi
    refine ⟨m', ⟨n + 1, by rw [hitAt, hn, Option.bind_some, hi]⟩, hge, ?_⟩
    by_contra hc
    exact hfirst p hle (by omega) hp

end LlmGateway.Lib.Substring
