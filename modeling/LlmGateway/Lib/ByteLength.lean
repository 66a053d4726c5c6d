import LlmGateway.Lib.CodePoint
import LlmGateway.Lib.JsString

/-!
# How many bytes a text has

* `byteLength_append_le` — no more than its parts; two halves of a pair are longer apart than together;
* `length_le_byteLength`, `byteLength_le` — one to three bytes for a code unit.
-/

namespace LlmGateway.Lib.Utf16

/-- The bytes of a code unit by itself. -/
def unitBytes (u : UInt16) : ℕ := if u < 0x80 then 1 else if u < 0x800 then 2 else 3

theorem unitBytes_bounds (u : UInt16) : 1 ≤ unitBytes u ∧ unitBytes u ≤ 3 := by
  unfold unitBytes
  split_ifs <;> omega

theorem byteLength_singleton (u : UInt16) : byteLength [u] = unitBytes u := rfl

theorem byteLength_cons_cons (u v : UInt16) (s : Text) : byteLength (u :: v :: s) =
    if isLead u && isTrail v then 4 + byteLength s else unitBytes u + byteLength (v :: s) := rfl

theorem byteLength_cons_of_not_lead {u : UInt16} (hu : isLead u = false) (s : Text) :
    byteLength (u :: s) = unitBytes u + byteLength s := by
  cases s with
  | nil => rfl
  | cons v s => rw [byteLength_cons_cons, hu, Bool.false_and, if_neg Bool.false_ne_true]

theorem not_isLead_of_isTrail {u : UInt16} (h : isTrail u = true) : isLead u = false := by
  simp only [isTrail, isLead, Bool.and_eq_true, Bool.and_eq_false_iff, decide_eq_true_eq, decide_eq_false_iff_not,
    UInt16.le_iff_toNat_le, UInt16.lt_iff_toNat_lt, UInt16.reduceToNat] at h ⊢
  omega

theorem byteLength_cons_le (u : UInt16) (s : Text) : byteLength (u :: s) ≤ unitBytes u + byteLength s := by
  have hu := unitBytes_bounds u
  cases s with
  | nil => exact le_rfl
  | cons v s =>
    rw [byteLength_cons_cons]
    split
    · next hpair =>
      -- the second half by itself has bytes of its own
      rw [Bool.and_eq_true] at hpair
      have hlead : unitBytes u = 3 := by
        have hrange := isLead_iff.1 hpair.1
        simp only [unitBytes, UInt16.lt_iff_toNat_lt, UInt16.reduceToNat]
        rw [if_neg (by omega), if_neg (by omega)]
      have hv := unitBytes_bounds v
      rw [byteLength_cons_of_not_lead (not_isLead_of_isTrail hpair.2)]
      omega
    · exact le_rfl

/-- **A text has no more bytes than its parts.** -/
theorem byteLength_append_le (s t : Text) : byteLength (s ++ t) ≤ byteLength s + byteLength t := by
  induction s using points.induct with
  | case1 => exact Nat.le_add_left _ _
  | case2 u => exact byteLength_cons_le u t
  | case3 u v s hpair ih =>
    rw [List.cons_append, List.cons_append, byteLength_cons_cons, byteLength_cons_cons, if_pos hpair, if_pos hpair]
    omega
  | case4 u v s hpair ih =>
    rw [List.cons_append] at ih
    rw [List.cons_append, List.cons_append, byteLength_cons_cons, byteLength_cons_cons, if_neg hpair, if_neg hpair]
    omega

/-- Where no pair is cut, a text has as many bytes as its parts. -/
theorem byteLength_append_of_head {s t : Text} (h : ∀ u ∈ t.head?, isTrail u = false) :
    byteLength (s ++ t) = byteLength s + byteLength t := by
  induction s using points.induct with
  | case1 => exact (Nat.zero_add _).symm
  | case2 u =>
    cases t with
    | nil => rfl
    | cons v t =>
      rw [List.singleton_append, byteLength_cons_cons, h v rfl, Bool.and_false, if_neg Bool.false_ne_true, byteLength_singleton]
  | case3 u v s hpair ih =>
    rw [List.cons_append, List.cons_append, byteLength_cons_cons, byteLength_cons_cons, if_pos hpair, if_pos hpair, ih]
    omega
  | case4 u v s hpair ih =>
    rw [List.cons_append] at ih
    rw [List.cons_append, List.cons_append, byteLength_cons_cons, byteLength_cons_cons, if_neg hpair, if_neg hpair, ih]
    omega

theorem byteLength_flatten_le (ts : List Text) : byteLength ts.flatten ≤ (ts.map byteLength).sum := by
  induction ts with
  | nil => exact le_rfl
  | cons t ts ih =>
    have happend := byteLength_append_le t ts.flatten
    rw [List.flatten_cons, List.map_cons, List.sum_cons]
    omega

theorem length_le_byteLength (s : Text) : s.length ≤ byteLength s := by
  induction s using points.induct with
  | case1 => exact le_rfl
  | case2 u => exact (unitBytes_bounds u).1
  | case3 u v s hpair ih =>
    rw [byteLength_cons_cons, if_pos hpair, List.length_cons, List.length_cons]
    omega
  | case4 u v s hpair ih =>
    have hu := (unitBytes_bounds u).1
    rw [byteLength_cons_cons, if_neg hpair, List.length_cons]
    omega

theorem byteLength_le (s : Text) : byteLength s ≤ 3 * s.length := by
  induction s with
  | nil => exact le_rfl
  | cons u s ih =>
    have hcons := byteLength_cons_le u s
    have hu := (unitBytes_bounds u).2
    rw [List.length_cons]
    omega

theorem byteLength_of_ascii {s : Text} (h : ∀ u ∈ s, u < 0x80) : byteLength s = s.length := by
  induction s with
  | nil => rfl
  | cons u s ih =>
    have hu := h u List.mem_cons_self
    have hlead : isLead u = false := not_isLead_of_lt (UInt16.lt_trans hu (by decide))
    rw [byteLength_cons_of_not_lead hlead, ih fun v hv => h v (List.mem_cons_of_mem _ hv), unitBytes, if_pos hu, List.length_cons]
    omega

/-! ## The texts of JSON -/

theorem byteLength_quoteToken_le (lone : Bool) (u : UInt16) : byteLength (quoteToken lone u) ≤ 6 := by
  have hescape : byteLength (escape u) ≤ 6 := by
    obtain ⟨t, ht, hascii⟩ := escape_ascii u
    have hlen : (escape u).length = 6 := rfl
    rw [byteLength_of_ascii, hlen]
    intro v hv
    rw [ht] at hv
    rcases List.mem_cons.1 hv with rfl | hv
    · decide
    · exact UInt16.lt_of_le_of_lt (hascii v hv).2 (by decide)
  unfold quoteToken quoteUnit
  split_ifs
  any_goals exact hescape
  any_goals decide
  have hu := (unitBytes_bounds u).2
  rw [byteLength_singleton]
  omega

theorem byteLength_quoteFrom_le (paired : Bool) (s : Text) : byteLength (quoteFrom paired s) ≤ 6 * s.length := by
  induction s generalizing paired with
  | nil => exact le_rfl
  | cons u s ih =>
    rw [quoteFrom]
    refine (byteLength_append_le _ _).trans ?_
    have hrest := ih (!paired && isLead u && s.head?.any isTrail)
    have htoken := byteLength_quoteToken_le
      (isSurrogate u && !paired && !(!paired && isLead u && s.head?.any isTrail)) u
    rw [List.length_cons]
    omega

/-- A code unit is written with at most six bytes. -/
theorem byteLength_quote_le (s : Text) : byteLength (quote s) ≤ 6 * s.length + 2 := by
  have hinner := byteLength_quoteFrom_le false s
  have happend := byteLength_append_le (quoteFrom false s) [34]
  have hcons := byteLength_cons_le 34 (quoteFrom false s ++ [34])
  have hquote : unitBytes 34 = 1 := by decide
  rw [byteLength_singleton, hquote] at happend
  rw [quote]
  omega

theorem byteLength_numeral_le {n k : ℕ} (h : n < 10 ^ k) (hk : 0 < k) : byteLength (numeral n) ≤ k := by
  rw [byteLength_of_ascii]
  · rw [numeral_eq, List.length_map]
    exact (Nat.length_toDigits_le_iff (by omega) hk).2 h
  · intro u hu
    exact UInt16.lt_of_le_of_lt (digit_of_mem_numeral hu).2 (by decide)

end LlmGateway.Lib.Utf16
