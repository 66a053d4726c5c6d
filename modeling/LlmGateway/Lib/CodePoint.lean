import LlmGateway.Lib.Numeral
import Mathlib.Tactic.IntervalCases

/-!
# Code points

* `points` — the code points of a text, as `[...s]` and a regular expression with the flag `u` see them: pairs of surrogates, and
  single code units; `pointValue` — `codePointAt(0)`;
* `points_append` — they can be taken part by part, where no pair is cut;
* `quote_eq` — `JSON.stringify` of a text goes code point by code point;
* `hexNumeral`, `padStart` — `n.toString(16).padStart(w, "0")`, and `hexValue`, which reads it back.
-/

namespace LlmGateway.Lib.Utf16

def points : Text → List Text
  | [] => []
  | [u] => [[u]]
  | u :: v :: s => if isLead u && isTrail v then [u, v] :: points s else [u] :: points (v :: s)

def pointValue : Text → ℕ
  | [u, v] => 0x10000 + (u.toNat - 0xD800) * 0x400 + (v.toNat - 0xDC00)
  | u :: _ => u.toNat
  | [] => 0

/-- One code point. -/
inductive IsPoint : Text → Prop where
  | unit (u : UInt16) : IsPoint [u]
  | pair {u v : UInt16} (hu : isLead u = true) (hv : isTrail v = true) : IsPoint [u, v]

theorem isPoint_of_mem {s p : Text} (h : p ∈ points s) : IsPoint p := by
  fun_induction points s with
  | case1 => cases h
  | case2 u =>
    obtain rfl := List.mem_singleton.1 h
    exact .unit u
  | case3 u v s hpair ih =>
    rw [Bool.and_eq_true] at hpair
    rcases List.mem_cons.1 h with rfl | h
    · exact .pair hpair.1 hpair.2
    · exact ih h
  | case4 u v s hpair ih =>
    rcases List.mem_cons.1 h with rfl | h
    · exact .unit u
    · exact ih h

@[simp] theorem flatten_points (s : Text) : (points s).flatten = s := by
  fun_induction points s <;> simp_all

theorem points_append {s t : Text} (h : ∀ u ∈ t.head?, isTrail u = false) : points (s ++ t) = points s ++ points t := by
  fun_induction points s with
  | case1 => rfl
  | case2 u =>
    cases t with
    | nil => rfl
    | cons v t => simp [points, h v rfl]
  | case3 u v s hpair ih => simp [points, hpair, ih]
  | case4 u v s hpair ih => simp [points, hpair, ← ih]

theorem points_cons_of_not_isLead {u : UInt16} (h : isLead u = false) (t : Text) : points (u :: t) = [u] :: points t := by
  cases t with
  | nil => rfl
  | cons v t => rw [points, h, Bool.false_and, if_neg (by simp)]

section parts
variable {α : Type*} {f : α → Text} {l : List α} {t : Text}

theorem head_flatMap (hf : ∀ a ∈ l, ∀ u ∈ (f a).head?, isTrail u = false) (ht : ∀ u ∈ t.head?, isTrail u = false) :
    ∀ u ∈ (l.flatMap f ++ t).head?, isTrail u = false := by
  induction l with
  | nil => exact ht
  | cons a l ih =>
    intro u hu
    rw [List.flatMap_cons, List.append_assoc, List.head?_append, Option.mem_def, Option.or_eq_some_iff] at hu
    rcases hu with hu | ⟨-, hu⟩
    · exact hf a List.mem_cons_self u hu
    · exact ih (fun b hb => hf b (List.mem_cons_of_mem _ hb)) u hu

theorem points_flatMap (hf : ∀ a ∈ l, ∀ u ∈ (f a).head?, isTrail u = false) (ht : ∀ u ∈ t.head?, isTrail u = false) :
    points (l.flatMap f ++ t) = (l.flatMap fun a => points (f a)) ++ points t := by
  induction l with
  | nil => rfl
  | cons a l ih =>
    have hl : ∀ b ∈ l, ∀ u ∈ (f b).head?, isTrail u = false := fun b hb => hf b (List.mem_cons_of_mem _ hb)
    rw [List.flatMap_cons, List.flatMap_cons, List.append_assoc, points_append (head_flatMap hl ht), ih hl, List.append_assoc]

end parts

theorem not_isTrail_of_lt {u : UInt16} (h : u < 0xDC00) : isTrail u = false := by
  simp only [isTrail, Bool.and_eq_false_iff, decide_eq_false_iff_not]
  exact .inl (UInt16.not_le.2 h)

theorem not_isLead_of_lt {u : UInt16} (h : u < 0xD800) : isLead u = false := by
  simp only [isLead, Bool.and_eq_false_iff, decide_eq_false_iff_not]
  exact .inl (UInt16.not_le.2 h)

theorem IsPoint.points {p : Text} (h : IsPoint p) : points p = [p] := by
  cases h with
  | unit u => rfl
  | pair hu hv => simp [Utf16.points, hu, hv]

/-- A text without surrogates. -/
theorem points_of_lt {s : Text} (h : ∀ u ∈ s, u < 0xD800) : points s = s.map fun u => [u] := by
  fun_induction points s with
  | case1 => rfl
  | case2 u => rfl
  | case3 u v s hpair ih =>
    rw [not_isLead_of_lt (h u List.mem_cons_self)] at hpair
    cases hpair
  | case4 u v s hpair ih =>
    rw [ih fun w hw => h w (List.mem_cons_of_mem _ hw)]
    rfl

/-! ## JSON texts -/

/-- A code point in `JSON.stringify`. -/
def quotePoint : Text → Text
  | [u] => quoteToken (isSurrogate u) u
  | p => p

theorem quoteFrom_eq (s : Text) : quoteFrom false s = (points s).flatMap quotePoint := by
  fun_induction points s with
  | case1 => rfl
  | case2 u => simp [quoteFrom, quotePoint]
  | case3 u v s hpair ih =>
    rw [Bool.and_eq_true] at hpair
    have hu := quoteUnit_of_surrogate (u := u) (by simp [isSurrogate, hpair.1])
    have hv := quoteUnit_of_surrogate (u := v) (by simp [isSurrogate, hpair.2])
    simp [quoteFrom, quoteToken, quotePoint, hpair, hu, hv, ← ih]
  | case4 u v s hpair ih =>
    have hpair := eq_false_of_ne_true hpair
    rw [List.flatMap_cons, ← ih, quoteFrom]
    simp only [Bool.not_false, Bool.true_and, Bool.and_true, List.head?_cons, Option.any_some, hpair]
    rfl

theorem quote_eq (s : Text) : quote s = 34 :: ((points s).flatMap quotePoint ++ [34]) := by rw [quote, quoteFrom_eq]

/-! ## Hexadecimal numbers -/

def hexNumeral (n : ℕ) : Text := if n = 0 then [48] else (Nat.digits 16 n).reverse.map fun d => hexDigit d.toUInt16

def padStart (w : ℕ) (c : UInt16) (s : Text) : Text := List.replicate (w - s.length) c ++ s

def hexValue (s : Text) : ℕ := s.foldl (fun n d => 16 * n + (hexVal d).toNat) 0

theorem toNat_hexDigit {d : ℕ} (h : d < 16) : (hexVal (hexDigit d.toUInt16)).toNat = d := by
  have hd : d.toUInt16.toNat = d := by
    rw [UInt16.toNat_ofNat', Nat.mod_eq_of_lt]
    omega
  rw [hexVal_hexDigit, hd]
  rw [UInt16.lt_iff_toNat_lt, hd]
  exact h

theorem hexValue_hexNumeral (n : ℕ) : hexValue (hexNumeral n) = n := by
  unfold hexValue hexNumeral
  split
  · next h => rw [h]; rfl
  · have hdigits : ∀ l : List ℕ, (∀ d ∈ l, d < 16) →
        (l.reverse.map fun d => hexDigit d.toUInt16).foldl (fun n d => 16 * n + (hexVal d).toNat) 0 = Nat.ofDigits 16 l := by
      intro l
      induction l with
      | nil =>
        intro _
        rfl
      | cons d l ih =>
        intro h
        rw [List.reverse_cons, List.map_append, List.foldl_append, ih fun e he => h e (List.mem_cons_of_mem _ he)]
        simp only [List.map_cons, List.map_nil, List.foldl_cons, List.foldl_nil, Nat.ofDigits_cons,
          toNat_hexDigit (h d List.mem_cons_self)]
        exact Nat.add_comm _ _
    rw [hdigits _ fun d hd => Nat.digits_lt_base (by omega) hd, Nat.ofDigits_digits]

theorem hexValue_padStart (w : ℕ) (s : Text) : hexValue (padStart w 48 s) = hexValue s := by
  unfold hexValue padStart
  rw [List.foldl_append]
  congr 1
  induction w - s.length with
  | zero => rfl
  | succ k ih =>
    rw [List.replicate_succ, List.foldl_cons]
    exact ih

theorem length_padStart_hexNumeral {w n : ℕ} (hn : n ≠ 0) (h : n < 16 ^ w) : (padStart w 48 (hexNumeral n)).length = w := by
  have hlen : (hexNumeral n).length ≤ w := by
    rw [hexNumeral, if_neg hn, List.length_map, List.length_reverse]
    exact (Nat.digits_length_le_iff (by omega) n).2 h
  rw [padStart, List.length_append, List.length_replicate]
  omega

theorem hexDigit_bounds : ∀ d : UInt16, d < 16 → (48 ≤ hexDigit d ∧ hexDigit d ≤ 57) ∨ (97 ≤ hexDigit d ∧ hexDigit d ≤ 102) := by
  intro d hd
  rw [UInt16.lt_iff_toNat_lt] at hd
  simp only [hexDigit, UInt16.le_iff_toNat_le, UInt16.lt_iff_toNat_lt, apply_ite UInt16.toNat, UInt16.toNat_add]
  simp at *
  split <;> omega

theorem hexDigit_ascii {d : UInt16} (h : d < 16) : 32 ≤ hexDigit d ∧ hexDigit d ≤ 126 := by
  have hbounds := hexDigit_bounds d h
  simp only [UInt16.le_iff_toNat_le] at hbounds ⊢
  simp at *
  omega

/-- What is behind the reverse solidus of an escape is in ASCII. -/
theorem escape_ascii (u : UInt16) : ∃ s, escape u = 92 :: s ∧ ∀ v ∈ s, 32 ≤ v ∧ v ≤ 126 := by
  obtain ⟨hdigits, -⟩ := hexDigits_spec u
  refine ⟨_, rfl, ?_⟩
  intro v hv
  simp only [List.mem_cons, List.not_mem_nil, or_false] at hv
  rcases hv with rfl | rfl | rfl | rfl | rfl
  · decide
  · exact hexDigit_ascii hdigits.1
  · exact hexDigit_ascii hdigits.2.1
  · exact hexDigit_ascii hdigits.2.2.1
  · exact hexDigit_ascii hdigits.2.2.2

/-- A code unit inside quotes: an escape in ASCII, or itself. -/
theorem quoteUnit_cases (u : UInt16) :
    (∃ s, quoteUnit u = 92 :: s ∧ ∀ v ∈ s, 32 ≤ v ∧ v ≤ 126) ∨ (quoteUnit u = [u] ∧ 32 ≤ u ∧ u ≠ 34 ∧ u ≠ 92) := by
  unfold quoteUnit
  split_ifs with h1 h2 h3 h4 h5 h6 h7 h8
  iterate 7 exact .inl ⟨_, rfl, by decide⟩
  · exact .inl (escape_ascii u)
  · exact .inr ⟨rfl, UInt16.not_lt.1 h8, h1, h2⟩

theorem mem_padStart_hexNumeral {w n : ℕ} {u : UInt16} (h : u ∈ padStart w 48 (hexNumeral n)) :
    (48 ≤ u ∧ u ≤ 57) ∨ (97 ≤ u ∧ u ≤ 102) := by
  rcases List.mem_append.1 h with h | h
  · rw [List.eq_of_mem_replicate h]
    decide
  · unfold hexNumeral at h
    split at h
    · rw [List.mem_singleton.1 h]
      decide
    · obtain ⟨d, hd, rfl⟩ := List.mem_map.1 h
      have hlt := Nat.digits_lt_base (by omega) (List.mem_reverse.1 hd)
      apply hexDigit_bounds
      rw [UInt16.lt_iff_toNat_lt, UInt16.toNat_ofNat', Nat.mod_eq_of_lt (by omega)]
      exact hlt

/-! ## Code points above the first plane -/

/-- The surrogates of a code point. -/
def surrogates (n : ℕ) : Text := [(0xD800 + (n - 0x10000) / 0x400).toUInt16, (0xDC00 + (n - 0x10000) % 0x400).toUInt16]

theorem isLead_iff {u : UInt16} : isLead u = true ↔ 0xD800 ≤ u.toNat ∧ u.toNat < 0xDC00 := by
  simp [isLead, UInt16.le_iff_toNat_le, UInt16.lt_iff_toNat_lt]

theorem isTrail_iff {u : UInt16} : isTrail u = true ↔ 0xDC00 ≤ u.toNat ∧ u.toNat < 0xE000 := by
  simp [isTrail, UInt16.le_iff_toNat_le, UInt16.lt_iff_toNat_lt]

theorem surrogates_pointValue {u v : UInt16} (hu : isLead u = true) (hv : isTrail v = true) :
    surrogates (pointValue [u, v]) = [u, v] ∧ 0x10000 ≤ pointValue [u, v] := by
  rw [isLead_iff] at hu
  rw [isTrail_iff] at hv
  have hvalue : pointValue [u, v] = 0x10000 + (u.toNat - 0xD800) * 0x400 + (v.toNat - 0xDC00) := rfl
  rw [hvalue]
  refine ⟨?_, by omega⟩
  unfold surrogates
  have hlead : 0xD800 + (0x10000 + (u.toNat - 0xD800) * 0x400 + (v.toNat - 0xDC00) - 0x10000) / 0x400 = u.toNat := by omega
  have htrail : 0xDC00 + (0x10000 + (u.toNat - 0xD800) * 0x400 + (v.toNat - 0xDC00) - 0x10000) % 0x400 = v.toNat := by omega
  rw [hlead, htrail]
  simp

end LlmGateway.Lib.Utf16
