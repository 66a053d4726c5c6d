import LlmGateway.Lib.JsonText
import LlmGateway.Lib.Numeral
import Mathlib.Data.Int.Log
import Mathlib.Data.Rat.Floor
import Mathlib.Tactic.NormNum
import Mathlib.Tactic.Positivity
import Mathlib.Tactic.Linarith
import Mathlib.Tactic.FieldSimp

/-!
# The numbers of the language

* `Number` — a number; minus zero is zero;
* `nearest` — the double next to a rational: 53 bits, halves to the even one;
* `increment` — `++` on a whole number: it counts up to `safe` (`increment_of_lt`), and no further (`increment_safe`);
* `readNumber` — the number a numeral of JSON stands for; it reads a decimal numeral back, up to `safe` (`readNumber_numeral`);
* `isNumber_numeral` — a decimal numeral is a number of JSON.
-/

namespace LlmGateway.Lib.JsNumber

open Utf16 JsonText

inductive Number where
  | nan
  | infinite (negative : Bool)
  | finite (q : ℚ)
deriving DecidableEq

/-! ## Doubles -/

/-- The nearest integer; between two of them, the even one. -/
def roundEven (q : ℚ) : ℤ :=
  if q - ⌊q⌋ < 1 / 2 then ⌊q⌋ else if 1 / 2 < q - ⌊q⌋ then ⌊q⌋ + 1 else if ⌊q⌋ % 2 = 0 then ⌊q⌋ else ⌊q⌋ + 1

/-- How far the doubles about `q` are apart. -/
def ulp (q : ℚ) : ℚ := 2 ^ max (Int.log 2 |q| - 52) (-1074)

def nearest (q : ℚ) : Number :=
  let r := roundEven (q / ulp q) * ulp q
  if |r| < 2 ^ 1024 then .finite r else .infinite (r < 0)

/-- Up to here all whole numbers are doubles. -/
def safe : ℕ := 2 ^ 53

/-- `++`, of a whole number. -/
def increment (n : ℕ) : ℕ :=
  match nearest (n + 1) with
  | .finite q => ⌊q⌋.toNat
  | _ => n

@[simp] theorem roundEven_intCast (n : ℤ) : roundEven n = n := by
  unfold roundEven
  rw [Int.floor_intCast, sub_self, if_pos (by norm_num)]

theorem log_natCast_lt {n k : ℕ} (h : n < 2 ^ k) (hk : k ≠ 0) : Int.log 2 |(n : ℚ)| < k := by
  rw [Nat.abs_cast, Int.log_natCast]
  exact_mod_cast Nat.log_lt_of_lt_pow' hk h

theorem log_natCast_nonneg (n : ℕ) : 0 ≤ Int.log 2 |(n : ℚ)| := by
  rw [Nat.abs_cast, Int.log_natCast]
  exact Int.natCast_nonneg _

theorem nearest_eq {q r : ℚ} (h : roundEven (q / ulp q) * ulp q = r) (hr : |r| < 2 ^ 1024) : nearest q = .finite r := by
  unfold nearest
  simp only [h, if_pos hr]

theorem abs_natCast_lt {n : ℕ} (h : n ≤ safe) : |(n : ℚ)| < 2 ^ 1024 := by
  rw [Nat.abs_cast]
  calc (n : ℚ) ≤ (safe : ℕ) := Nat.cast_le.2 h
    _ = 2 ^ 53 := by norm_num [safe]
    _ < 2 ^ 1024 := pow_lt_pow_right₀ (by norm_num) (by omega)

/-- Below `safe` the doubles are no more than one apart. -/
theorem ulp_natCast {n : ℕ} (h : n < safe) : ∃ k : ℕ, ulp n = (2 ^ k)⁻¹ := by
  have hlog := log_natCast_lt h (by omega)
  have hnonneg := log_natCast_nonneg n
  refine ⟨(52 - Int.log 2 |(n : ℚ)|).toNat, ?_⟩
  have hmax : max (Int.log 2 |(n : ℚ)| - 52) (-1074) = -((52 - Int.log 2 |(n : ℚ)|).toNat : ℤ) := by omega
  rw [ulp, hmax, zpow_neg, zpow_natCast]

theorem nearest_of_lt {n : ℕ} (h : n < safe) : nearest n = .finite n := by
  obtain ⟨k, hk⟩ := ulp_natCast h
  have hround : roundEven ((n : ℚ) / ulp n) = (n * 2 ^ k : ℕ) := by
    rw [hk, div_inv_eq_mul]
    exact_mod_cast roundEven_intCast (n * 2 ^ k : ℕ)
  apply nearest_eq _ (abs_natCast_lt h.le)
  rw [hround, hk]
  push_cast
  field_simp

theorem log_safe (d : ℕ) (hd : d < safe) : Int.log 2 |((safe + d : ℕ) : ℚ)| = 53 := by
  rw [Nat.abs_cast, Int.log_natCast, Nat.log_eq_of_pow_le_of_lt_pow (m := 53)]
  · rfl
  · unfold safe
    omega
  · unfold safe at hd ⊢
    omega

theorem ulp_safe (d : ℕ) (hd : d < safe) : ulp (safe + d : ℕ) = 2 := by
  unfold ulp
  rw [log_safe d hd]
  norm_num

theorem nearest_safe : nearest safe = .finite safe := by
  have hulp := ulp_safe 0 (by decide)
  rw [Nat.add_zero] at hulp
  have hround : roundEven ((safe : ℚ) / ulp safe) = (2 ^ 52 : ℤ) := by
    rw [hulp]
    have hhalf : ((safe : ℕ) : ℚ) / 2 = ((2 ^ 52 : ℤ) : ℚ) := by
      unfold safe
      norm_num
    rw [hhalf, roundEven_intCast]
  apply nearest_eq _ (abs_natCast_lt le_rfl)
  rw [hround, hulp]
  norm_num [safe]

/-- A whole number up to `safe` is a double. -/
theorem nearest_natCast {n : ℕ} (h : n ≤ safe) : nearest n = .finite n := by
  rcases Nat.lt_or_eq_of_le h with h | rfl
  · exact nearest_of_lt h
  · exact nearest_safe

theorem increment_of_lt {n : ℕ} (h : n < safe) : increment n = n + 1 := by
  have hnear := nearest_natCast (n := n + 1) h
  push_cast at hnear
  unfold increment
  rw [hnear]
  exact_mod_cast congrArg Int.toNat (Int.floor_natCast (R := ℚ) (n + 1))

/-- **There `++` no longer counts.** -/
theorem increment_safe : increment safe = safe := by
  have hulp := ulp_safe 1 (by decide)
  push_cast at hulp
  have hround : roundEven (((safe : ℚ) + 1) / ulp (safe + 1)) = (2 ^ 52 : ℤ) := by
    rw [hulp]
    have hfloor : ⌊((safe : ℚ) + 1) / 2⌋ = (2 ^ 52 : ℤ) := by
      rw [Int.floor_eq_iff]
      norm_num [safe]
    unfold roundEven
    rw [hfloor]
    norm_num [safe]
  have hnear : nearest ((safe : ℚ) + 1) = .finite safe := by
    apply nearest_eq _ (abs_natCast_lt le_rfl)
    rw [hround, hulp]
    norm_num [safe]
  unfold increment
  rw [hnear]
  exact_mod_cast congrArg Int.toNat (Int.floor_natCast (R := ℚ) safe)

theorem increment_le {n : ℕ} (h : n ≤ safe) : increment n ≤ safe := by
  rcases Nat.lt_or_eq_of_le h with h | rfl
  · rw [increment_of_lt h]
    exact h
  · exact increment_safe.le

theorem le_increment {n : ℕ} (h : n ≤ safe) : n ≤ increment n := by
  rcases Nat.lt_or_eq_of_le h with h | rfl
  · rw [increment_of_lt h]
    omega
  · exact increment_safe.ge

/-! ## Numerals -/

def digitsValue (ds : Text) : ℕ := ds.foldl (fun n d => 10 * n + (d.toNat - 48)) 0

/-- The digits of a fraction, and what is behind them. -/
def fractionOf : Text → Text × Text
  | 46 :: s => (s.takeWhile isDigit, s.dropWhile isDigit)
  | s => ([], s)

def exponentOf : Text → ℤ
  | _ :: 45 :: ds => -digitsValue ds
  | _ :: 43 :: ds => digitsValue ds
  | _ :: ds => digitsValue ds
  | [] => 0

def unsignedValue (s : Text) : ℚ :=
  let i := s.takeWhile isDigit
  let f := fractionOf (s.dropWhile isDigit)
  digitsValue (i ++ f.1) * 10 ^ (exponentOf f.2 - f.1.length)

def numberValue : Text → ℚ
  | 45 :: s => -unsignedValue s
  | s => unsignedValue s

/-- The number of a numeral. -/
def readNumber (w : Text) : Number := nearest (numberValue w)

theorem digitsValue_append (ds : Text) (d : UInt16) : digitsValue (ds ++ [d]) = 10 * digitsValue ds + (d.toNat - 48) := by
  unfold digitsValue
  rw [List.foldl_append]
  rfl

theorem numeral_of_lt {n : ℕ} (h : n < 10) : numeral n = [(48 + n).toUInt16] := by
  rw [numeral_eq, Nat.toDigits_of_lt_base h]
  interval_cases n <;> rfl

theorem numeral_of_le {n : ℕ} (h : 10 ≤ n) : numeral n = numeral (n / 10) ++ [(48 + n % 10).toUInt16] := by
  have hdigit := numeral_of_lt (Nat.mod_lt n (by omega : 10 > 0))
  rw [numeral_eq, Nat.toDigits_of_lt_base (Nat.mod_lt n (by omega))] at hdigit
  rw [numeral_eq, numeral_eq, Nat.toDigits_of_base_le (by omega) h, List.map_append, ← hdigit]

theorem digitsValue_numeral (n : ℕ) : digitsValue (numeral n) = n := by
  induction n using Nat.strong_induction_on with
  | _ n ih =>
    rcases Nat.lt_or_ge n 10 with h | h
    · rw [numeral_of_lt h]
      interval_cases n <;> rfl
    · have hdigit : (48 + n % 10).toUInt16.toNat = 48 + n % 10 := by
        rw [UInt16.toNat_ofNat', Nat.mod_eq_of_lt]
        omega
      rw [numeral_of_le h, digitsValue_append, ih (n / 10) (by omega), hdigit]
      omega

theorem isDigit_of_mem_numeral {n : ℕ} {u : UInt16} (h : u ∈ numeral n) : isDigit u = true := by
  have := digit_of_mem_numeral h
  simp [isDigit, this]

theorem numeral_ne_nil (n : ℕ) : numeral n ≠ [] := by
  rw [numeral_eq]
  simp [Nat.toDigits_ne_nil]

/-- No zero stands in front. -/
theorem head_numeral {n : ℕ} (h : n ≠ 0) : (numeral n).head? ≠ some 48 := by
  induction n using Nat.strong_induction_on with
  | _ n ih =>
    rcases Nat.lt_or_ge n 10 with hlt | hge
    · rw [numeral_of_lt hlt]
      interval_cases n
      · exact absurd rfl h
      all_goals decide
    · rw [numeral_of_le hge, List.head?_append_of_ne_nil _ (numeral_ne_nil _)]
      exact ih (n / 10) (by omega) (by omega)

/-- A decimal numeral is a number of JSON. -/
theorem isNumber_numeral (n : ℕ) : IsNumber (numeral n) := by
  refine ⟨[], numeral n, [], [], .inl rfl, ?_, .inl rfl, .inl rfl, by simp⟩
  rcases Nat.eq_zero_or_pos n with rfl | hpos
  · exact .inl rfl
  · exact .inr ⟨⟨numeral_ne_nil n, fun u hu => isDigit_of_mem_numeral hu⟩, head_numeral (by omega)⟩

theorem numberValue_numeral (n : ℕ) : numberValue (numeral n) = n := by
  have hstop := takeWhile_stop (t := []) (fun u hu => isDigit_of_mem_numeral hu) (by simp) (l := numeral n)
  rw [List.append_nil] at hstop
  have hunsigned : unsignedValue (numeral n) = n := by
    simp [unsignedValue, hstop, fractionOf, exponentOf, digitsValue_numeral]
  unfold numberValue
  split
  · next s hs =>
    have hdigit := isDigit_of_mem_numeral (n := n) (u := 45) (by rw [hs]; exact List.mem_cons_self)
    cases hdigit
  · exact hunsigned

theorem readNumber_numeral {n : ℕ} (h : n ≤ safe) : readNumber (numeral n) = .finite n := by
  rw [readNumber, numberValue_numeral, nearest_natCast h]

end LlmGateway.Lib.JsNumber
