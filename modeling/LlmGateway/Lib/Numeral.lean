import LlmGateway.Lib.Utf16
import Mathlib.Data.Nat.Digits.Lemmas

/-!
# Numbers in texts

* `numeral` — `String(n)`; its digits are ASCII digits (`digit_of_mem_numeral`).
-/

namespace LlmGateway.Lib.Utf16

/-- A decimal number. -/
def numeral (n : ℕ) : Text := text (toString n)

theorem numeral_eq (n : ℕ) : numeral n = (Nat.toDigits 10 n).map fun c => c.toNat.toUInt16 := by
  unfold numeral text
  rw [show toString n = n.repr from rfl, Nat.repr_eq_ofList_toDigits, String.toList_ofList]

theorem digit_of_mem_numeral {n : ℕ} {u : UInt16} (h : u ∈ numeral n) : 48 ≤ u ∧ u ≤ 57 := by
  rw [numeral_eq] at h
  obtain ⟨c, hc, rfl⟩ := List.mem_map.1 h
  have hdigit := Nat.isDigit_of_mem_toDigits (by omega) (by omega) hc
  have hbounds : 48 ≤ c.toNat ∧ c.toNat ≤ 57 := by
    simp only [Char.isDigit, Bool.and_eq_true, decide_eq_true_eq, ge_iff_le] at hdigit
    exact ⟨UInt32.le_iff_toNat_le.1 hdigit.1, UInt32.le_iff_toNat_le.1 hdigit.2⟩
  have hvalue : c.toNat.toUInt16.toNat = c.toNat := by
    simp
    omega
  rw [UInt16.le_iff_toNat_le, UInt16.le_iff_toNat_le, hvalue]
  exact hbounds

end LlmGateway.Lib.Utf16
