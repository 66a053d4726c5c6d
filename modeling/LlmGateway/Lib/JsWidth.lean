import LlmGateway.Lib.ByteLength
import LlmGateway.Lib.JsValue

/-!
# How long the texts of JSON values are

* `width` — a bound from the sizes of the strings and the number of entries;
* `length_stringify_le` — the text of a plain value is no longer.
-/

namespace LlmGateway.Lib.JsValue

open Utf16 JsonText JsNumber

mutual

def width : JsValue → ℕ
  | .null => 4
  | .boolean _ => 5
  | .number _ => 16
  | .string s => 6 * s.length + 2
  | .array vs => widthItems vs + 2
  | .object ms => widthMembers ms + 2

def widthItems : List JsValue → ℕ
  | [] => 0
  | v :: vs => width v + 1 + widthItems vs

def widthMembers : Members → ℕ
  | [] => 0
  | (k, v) :: ms => 6 * k.length + width v + 4 + widthMembers ms

end

theorem widthItems_le {k : ℕ} {vs : List JsValue} (h : ∀ v ∈ vs, width v ≤ k) : widthItems vs ≤ (k + 1) * vs.length := by
  induction vs with
  | nil => exact Nat.zero_le _
  | cons v vs ih =>
    have hv := h v List.mem_cons_self
    have hvs := ih fun v hv => h v (List.mem_cons_of_mem _ hv)
    rw [widthItems, List.length_cons, Nat.mul_add, Nat.mul_one]
    omega

variable {P : NumberText}

theorem length_quote_le (s : Text) : (quote s).length ≤ 6 * s.length + 2 :=
  (length_le_byteLength _).trans (byteLength_quote_le s)

theorem length_numeral_le {n : ℕ} (h : n ≤ safe) : (numeral n).length ≤ 16 := by
  have hlt : n < 10 ^ 16 := lt_of_le_of_lt h (by decide)
  exact (length_le_byteLength _).trans (byteLength_numeral_le hlt (by decide))

mutual

theorem length_stringify_le : ∀ v, Plain v → (stringify P v).length ≤ width v
  | .null, _ => by
    rw [stringify, tree]
    decide
  | .boolean true, _ => by
    rw [stringify, tree]
    decide
  | .boolean false, _ => by
    rw [stringify, tree]
    decide
  | .number n, h => by
    obtain ⟨k, hk, rfl⟩ := h
    have hnumeral := length_numeral_le hk
    rw [stringify, tree, numberTree_natCast hk, width]
    simpa [spell, tokens] using hnumeral
  | .string s, _ => by
    have hquote := length_quote_le s
    rw [stringify, tree, width]
    simpa [spell, tokens] using hquote
  | .array vs, h => by
    have hitems := length_spellItems_le vs h
    rw [stringify, tree, width]
    show (91 :: spellItems (trees P vs)).length ≤ _
    rw [List.length_cons]
    omega
  | .object ms, h => by
    have hmembers := length_spellMembers_le ms h.2
    rw [stringify, tree, width]
    show (123 :: spellMembers (memberTrees P ms)).length ≤ _
    rw [List.length_cons]
    omega

theorem length_spellItems_le : ∀ vs, PlainItems vs → (spellItems (trees P vs)).length ≤ widthItems vs + 1
  | [], _ => by
    rw [trees]
    decide
  | [v], h => by
    have hv := length_stringify_le v h.1
    have hspell := congrArg List.length (spellItems_one (tree P v) [])
    rw [stringify] at hv
    rw [List.append_nil, List.length_append, List.length_singleton] at hspell
    rw [trees, trees, widthItems, widthItems]
    omega
  | v :: v' :: vs, h => by
    have hv := length_stringify_le v h.1
    have hvs := length_spellItems_le (v' :: vs) h.2
    have hspell := congrArg List.length (spellItems_cons (tree P v) (trees_ne_nil (P := P) v' vs) [])
    rw [stringify] at hv
    rw [List.append_nil, List.append_nil, List.length_append, List.length_cons] at hspell
    rw [trees, widthItems]
    omega

theorem length_spellMembers_le : ∀ ms, PlainMembers ms → (spellMembers (memberTrees P ms)).length ≤ widthMembers ms + 1
  | [], _ => by
    rw [memberTrees]
    decide
  | [(k, v)], h => by
    have hk := length_quote_le k
    have hv := length_stringify_le v h.1
    have hspell := congrArg List.length (spellMembers_one (quote k) (tree P v) [])
    rw [stringify] at hv
    rw [List.append_nil] at hspell
    simp only [List.length_append, List.length_cons, List.length_nil] at hspell
    rw [memberTrees, memberTrees, widthMembers, widthMembers]
    omega
  | (k, v) :: m :: ms, h => by
    have hk := length_quote_le k
    have hv := length_stringify_le v h.1
    have hms := length_spellMembers_le (m :: ms) h.2
    have hspell := congrArg List.length (spellMembers_cons (quote k) (tree P v) (memberTrees_ne_nil (P := P) m ms) [])
    rw [stringify] at hv
    rw [List.append_nil, List.append_nil] at hspell
    simp only [List.length_append, List.length_cons] at hspell
    rw [memberTrees, widthMembers]
    omega

end

end LlmGateway.Lib.JsValue
