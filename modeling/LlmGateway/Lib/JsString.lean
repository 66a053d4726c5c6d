import LlmGateway.Lib.Utf16
import Mathlib.Data.List.DropRight

/-!
# Methods of texts

* `trim`, `isSpace`, `isLineTerminator` — `String.prototype.trim`, and the classes `\s` and `.` of regular expressions;
* `letter` — a letter of a regular expression with the flag `i`;
* `LowerCase` — `String.prototype.toLowerCase`, as far as its table of characters is not needed.
-/

namespace LlmGateway.Lib.Utf16

/-- White space and line terminators. -/
def isSpace (u : UInt16) : Bool :=
  (0x9 ≤ u && u ≤ 0xD) || u == 0x20 || u == 0xA0 || u == 0x1680 || (0x2000 ≤ u && u ≤ 0x200A) ||
    u == 0x2028 || u == 0x2029 || u == 0x202F || u == 0x205F || u == 0x3000 || u == 0xFEFF

/-- What `.` does not match. -/
def isLineTerminator (u : UInt16) : Bool := u == 0xA || u == 0xD || u == 0x2028 || u == 0x2029

def trim (s : Text) : Text := (s.dropWhile isSpace).rdropWhile isSpace

def lines : Text → List Text
  | [] => [[]]
  | 13 :: 10 :: s => [] :: lines s
  | 10 :: s => [] :: lines s
  | u :: s =>
    match lines s with
    | [] => [[u]]
    | l :: ls => (u :: l) :: ls

/-- A lone surrogate becomes the replacement character. -/
def byteLength : Text → ℕ
  | [] => 0
  | [u] => if u < 0x80 then 1 else if u < 0x800 then 2 else 3
  | u :: v :: s =>
    if isLead u && isTrail v then 4 + byteLength s
    else (if u < 0x80 then 1 else if u < 0x800 then 2 else 3) + byteLength (v :: s)

/-- The code unit of a lower-case letter, in either case.  No other character has a letter of the alphabet as its upper case. -/
def letter (c : Char) (u : UInt16) : Bool :=
  u == c.toNat.toUInt16 || ('a' ≤ c && c ≤ 'z' && u == (c.toNat - 32).toUInt16)

/-- `toLowerCase`: a text that is not empty does not become empty. -/
structure LowerCase where
  toLowerCase : Text → Text
  toLowerCase_ne_nil : ∀ s, s ≠ [] → toLowerCase s ≠ []

/-- The lower case of the ASCII letters. -/
def asciiLowerCase : LowerCase where
  toLowerCase s := s.map fun u => if 65 ≤ u ∧ u ≤ 90 then u + 32 else u
  toLowerCase_ne_nil s hs := by simpa using hs

/-- `\w` -/
def isWord (u : UInt16) : Bool := (48 ≤ u && u ≤ 57) || (65 ≤ u && u ≤ 90) || u == 95 || (97 ≤ u && u ≤ 122)

/-- A run of units ends where the next one is not of its kind. -/
theorem takeWhile_stop {p : UInt16 → Bool} {l t : Text} (hl : ∀ u ∈ l, p u = true) (ht : ∀ u ∈ t.head?, p u = false) :
    (l ++ t).takeWhile p = l ∧ (l ++ t).dropWhile p = t := by
  rw [List.takeWhile_append_of_pos hl, List.dropWhile_append_of_pos hl]
  cases t with
  | nil => simp
  | cons u t =>
    have hu := ht u rfl
    rw [List.takeWhile_cons_of_neg (by simp [hu]), List.dropWhile_cons_of_neg (by simp [hu]), List.append_nil]
    exact ⟨rfl, rfl⟩

theorem isSpace_of_isLineTerminator {u : UInt16} (h : isLineTerminator u = true) : isSpace u = true := by
  unfold isLineTerminator at h
  simp only [Bool.or_eq_true, beq_iff_eq] at h
  obtain ((rfl | rfl) | rfl) | rfl := h <;> decide

/-- A trimmed text does not end in white space. -/
theorem last_trim {s : Text} (h : trim s ≠ []) : isSpace ((trim s).getLast h) = false :=
  eq_false_of_ne_true (List.rdropWhile_last_not isSpace (s.dropWhile isSpace) h)

/-- A text that begins with something else than white space keeps it. -/
theorem head_trim {u : UInt16} {s : Text} (h : isSpace u = false) : ∃ t, trim (u :: s) = u :: t := by
  unfold trim
  rw [List.dropWhile_cons_of_neg (by simp [h])]
  obtain ⟨t, ht⟩ := List.rdropWhile_prefix isSpace (l := u :: s)
  cases hd : (u :: s).rdropWhile isSpace with
  | nil =>
    have := (List.rdropWhile_eq_nil_iff.1 hd) u List.mem_cons_self
    rw [h] at this
    cases this
  | cons v l =>
    rw [hd] at ht
    obtain ⟨rfl, -⟩ := List.cons.inj ht
    exact ⟨l, rfl⟩

end LlmGateway.Lib.Utf16
