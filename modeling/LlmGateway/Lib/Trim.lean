import LlmGateway.Lib.JsString
import Mathlib.Data.List.Infix

/-!
# Trimmed texts

* `head_of_trim`, `last_of_trim`, `trim_of_ends` — a text is trimmed if it begins and ends with something else than white space;
* `isInfix_trim_iff` — a part with such ends is found in a text exactly when it is found in the trimmed text.
-/

namespace LlmGateway.Lib.Utf16

theorem isInfix_trim (s : Text) : trim s <:+: s :=
  (List.rdropWhile_prefix _ _).isInfix.trans (List.dropWhile_suffix _).isInfix

theorem head_of_trim (s : Text) : ∀ u ∈ (trim s).head?, isSpace u = false := by
  intro u hu
  obtain ⟨t, ht⟩ := List.rdropWhile_prefix isSpace (l := s.dropWhile isSpace)
  have hdrop : (s.dropWhile isSpace).head? = some u := by
    rw [← ht, List.head?_append_of_ne_nil]
    · exact hu
    · intro hnil
      rw [trim, hnil] at hu
      cases hu
  have hnot := List.head?_dropWhile_not isSpace s
  rw [hdrop] at hnot
  simpa using hnot

theorem last_of_trim (s : Text) : ∀ u ∈ (trim s).getLast?, isSpace u = false := by
  intro u hu
  have hne : trim s ≠ [] := by
    intro hnil
    rw [hnil] at hu
    cases hu
  rw [List.getLast?_eq_some_getLast hne] at hu
  obtain rfl := Option.some.inj hu
  exact last_trim hne

theorem trim_of_ends {s : Text} (hhead : ∀ u ∈ s.head?, isSpace u = false) (hlast : ∀ u ∈ s.getLast?, isSpace u = false) :
    trim s = s := by
  have hdrop : s.dropWhile isSpace = s := by
    cases s with
    | nil => rfl
    | cons u s => exact List.dropWhile_cons_of_neg (by simp [hhead u rfl])
  rw [trim, hdrop, List.rdropWhile_eq_self_iff]
  intro hne
  simp [hlast _ (List.getLast?_eq_some_getLast hne)]

theorem trim_trim (s : Text) : trim (trim s) = trim s := trim_of_ends (head_of_trim s) (last_of_trim s)

/-- What is trimmed away. -/
theorem eq_append_trim (s : Text) : ∃ a b : Text, s = a ++ trim s ++ b ∧ (∀ u ∈ a, isSpace u = true) ∧ ∀ u ∈ b, isSpace u = true := by
  refine ⟨s.takeWhile isSpace, (s.dropWhile isSpace).rtakeWhile isSpace, ?_, fun u hu => List.mem_takeWhile_imp hu,
    fun u hu => List.mem_rtakeWhile_imp hu⟩
  rw [trim, List.append_assoc, List.rdropWhile_append_rtakeWhile, List.takeWhile_append_dropWhile]

theorem rdropWhile_append {p : UInt16 → Bool} {b : Text} (hb : ∀ u ∈ b, p u = true) (s : Text) :
    (s ++ b).rdropWhile p = s.rdropWhile p := by
  unfold List.rdropWhile
  rw [List.reverse_append, List.dropWhile_append_of_pos fun u hu => hb u (List.mem_reverse.1 hu)]

/-- White space at the ends makes no difference. -/
theorem trim_append {a b : Text} (ha : ∀ u ∈ a, isSpace u = true) (hb : ∀ u ∈ b, isSpace u = true) (s : Text) :
    trim (a ++ s ++ b) = trim s := by
  rw [trim, List.append_assoc, List.dropWhile_append_of_pos ha, trim]
  by_cases hs : ∀ u ∈ s, isSpace u = true
  · rw [List.dropWhile_eq_nil_iff.2 hs, List.dropWhile_eq_nil_iff.2]
    intro u hu
    rcases List.mem_append.1 hu with hu | hu
    · exact hs u hu
    · exact hb u hu
  · have hne : s.dropWhile isSpace ≠ [] := fun hnil => hs (List.dropWhile_eq_nil_iff.1 hnil)
    rw [List.dropWhile_append, if_neg (by simpa using hne), rdropWhile_append hb]

/-- The end of a trimmed text, without the white space before it. -/
theorem trim_suffix {s t : Text} (h : t <:+ trim s) : trim t <:+ trim s := by
  have hlast : ∀ u ∈ t.getLast?, isSpace u = false := by
    intro u hu
    obtain ⟨front, hfront⟩ := h
    refine last_of_trim s u ?_
    rw [← hfront, List.getLast?_append, hu]
    rfl
  have hdrop : trim t = t.dropWhile isSpace := by
    rw [trim, List.rdropWhile_eq_self_iff]
    intro hne
    have hend := List.getLast?_eq_some_getLast hne
    obtain ⟨front, hfront⟩ := List.dropWhile_suffix isSpace (l := t)
    rw [Bool.not_eq_true]
    refine hlast _ ?_
    conv_lhs => rw [← hfront]
    rw [List.getLast?_append, hend]
    rfl
  rw [hdrop]
  exact (List.dropWhile_suffix _).trans h

/-- A part that begins with something else lies behind the white space. -/
theorem isInfix_of_append {a p s : Text} (ha : ∀ u ∈ a, isSpace u = true) (hhead : ∃ u ∈ p.head?, isSpace u = false)
    (h : p <:+: a ++ s) : p <:+: s := by
  induction a with
  | nil => exact h
  | cons u a ih =>
    refine ih (fun v hv => ha v (List.mem_cons_of_mem _ hv)) ?_
    rcases List.infix_cons_iff.1 h with hbegin | hinfix
    · obtain ⟨v, hv, hspace⟩ := hhead
      obtain ⟨t, ht⟩ := hbegin
      cases p with
      | nil => cases hv
      | cons w p =>
        obtain rfl := Option.some.inj hv
        rw [List.cons_append] at ht
        rw [(List.cons.inj ht).1, ha u List.mem_cons_self] at hspace
        cases hspace
    · exact hinfix

theorem isInfix_trim_iff {p s : Text} (hhead : ∃ u ∈ p.head?, isSpace u = false) (hlast : ∃ u ∈ p.getLast?, isSpace u = false) :
    p <:+: trim s ↔ p <:+: s := by
  constructor
  · exact fun h => h.trans (isInfix_trim s)
  · intro h
    obtain ⟨a, b, hs, ha, hb⟩ := eq_append_trim s
    rw [hs, List.append_assoc] at h
    have hfront := isInfix_of_append ha hhead h
    have hback := isInfix_of_append (a := b.reverse) (p := p.reverse) (s := (trim s).reverse)
      (fun u hu => hb u (List.mem_reverse.1 hu)) (by rwa [List.head?_reverse]) (by
        rw [← List.reverse_append]
        exact List.reverse_infix.2 hfront)
    exact List.reverse_infix.1 hback

end LlmGateway.Lib.Utf16
