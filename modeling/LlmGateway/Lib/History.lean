import Mathlib.Tactic.Common

/-!
# Histories

A history is a list of entries that grows at its end.  `Justified P` says that every entry is justified by the entries before it.
-/

namespace LlmGateway.Lib

variable {α : Type*}

/-- Every entry `x` satisfies `P pre x`, where `pre` are the entries before it. -/
def Justified (P : List α → α → Prop) (history : List α) : Prop := ∀ pre x post, history = pre ++ x :: post → P pre x

variable {P : List α → α → Prop} {history : List α} {x : α}

theorem justified_nil : Justified P [] := by
  intro pre x post h
  simp at h

theorem justified_concat : Justified P (history ++ [x]) ↔ Justified P history ∧ P history x := by
  constructor
  · intro h
    constructor
    · intro pre y post hsplit
      apply h pre y (post ++ [x])
      rw [hsplit, List.append_assoc, List.cons_append]
    · exact h history x [] rfl
  · rintro ⟨h, hx⟩ pre y post hsplit
    rcases List.eq_nil_or_concat post with rfl | ⟨post, z, rfl⟩
    · obtain ⟨rfl, hxy⟩ := List.append_inj' hsplit rfl
      cases hxy
      exact hx
    · rw [List.concat_eq_append, ← List.cons_append, ← List.append_assoc] at hsplit
      obtain ⟨hhistory, -⟩ := List.append_inj' hsplit rfl
      exact h pre y post hhistory

theorem Justified.of_mem (h : Justified P history) (hx : x ∈ history) : ∃ pre post, history = pre ++ x :: post ∧ P pre x := by
  obtain ⟨pre, post, hsplit⟩ := List.append_of_mem hx
  exact ⟨pre, post, hsplit, h pre x post hsplit⟩

end LlmGateway.Lib
