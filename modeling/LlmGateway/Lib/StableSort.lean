import Mathlib.Data.List.Sort

/-!
# Stable sorting

`List.mergeSort` by a total preorder: it is determined by the entries alone where no two of them tie, and keeping some of the
entries before or after it is the same.
-/

namespace LlmGateway.Lib

variable {α : Type*} {le : α → α → Bool}

/-- Two lists of the same entries are the same sorted, where entries that tie are the same entry. -/
theorem mergeSort_perm_eq (trans : ∀ a b c, le a b → le b c → le a c) (total : ∀ a b, le a b || le b a) {l l' : List α}
    (hperm : l.Perm l') (hanti : ∀ a ∈ l, ∀ b ∈ l, le a b → le b a → a = b) : l.mergeSort le = l'.mergeSort le := by
  have hsorted : (l.mergeSort le).Perm (l'.mergeSort le) :=
    (List.mergeSort_perm l le).trans (hperm.trans (List.mergeSort_perm l' le).symm)
  apply List.Perm.eq_of_pairwise _ (List.pairwise_mergeSort trans total l) (List.pairwise_mergeSort trans total l') hsorted
  intro a b ha hb
  apply hanti a (List.mem_mergeSort.1 ha) b
  exact hperm.mem_iff.2 (List.mem_mergeSort.1 hb)

/-- A list is cut in one place only, if what stands before the cut fails `q` and what stands behind it has it. -/
theorem append_inj_of_cut {q : α → Bool} {l₁ l₂ m₁ m₂ : List α} (h : l₁ ++ l₂ = m₁ ++ m₂) (hl₁ : ∀ a ∈ l₁, q a = false)
    (hl₂ : ∀ a ∈ l₂, q a = true) (hm₁ : ∀ a ∈ m₁, q a = false) (hm₂ : ∀ a ∈ m₂, q a = true) : l₁ = m₁ ∧ l₂ = m₂ := by
  have hfilter := congrArg (List.filter fun a => !q a) h
  have hkeep : ∀ {k : List α}, (∀ a ∈ k, q a = false) → k.filter (fun a => !q a) = k := by
    intro k hk
    apply List.filter_eq_self.2
    intro a ha
    simp [hk a ha]
  have hdrop : ∀ {k : List α}, (∀ a ∈ k, q a = true) → k.filter (fun a => !q a) = [] := by
    intro k hk
    apply List.filter_eq_nil_iff.2
    intro a ha
    simp [hk a ha]
  rw [List.filter_append, List.filter_append, hkeep hl₁, hkeep hm₁, hdrop hl₂, hdrop hm₂, List.append_nil,
    List.append_nil] at hfilter
  subst hfilter
  exact ⟨rfl, List.append_cancel_left h⟩

/-- The entry goes to the place where the entries behind it are no less. -/
theorem mergeSort_cons_cut (trans : ∀ a b c, le a b → le b c → le a c) (total : ∀ a b, le a b || le b a) (a : α) (l : List α) :
    ∃ l₁ l₂, (a :: l).mergeSort le = l₁ ++ a :: l₂ ∧ l.mergeSort le = l₁ ++ l₂ ∧ (∀ b ∈ l₁, le a b = false) ∧
      ∀ b ∈ l₂, le a b = true := by
  obtain ⟨l₁, l₂, hcons, htail, hbefore⟩ := List.mergeSort_cons trans total a l
  refine ⟨l₁, l₂, hcons, htail, ?_, ?_⟩
  · intro b hb
    simpa using hbefore b hb
  · intro b hb
    have hsorted := List.pairwise_mergeSort trans total (a :: l)
    rw [hcons] at hsorted
    exact List.rel_of_pairwise_cons (List.pairwise_append.1 hsorted).2.1 hb

/-- **Sorting what is kept is keeping of what is sorted.** -/
theorem filter_mergeSort (trans : ∀ a b c, le a b → le b c → le a c) (total : ∀ a b, le a b || le b a) (p : α → Bool)
    (l : List α) : (l.mergeSort le).filter p = (l.filter p).mergeSort le := by
  induction l with
  | nil => simp
  | cons a l ih =>
    obtain ⟨l₁, l₂, hcons, htail, hbefore, hbehind⟩ := mergeSort_cons_cut trans total a l
    rw [htail, List.filter_append] at ih
    rw [hcons, List.filter_append]
    by_cases hp : p a = true
    · obtain ⟨m₁, m₂, hcons', htail', hbefore', hbehind'⟩ := mergeSort_cons_cut trans total a (l.filter p)
      have hcut := append_inj_of_cut (ih.trans htail') (fun b hb => hbefore b (List.mem_filter.1 hb).1)
        (fun b hb => hbehind b (List.mem_filter.1 hb).1) hbefore' hbehind'
      rw [List.filter_cons_of_pos hp, List.filter_cons_of_pos hp, hcons', hcut.1, hcut.2]
    · rw [List.filter_cons_of_neg hp, List.filter_cons_of_neg hp, ih]

end LlmGateway.Lib
