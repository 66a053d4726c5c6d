import Mathlib.Data.List.Basic
import Mathlib.Order.Lattice

/-!
# The latest of a list

* `latest later l` — the element a loop keeps that replaces its best so far by every later one;
* `latest_spec` — it is an element with the greatest key, when `later` compares keys.
-/

namespace LlmGateway.Lib

variable {α β : Type*}

/-- One turn of the loop. -/
def keepLater (later : α → α → Bool) (best : Option α) (a : α) : Option α :=
  match best with
  | none => some a
  | some b => if later a b then some a else some b

def latest (later : α → α → Bool) (l : List α) : Option α := l.foldl (keepLater later) none

theorem foldl_keepLater_mem {later : α → α → Bool} {l : List α} {b c : α}
    (h : l.foldl (keepLater later) (some b) = some c) : c ∈ b :: l := by
  induction l generalizing b with
  | nil =>
    cases h
    exact List.mem_cons_self
  | cons a l ih =>
    rw [List.foldl_cons, keepLater] at h
    split at h
    · exact List.mem_cons_of_mem b (ih h)
    · rcases List.mem_cons.1 (ih h) with rfl | hc
      · exact List.mem_cons_self
      · simp [hc]

theorem latest_mem {later : α → α → Bool} {l : List α} {c : α} (h : latest later l = some c) : c ∈ l := by
  cases l with
  | nil => cases h
  | cons b l => exact foldl_keepLater_mem h

variable [LinearOrder β] {key : α → β} {later : α → α → Bool}

theorem foldl_keepLater {l : List α} {b : α} (h : ∀ x ∈ b :: l, ∀ y ∈ b :: l, later x y = true ↔ key y < key x) :
    ∃ c ∈ b :: l, l.foldl (keepLater later) (some b) = some c ∧ ∀ x ∈ b :: l, key x ≤ key c := by
  induction l generalizing b with
  | nil => exact ⟨b, List.mem_cons_self, rfl, fun x hx => by rw [List.mem_singleton.1 hx]⟩
  | cons a l ih =>
    have hab := h a (by simp) b (by simp)
    rw [List.foldl_cons, keepLater]
    by_cases hlater : later a b = true
    · rw [if_pos hlater]
      obtain ⟨c, hc, he, hmax⟩ := ih (b := a) fun x hx y hy => h x (List.mem_cons_of_mem b hx) y
        (List.mem_cons_of_mem b hy)
      refine ⟨c, List.mem_cons_of_mem b hc, he, fun x hx => ?_⟩
      rcases List.mem_cons.1 hx with rfl | hx
      · exact le_trans (le_of_lt (hab.1 hlater)) (hmax a List.mem_cons_self)
      · exact hmax x hx
    · rw [if_neg hlater]
      have hsub : ∀ x ∈ b :: l, x ∈ b :: a :: l := by
        intro x hx
        rcases List.mem_cons.1 hx with rfl | hx
        · exact List.mem_cons_self
        · simp [hx]
      obtain ⟨c, hc, he, hmax⟩ := ih (b := b) fun x hx y hy => h x (hsub x hx) y (hsub y hy)
      refine ⟨c, hsub c hc, he, fun x hx => ?_⟩
      rcases List.mem_cons.1 hx with rfl | hx
      · exact hmax x List.mem_cons_self
      · rcases List.mem_cons.1 hx with rfl | hx
        · exact le_trans (not_lt.1 fun hlt => hlater (hab.2 hlt)) (hmax b List.mem_cons_self)
        · exact hmax x (List.mem_cons_of_mem b hx)

theorem latest_spec {l : List α} (h : ∀ x ∈ l, ∀ y ∈ l, later x y = true ↔ key y < key x) :
    l = [] ∧ latest later l = none ∨ ∃ c ∈ l, latest later l = some c ∧ ∀ x ∈ l, key x ≤ key c := by
  cases l with
  | nil => exact Or.inl ⟨rfl, rfl⟩
  | cons b l => exact Or.inr (foldl_keepLater h)

/-- **Two loops over the same elements** keep the same one, when no two of the elements have equal keys. -/
theorem latest_perm (key : α → β) {l l' : List α} {later' : α → α → Bool} (hp : l.Perm l')
    (h : ∀ x ∈ l, ∀ y ∈ l, later x y = true ↔ key y < key x)
    (h' : ∀ x ∈ l, ∀ y ∈ l, later' x y = true ↔ key y < key x)
    (hkey : ∀ x ∈ l, ∀ y ∈ l, key x = key y → x = y) : latest later l = latest later' l' := by
  have hmem : ∀ x, x ∈ l' → x ∈ l := fun x hx => hp.mem_iff.2 hx
  rcases latest_spec h with ⟨rfl, he⟩ | ⟨c, hc, he, hmax⟩
  · rw [List.nil_perm.1 hp]
    rfl
  · rcases latest_spec (l := l') fun x hx y hy => h' x (hmem x hx) y (hmem y hy) with ⟨rfl, -⟩ | ⟨d, hd, he', hmax'⟩
    · rw [List.perm_nil.1 hp] at hc
      cases hc
    · have hcd := hkey c hc d (hmem d hd) (le_antisymm (hmax' c (hp.mem_iff.1 hc)) (hmax d (hmem d hd)))
      rw [he, he', hcd]

end LlmGateway.Lib
