import LlmGateway.Lib.Regex

/-!
# Global replacement

* `atLeast`, `optional`, `taken`, `boundary` — further patterns, with what they capture;
* `replaceAll` — the matches of a pattern with the flag `g`, from left to right, each replaced.
-/

namespace LlmGateway.Lib.Regex

variable {α β : Type*}

/-- `p{n,}` -/
def atLeast (n : ℕ) (p : α → Bool) : Pattern α (List α) := fun s => (star p s).filter fun r => decide (n ≤ r.1.length)

/-- `p?` -/
def optional (p : α → Bool) : Pattern α (List α) := alt (seq (unit p) fun a => here true [a]) (here true [])

/-- The elements of a word, captured. -/
def taken : List (α → Bool) → Pattern α (List α)
  | [] => here true []
  | p :: ps => seq (unit p) fun a => seq (taken ps) fun s => here true (a :: s)

/-- `\b` behind the element `before`, where `p` is `\w`. -/
def boundary (p : α → Bool) (before : Option α) : Pattern α Unit := fun s =>
  if before.any p == s.head?.any p then [] else [((), s)]

/-- What follows, behind an element `before`; the match that was replaced last has `skip` elements more. -/
def replaceFrom (m : Option α → Pattern α β) (f : β → List α) : ℕ → Option α → List α → List α
  | _, _, [] => []
  | skip + 1, _, a :: s => replaceFrom m f skip (some a) s
  | 0, before, a :: s =>
    match first (m before) (a :: s) with
    | some (x, rest) => f x ++ replaceFrom m f (s.length - rest.length) (some a) s
    | none => a :: replaceFrom m f 0 (some a) s

/-- The global replacement for a pattern without empty matches. -/
def replaceAll (m : Option α → Pattern α β) (f : β → List α) (s : List α) : List α := replaceFrom m f 0 none s

/-! ### Matches that there are -/

theorem unit_mem {p : α → Bool} {a : α} (h : p a = true) (s : List α) : (a, s) ∈ unit p (a :: s) := by
  rw [unit, if_pos h]
  exact List.mem_singleton_self _

theorem star_mem {p : α → Bool} {w : List α} (h : ∀ a ∈ w, p a = true) (s : List α) : (w, s) ∈ star p (w ++ s) := by
  induction w with
  | nil =>
    cases s with
    | nil => exact List.mem_singleton_self _
    | cons b s =>
      rw [List.nil_append, star]
      split
      · exact List.mem_append_right _ (List.mem_singleton_self _)
      · exact List.mem_singleton_self _
  | cons a w ih =>
    have hrest := ih fun b hb => h b (List.mem_cons_of_mem _ hb)
    rw [List.cons_append, star, if_pos (h a List.mem_cons_self)]
    exact List.mem_append_left _ (List.mem_map.2 ⟨_, hrest, rfl⟩)

theorem plus_mem {p : α → Bool} {w : List α} (hne : w ≠ []) (h : ∀ a ∈ w, p a = true) (s : List α) : (w, s) ∈ plus p (w ++ s) :=
  List.mem_filter.2 ⟨star_mem h s, by simpa using hne⟩

end LlmGateway.Lib.Regex
