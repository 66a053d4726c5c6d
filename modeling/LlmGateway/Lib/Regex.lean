import Mathlib.Tactic.Common
import Mathlib.Data.List.Basic

/-!
# Matches of regular expressions

A `Pattern` gives, at a position of a text, its matches there in the order in which a backtracking matcher tries them: each
with what it captures and with the rest of the text.

* `unit`, `star`, `plus`, `seq`, `alt`, `many` — the patterns; `star`, `plus` and `many` are greedy;
* `first` — the match that is taken at a position; `search`, `searchAfter` — the leftmost match of a text;
* `first_seq`, `search_spec`, `searchAfter_spec`, `searchAfter_eq_none` — where a match that is taken comes from;
* `mem_seq`, `mem_star`, `mem_many`, `mem_word_iff` — what the matches are, in any order.
-/

namespace LlmGateway.Lib.Regex

variable {α β γ : Type*}

abbrev Pattern (α β : Type*) := List α → List (β × List α)

/-- One element. -/
def unit (p : α → Bool) : Pattern α α
  | [] => []
  | a :: s => if p a then [(a, s)] else []

def star (p : α → Bool) : Pattern α (List α)
  | [] => [([], [])]
  | a :: s => if p a then (star p s).map (fun r => (a :: r.1, r.2)) ++ [([], a :: s)] else [([], a :: s)]

def plus (p : α → Bool) : Pattern α (List α) := fun s => (star p s).filter fun r => !r.1.isEmpty

def seq (m : Pattern α β) (f : β → Pattern α γ) : Pattern α γ := fun s => (m s).flatMap fun r => f r.1 r.2

def alt (m n : Pattern α β) : Pattern α β := fun s => m s ++ n s

/-- It matches the empty text, if `b`. -/
def here (b : Bool) (x : β) : Pattern α β := fun s => if b then [(x, s)] else []

/-- The text that is not followed by an element with `p`. -/
def notAhead (p : α → Bool) : Pattern α Unit := fun s => if s.head?.any p then [] else [((), s)]

/-- The elements of a word, one pattern for each. -/
def word (ps : List (α → Bool)) : Pattern α Unit :=
  match ps with
  | [] => here true ()
  | p :: ps => seq (unit p) fun _ => word ps

/-- A pattern that takes an element each time, again and again: `n` times at most. -/
def many (m : Pattern α (List α)) : ℕ → Pattern α (List α)
  | 0 => here true []
  | n + 1 => alt (seq m fun x => seq (many m n) fun y => here true (x ++ y)) (here true [])

/-- The match that is taken. -/
def first (m : Pattern α β) (s : List α) : Option (β × List α) := (m s).head?

/-- The leftmost match; `m` is told whether it is at the start of the text. -/
def search (m : Bool → Pattern α β) : Bool → List α → Option β
  | start, [] => (first (m start) []).map Prod.fst
  | start, a :: s =>
    match first (m start) (a :: s) with
    | some r => some r.1
    | none => search m false s

/-- The leftmost match; `m` is told the element before it. -/
def searchAfter (m : Option α → Pattern α β) : Option α → List α → Option β
  | before, [] => (first (m before) []).map Prod.fst
  | before, a :: s =>
    match first (m before) (a :: s) with
    | some r => some r.1
    | none => searchAfter m (some a) s

/-! ### Matches that are taken -/

theorem first_seq {m : Pattern α β} {f : β → Pattern α γ} {s : List α} {r : γ × List α} (h : first (seq m f) s = some r) :
    ∃ q ∈ m s, first (f q.1) q.2 = some r := by
  unfold first seq at h
  generalize m s = l at h ⊢
  induction l with
  | nil => cases h
  | cons q qs ih =>
    rw [List.flatMap_cons, List.head?_append] at h
    cases hq : (f q.1 q.2).head? with
    | some r' =>
      rw [hq] at h
      exact ⟨q, List.mem_cons_self, hq.trans h⟩
    | none =>
      rw [hq] at h
      obtain ⟨q', hq', hr⟩ := ih h
      exact ⟨q', List.mem_cons_of_mem _ hq', hr⟩

/-- What a greedy `star` takes first. -/
theorem first_star (p : α → Bool) (s : List α) : first (star p) s = some (s.takeWhile p, s.dropWhile p) := by
  unfold first
  induction s with
  | nil => rfl
  | cons a s ih =>
    unfold star
    split
    · next ha =>
      rw [List.head?_append, List.head?_map, ih, List.takeWhile_cons_of_pos ha, List.dropWhile_cons_of_pos ha]
      rfl
    · next ha =>
      rw [List.takeWhile_cons_of_neg ha, List.dropWhile_cons_of_neg ha]
      rfl

theorem first_plus {p : α → Bool} {a : α} {s : List α} (ha : p a = true) :
    first (plus p) (a :: s) = some (a :: s.takeWhile p, s.dropWhile p) := by
  have hstar := first_star p (a :: s)
  rw [List.takeWhile_cons_of_pos ha, List.dropWhile_cons_of_pos ha] at hstar
  unfold first plus
  obtain ⟨l, hl⟩ := List.head?_eq_some_iff.1 hstar
  rw [hl, List.filter_cons_of_pos (by simp), List.head?_cons]

/-- **Greed.**  The `star` takes all it can, when what follows it matches there. -/
theorem first_star_seq {p : α → Bool} {f : List α → Pattern α γ} {s : List α} {r : γ × List α}
    (h : first (f (s.takeWhile p)) (s.dropWhile p) = some r) : first (seq (star p) f) s = some r := by
  obtain ⟨l, hl⟩ := List.head?_eq_some_iff.1 (first_star p s)
  unfold first seq
  rw [hl, List.flatMap_cons, List.head?_append, show (f (s.takeWhile p) (s.dropWhile p)).head? = some r from h]
  rfl

/-! ### All matches -/

theorem mem_seq {m : Pattern α β} {f : β → Pattern α γ} {s : List α} {r : γ × List α} :
    r ∈ seq m f s ↔ ∃ q ∈ m s, r ∈ f q.1 q.2 := List.mem_flatMap

theorem mem_here {b : Bool} {x : β} {s : List α} {r : β × List α} (h : r ∈ here b x s) : b = true ∧ r = (x, s) := by
  unfold here at h
  split at h
  · next hb => exact ⟨hb, List.mem_singleton.1 h⟩
  · cases h

theorem mem_unit {p : α → Bool} {s : List α} {r : α × List α} (h : r ∈ unit p s) : s = r.1 :: r.2 ∧ p r.1 = true := by
  cases s with
  | nil => cases h
  | cons a s =>
    by_cases ha : p a = true
    · rw [unit, if_pos ha] at h
      obtain rfl := List.mem_singleton.1 h
      exact ⟨rfl, ha⟩
    · rw [unit, if_neg ha] at h
      cases h

theorem mem_star {p : α → Bool} {s : List α} {r : List α × List α} (h : r ∈ star p s) :
    s = r.1 ++ r.2 ∧ ∀ a ∈ r.1, p a = true := by
  induction s generalizing r with
  | nil =>
    obtain rfl := List.mem_singleton.1 h
    exact ⟨rfl, fun a ha => absurd ha List.not_mem_nil⟩
  | cons a s ih =>
    unfold star at h
    split at h
    · next ha =>
      rcases List.mem_append.1 h with h | h
      · obtain ⟨q, hq, rfl⟩ := List.mem_map.1 h
        obtain ⟨hs, hall⟩ := ih hq
        refine ⟨congrArg (a :: ·) hs, fun b hb => ?_⟩
        rcases List.mem_cons.1 hb with rfl | hb
        · exact ha
        · exact hall b hb
      · obtain rfl := List.mem_singleton.1 h
        exact ⟨rfl, fun b hb => absurd hb List.not_mem_nil⟩
    · obtain rfl := List.mem_singleton.1 h
      exact ⟨rfl, fun b hb => absurd hb List.not_mem_nil⟩

theorem mem_plus {p : α → Bool} {s : List α} {r : List α × List α} (h : r ∈ plus p s) :
    s = r.1 ++ r.2 ∧ ∀ a ∈ r.1, p a = true := mem_star (List.mem_filter.1 h).1

theorem append_mem_star {p : α → Bool} {x : List α} (hx : ∀ a ∈ x, p a = true) (y : List α) : (x, y) ∈ star p (x ++ y) := by
  induction x with
  | nil =>
    cases y with
    | nil => exact List.mem_singleton_self _
    | cons a y =>
      rw [List.nil_append, star]
      split
      · exact List.mem_append_right _ (List.mem_singleton_self _)
      · exact List.mem_singleton_self _
  | cons a x ih =>
    rw [List.cons_append, star, if_pos (hx a List.mem_cons_self)]
    exact List.mem_append_left _ (List.mem_map_of_mem (ih fun b hb => hx b (List.mem_cons_of_mem _ hb)))

theorem cons_mem_plus {p : α → Bool} {a : α} (ha : p a = true) (s : List α) : ([a], s) ∈ plus p (a :: s) :=
  List.mem_filter.2 ⟨append_mem_star (fun b hb => by rwa [List.mem_singleton.1 hb]) s, rfl⟩

/-- A word is matched by elements that are like its own. -/
theorem mem_word_iff {ps : List (α → Bool)} {s : List α} {r : Unit × List α} :
    r ∈ word ps s ↔ ∃ w, s = w ++ r.2 ∧ List.Forall₂ (fun p a => p a = true) ps w := by
  induction ps generalizing s with
  | nil =>
    constructor
    · intro h
      obtain ⟨-, rfl⟩ := mem_here h
      exact ⟨[], rfl, .nil⟩
    · rintro ⟨w, rfl, hw⟩
      cases hw
      exact List.mem_singleton.2 rfl
  | cons p ps ih =>
    rw [word, mem_seq]
    constructor
    · rintro ⟨q, hq, hr⟩
      obtain ⟨rfl, hp⟩ := mem_unit hq
      obtain ⟨w, hw, hall⟩ := ih.1 hr
      exact ⟨q.1 :: w, congrArg (q.1 :: ·) hw, .cons hp hall⟩
    · rintro ⟨w, rfl, hw⟩
      cases hw with
      | cons hp hall => exact ⟨_, by rw [List.cons_append, unit, if_pos hp]; exact List.mem_singleton.2 rfl, ih.2 ⟨_, rfl, hall⟩⟩

/-- What is matched again and again is a sequence of such matches. -/
theorem mem_many {m : Pattern α (List α)} {C : List α → Prop} (hnil : C [])
    (hm : ∀ s, ∀ r ∈ m s, s = r.1 ++ r.2 ∧ ∀ t, C t → C (r.1 ++ t)) {n : ℕ} {s : List α} {r : List α × List α}
    (h : r ∈ many m n s) : s = r.1 ++ r.2 ∧ C r.1 := by
  induction n generalizing s r with
  | zero =>
    obtain ⟨-, rfl⟩ := mem_here h
    exact ⟨rfl, hnil⟩
  | succ n ih =>
    rcases List.mem_append.1 h with h | h
    · obtain ⟨q, hq, h⟩ := mem_seq.1 h
      obtain ⟨q', hq', h⟩ := mem_seq.1 h
      obtain ⟨-, rfl⟩ := mem_here h
      obtain ⟨hs, hstep⟩ := hm s q hq
      obtain ⟨hs', hrest⟩ := ih hq'
      exact ⟨by rw [hs, hs', List.append_assoc], hstep _ hrest⟩
    · obtain ⟨-, rfl⟩ := mem_here h
      exact ⟨rfl, hnil⟩

/-- There is a match somewhere. -/
theorem isSome_search_iff {m : Pattern α β} {start : Bool} {s : List α} :
    (search (fun _ => m) start s).isSome = true ↔ ∃ t, t <:+ s ∧ m t ≠ [] := by
  induction s generalizing start with
  | nil =>
    rw [search, Option.isSome_map, first, List.isSome_head?]
    constructor
    · exact fun h => ⟨[], List.suffix_rfl, by simpa using h⟩
    · rintro ⟨t, ht, hne⟩
      rw [List.suffix_nil.1 ht] at hne
      simpa using hne
  | cons a s ih =>
    unfold search
    split
    · next r hr =>
      refine ⟨fun _ => ⟨a :: s, List.suffix_rfl, fun hnil => ?_⟩, fun _ => rfl⟩
      rw [first, hnil] at hr
      cases hr
    · next hnone =>
      rw [ih]
      constructor
      · rintro ⟨t, ht, hne⟩
        exact ⟨t, ht.trans (List.suffix_cons a s), hne⟩
      · rintro ⟨t, ht, hne⟩
        rcases List.suffix_cons_iff.1 ht with rfl | ht
        · exact absurd (List.head?_eq_none_iff.1 hnone) hne
        · exact ⟨t, ht, hne⟩

/-- A word is found where it stands. -/
theorem isSome_search_word_iff {ps : List (α → Bool)} {start : Bool} {s : List α} :
    (search (fun _ => word ps) start s).isSome = true ↔ ∃ w, w <:+: s ∧ List.Forall₂ (fun p a => p a = true) ps w := by
  rw [isSome_search_iff]
  constructor
  · rintro ⟨t, ⟨front, hfront⟩, hne⟩
    obtain ⟨r, hr⟩ := List.exists_mem_of_ne_nil _ hne
    obtain ⟨w, hw, hall⟩ := mem_word_iff.1 hr
    exact ⟨w, ⟨front, r.2, by rw [List.append_assoc, ← hw, hfront]⟩, hall⟩
  · rintro ⟨w, ⟨front, back, hs⟩, hall⟩
    refine ⟨w ++ back, ⟨front, by rw [← List.append_assoc, hs]⟩, List.ne_nil_of_mem (a := ((), back)) ?_⟩
    exact mem_word_iff.2 ⟨w, rfl, hall⟩

/-- The rest of a match is an end of the text. -/
def Ends (m : Pattern α β) : Prop := ∀ s, ∀ r ∈ m s, r.2 <:+ s

theorem ends_unit (p : α → Bool) : Ends (unit p) := by
  intro s r hr
  cases s with
  | nil => cases hr
  | cons a s =>
    by_cases ha : p a
    · simp only [unit, ha, if_true, List.mem_singleton] at hr
      rw [hr]
      exact List.suffix_cons a s
    · simp [unit, ha] at hr

theorem ends_star (p : α → Bool) : Ends (star p) := by
  intro s
  induction s with
  | nil =>
    intro r hr
    obtain rfl := List.mem_singleton.1 hr
    exact List.suffix_rfl
  | cons a s ih =>
    intro r hr
    unfold star at hr
    split at hr
    · rcases List.mem_append.1 hr with hr | hr
      · obtain ⟨q, hq, rfl⟩ := List.mem_map.1 hr
        exact (ih q hq).trans (List.suffix_cons a s)
      · obtain rfl := List.mem_singleton.1 hr
        exact List.suffix_rfl
    · obtain rfl := List.mem_singleton.1 hr
      exact List.suffix_rfl

theorem ends_here (b : Bool) (x : β) : Ends (here b x : Pattern α β) := by
  intro s r hr
  unfold here at hr
  split at hr
  · obtain rfl := List.mem_singleton.1 hr
    exact List.suffix_rfl
  · cases hr

theorem Ends.alt {m n : Pattern α β} (hm : Ends m) (hn : Ends n) : Ends (alt m n) := by
  intro s r hr
  rcases List.mem_append.1 hr with hr | hr
  · exact hm s r hr
  · exact hn s r hr

theorem Ends.seq {m : Pattern α β} {f : β → Pattern α γ} (hm : Ends m) (hf : ∀ x, Ends (f x)) : Ends (seq m f) := by
  intro s r hr
  obtain ⟨q, hq, hr⟩ := List.mem_flatMap.1 hr
  exact (hf q.1 q.2 r hr).trans (hm s q hq)

theorem ends_word (ps : List (α → Bool)) : Ends (word ps) := by
  induction ps with
  | nil => exact ends_here true ()
  | cons p ps ih => exact (ends_unit p).seq fun _ => ih

/-- **Where the leftmost match is taken**: at an end of the text. -/
theorem search_spec {m : Bool → Pattern α β} {start : Bool} {s : List α} {x : β} (h : search m start s = some x) :
    ∃ b t, t <:+ s ∧ ∃ r, first (m b) t = some (x, r) := by
  induction s generalizing start with
  | nil =>
    obtain ⟨r, hr, rfl⟩ := Option.map_eq_some_iff.1 h
    exact ⟨start, [], List.suffix_rfl, r.2, hr⟩
  | cons a s ih =>
    unfold search at h
    split at h
    · next r hr =>
      cases h
      exact ⟨start, a :: s, List.suffix_rfl, r.2, hr⟩
    · obtain ⟨b, t, ht, hr⟩ := ih h
      exact ⟨b, t, ht.trans (List.suffix_cons a s), hr⟩

/-- What stands before a position of a text that goes on after `before`. -/
theorem getLast?_cons_or (a : α) (front : List α) (before : Option α) :
    (a :: front).getLast?.or before = front.getLast?.or (some a) := by
  rw [List.getLast?_cons]
  cases front.getLast? <;> rfl

theorem searchAfter_spec {m : Option α → Pattern α β} {before : Option α} {s : List α} {x : β}
    (h : searchAfter m before s = some x) :
    ∃ front t, s = front ++ t ∧ ∃ r, first (m (front.getLast?.or before)) t = some (x, r) := by
  induction s generalizing before with
  | nil =>
    obtain ⟨r, hr, rfl⟩ := Option.map_eq_some_iff.1 h
    exact ⟨[], [], rfl, r.2, hr⟩
  | cons a s ih =>
    unfold searchAfter at h
    split at h
    · next r hr =>
      cases h
      exact ⟨[], a :: s, rfl, r.2, hr⟩
    · obtain ⟨front, t, rfl, hr⟩ := ih h
      exact ⟨a :: front, t, rfl, by rwa [getLast?_cons_or]⟩

/-- Where nothing is found, there is no match at all. -/
theorem searchAfter_eq_none {m : Option α → Pattern α β} {before : Option α} {front t : List α}
    (h : searchAfter m before (front ++ t) = none) : m (front.getLast?.or before) t = [] := by
  induction front generalizing before with
  | nil =>
    cases t with
    | nil => exact List.head?_eq_none_iff.1 (Option.map_eq_none_iff.1 h)
    | cons a t =>
      rw [List.nil_append, searchAfter] at h
      split at h
      · cases h
      · next hnone => exact List.head?_eq_none_iff.1 hnone
  | cons a front ih =>
    rw [List.cons_append, searchAfter] at h
    split at h
    · cases h
    · rw [getLast?_cons_or]
      exact ih h

end LlmGateway.Lib.Regex
