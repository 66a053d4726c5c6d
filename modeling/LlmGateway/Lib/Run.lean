import Mathlib.Tactic.Common
import Mathlib.Data.List.Induction

/-!
# Runs of a deterministic system

A system is a step function `step : σ → ι → σ × ω`: from a state and an input, the next state and an output.

* `final step s is` — the state after the inputs `is`;
* `outputs step s is` — the outputs along the way;
* `Along step C s is` — every step of the run satisfies `C`, at the state it is taken from;
* `final_induction`, `final_induction_along` — an invariant of the step is an invariant of the run;
* `history_induction`, `trace_induction` — the same for a relation of the state to the inputs or outputs so far;
* `throughout_iff_along`, `throughout_iff_of_invariant`, `along_iff_of_invariant` — a property of all states or steps of a run, as
  the condition on its steps that is exact for it.
-/

namespace LlmGateway.Lib.Run

variable {σ ι ω : Type*} (step : σ → ι → σ × ω)

/-- The state after the inputs `is`. -/
def final (s : σ) : List ι → σ
  | [] => s
  | i :: is => final (step s i).1 is

/-- The outputs of the run, in order. -/
def outputs (s : σ) : List ι → List ω
  | [] => []
  | i :: is => (step s i).2 :: outputs (step s i).1 is

/-- Every step of the run satisfies `C` at the state it is taken from. -/
def Along (C : σ → ι → Prop) (s : σ) : List ι → Prop
  | [] => True
  | i :: is => C s i ∧ Along C (step s i).1 is

/-- Every state of the run, the first and the last included, satisfies `P`. -/
def Throughout (P : σ → Prop) (s : σ) : List ι → Prop
  | [] => P s
  | i :: is => P s ∧ Throughout P (step s i).1 is

instance decidableAlong {C : σ → ι → Prop} [∀ s i, Decidable (C s i)] :
    ∀ (s : σ) (is : List ι), Decidable (Along step C s is)
  | _, [] => .isTrue trivial
  | s, i :: is => @instDecidableAnd (C s i) _ _ (decidableAlong (step s i).1 is)

section Basics

variable {step}

@[simp] theorem final_cons (s : σ) (i : ι) (is : List ι) :
    final step s (i :: is) = final step (step s i).1 is := rfl

@[simp] theorem final_append (s : σ) (as bs : List ι) :
    final step s (as ++ bs) = final step (final step s as) bs := by
  induction as generalizing s with
  | nil => rfl
  | cons a as ih => exact ih _

theorem final_concat (s : σ) (is : List ι) (i : ι) :
    final step s (is ++ [i]) = (step (final step s is) i).1 := by
  rw [final_append]; rfl

@[simp] theorem outputs_append (s : σ) (as bs : List ι) :
    outputs step s (as ++ bs) = outputs step s as ++ outputs step (final step s as) bs := by
  induction as generalizing s with
  | nil => rfl
  | cons a as ih => simp [outputs, ih]

theorem outputs_concat (s : σ) (is : List ι) (i : ι) :
    outputs step s (is ++ [i]) = outputs step s is ++ [(step (final step s is) i).2] := by
  rw [outputs_append]; rfl

/-- A condition on the inputs alone, as a condition on the steps. -/
theorem along_of_forall {ok : ι → Prop} {s : σ} {is : List ι} (h : ∀ i ∈ is, ok i) :
    Along step (fun _ => ok) s is := by
  induction is generalizing s with
  | nil => trivial
  | cons i is ih => exact ⟨h i (by simp), ih (fun j hj => h j (by simp [hj]))⟩

theorem along_mono {C D : σ → ι → Prop} (hCD : ∀ s i, C s i → D s i) {s : σ} {is : List ι} (h : Along step C s is) :
    Along step D s is := by
  induction is generalizing s with
  | nil => trivial
  | cons i is ih => exact ⟨hCD s i h.1, ih h.2⟩

theorem along_append {C : σ → ι → Prop} {s : σ} {as bs : List ι} :
    Along step C s (as ++ bs) ↔ Along step C s as ∧ Along step C (final step s as) bs := by
  induction as generalizing s with
  | nil => simp [Along, final]
  | cons a as ih => simp [Along, ih, and_assoc]

theorem Throughout.head {P : σ → Prop} {s : σ} {is : List ι} (h : Throughout step P s is) : P s := by
  cases is with
  | nil => exact h
  | cons i is => exact h.1

/-- A run throughout which `P` holds, by its prefixes. -/
theorem throughout_iff {P : σ → Prop} {s : σ} {is : List ι} :
    Throughout step P s is ↔ ∀ as bs, is = as ++ bs → P (final step s as) := by
  constructor
  · intro h as
    induction as generalizing s is with
    | nil => rintro bs -; exact h.head
    | cons a as ih =>
      rintro bs rfl
      exact ih h.2 bs rfl
  · intro h
    induction is generalizing s with
    | nil => exact h [] [] rfl
    | cons i is ih =>
      exact ⟨h [] (i :: is) rfl, ih (fun as bs e => h (i :: as) bs (by rw [e]; rfl))⟩

end Basics

section Induction

variable {step}

/-- **Invariant rule.** What every step preserves, every run preserves. -/
theorem final_induction {P : σ → Prop} (hstep : ∀ s i, P s → P (step s i).1) {s : σ} (h0 : P s)
    (is : List ι) : P (final step s is) := by
  induction is generalizing s with
  | nil => exact h0
  | cons i is ih => exact ih (hstep s i h0)

/-- **Invariant rule under a side condition** on the steps of the run. -/
theorem final_induction_along {P : σ → Prop} {C : σ → ι → Prop}
    (hstep : ∀ s i, C s i → P s → P (step s i).1) {s : σ} (h0 : P s) {is : List ι}
    (hC : Along step C s is) : P (final step s is) := by
  induction is generalizing s with
  | nil => exact h0
  | cons i is ih => exact ih (hstep s i hC.1 h0) hC.2

/-- **Invariant rule with the outputs so far.** -/
theorem trace_induction {P : σ → List ω → Prop} {s : σ} (h0 : P s [])
    (hstep : ∀ s os i, P s os → P (step s i).1 (os ++ [(step s i).2])) (is : List ι) :
    P (final step s is) (outputs step s is) := by
  induction is using List.reverseRecOn with
  | nil => exact h0
  | append_singleton is i ih =>
    rw [final_concat, outputs_concat]
    exact hstep _ _ i ih

/-- **Provenance rule.**  Where an invariant of the state and the outputs so far accounts for the next output, every output of a run
is accounted for by those before it. -/
theorem outputs_of_invariant {P : σ → List ω → Prop} {J : List ω → ω → Prop} {s : σ} (h0 : P s [])
    (hstep : ∀ s os i, P s os → P (step s i).1 (os ++ [(step s i).2])) (hJ : ∀ s os i, P s os → J os (step s i).2)
    (is : List ι) : ∀ past o rest, outputs step s is = past ++ o :: rest → J past o := by
  induction is using List.reverseRecOn with
  | nil =>
    intro past o rest h
    simp [outputs] at h
  | append_singleton is i ih =>
    intro past o rest h
    rw [outputs_concat] at h
    rcases List.eq_nil_or_concat rest with rfl | ⟨rest', o', rfl⟩
    · obtain ⟨rfl, ho⟩ := List.append_inj' h rfl
      cases ho
      exact hJ _ _ i (trace_induction h0 hstep is)
    · rw [List.concat_eq_append, ← List.cons_append, ← List.append_assoc] at h
      exact ih past o rest' (List.append_inj' h rfl).1

/-- **Invariant rule with the inputs so far.** -/
theorem history_induction {P : σ → List ι → Prop} {s : σ} (h0 : P s [])
    (hstep : ∀ s is i, P s is → P (step s i).1 (is ++ [i])) (is : List ι) : P (final step s is) is := by
  induction is using List.reverseRecOn with
  | nil => exact h0
  | append_singleton is i ih =>
    rw [final_concat]
    exact hstep _ _ i ih

/-- Two conditions on the steps that agree wherever an invariant holds agree along every run. -/
theorem along_congr {P : σ → Prop} {K : ι → Prop} {C D : σ → ι → Prop} (hP : ∀ s i, K i → P s → P (step s i).1)
    (h : ∀ s i, K i → P s → (C s i ↔ D s i)) {s : σ} (h0 : P s) {is : List ι} (hK : ∀ i ∈ is, K i) :
    Along step C s is ↔ Along step D s is := by
  induction is generalizing s with
  | nil => exact Iff.rfl
  | cons i is ih =>
    have hi := hK i List.mem_cons_self
    exact and_congr (h s i hi h0) (ih (hP s i hi h0) fun j hj => hK j (List.mem_cons_of_mem i hj))

/-- **Invariant rule for all states of a run**, under a side condition on its steps. -/
theorem throughout_of_along {P : σ → Prop} {C : σ → ι → Prop} (hstep : ∀ s i, C s i → P s → P (step s i).1) {s : σ}
    (h0 : P s) {is : List ι} (hC : Along step C s is) : Throughout step P s is := by
  induction is generalizing s with
  | nil => exact h0
  | cons i is ih => exact ⟨h0, ih (hstep s i hC.1 h0) hC.2⟩

theorem Throughout.mono {P Q : σ → Prop} {s : σ} {is : List ι} (h : Throughout step P s is) (hPQ : ∀ s, P s → Q s) :
    Throughout step Q s is := by
  induction is generalizing s with
  | nil => exact hPQ s h
  | cons i is ih => exact ⟨hPQ s h.1, ih h.2⟩

/-- What holds in every state holds of the steps taken from them. -/
theorem Throughout.along {P : σ → Prop} {C : σ → ι → Prop} {s : σ} {is : List ι} (h : Throughout step P s is)
    (hPC : ∀ s i, P s → C s i) : Along step C s is := by
  induction is generalizing s with
  | nil => trivial
  | cons i is ih => exact ⟨hPC s i h.1, ih h.2⟩

/-- **Exactness rule.**  If from a state satisfying `P` a step leads to one satisfying `P` exactly when it meets `C`,
then every state of a run satisfies `P` exactly when every step meets `C`. -/
theorem throughout_iff_along {P : σ → Prop} {C : σ → ι → Prop} (h : ∀ s i, P s → (P (step s i).1 ↔ C s i)) {s : σ}
    (h0 : P s) (is : List ι) : Throughout step P s is ↔ Along step C s is := by
  induction is generalizing s with
  | nil => exact ⟨fun _ => trivial, fun _ => h0⟩
  | cons i is ih =>
    constructor
    · rintro ⟨_, hnext⟩
      exact ⟨(h s i h0).1 hnext.head, (ih hnext.head).1 hnext⟩
    · rintro ⟨hC, hnext⟩
      have hP := (h s i h0).2 hC
      exact ⟨h0, (ih hP).2 hnext⟩

/-- **Exactness rule for conditions on the steps.**  Two conditions that agree under an invariant, which one of them keeps, agree
along every run. -/
theorem along_iff_of_invariant {P : σ → Prop} {C D : σ → ι → Prop} (hkeep : ∀ s i, C s i → P s → P (step s i).1)
    (h : ∀ s i, P s → (D s i ↔ C s i)) {s : σ} (h0 : P s) (is : List ι) : Along step D s is ↔ Along step C s is := by
  induction is generalizing s with
  | nil => exact Iff.rfl
  | cons i is ih =>
    constructor
    · rintro ⟨hD, hnext⟩
      have hC := (h s i h0).1 hD
      exact ⟨hC, (ih (hkeep s i hC h0)).1 hnext⟩
    · rintro ⟨hC, hnext⟩
      exact ⟨(h s i h0).2 hC, (ih (hkeep s i hC h0)).2 hnext⟩

/-- **Exactness rule with an invariant.**  A step that meets `C` keeps the invariant `P`, and from a state satisfying `P` only
such a step leads to one satisfying `Q`. -/
theorem throughout_iff_of_invariant {P Q : σ → Prop} {C : σ → ι → Prop} (hPQ : ∀ s, P s → Q s)
    (hkeep : ∀ s i, C s i → P s → P (step s i).1) (hexact : ∀ s i, P s → Q (step s i).1 → C s i) {s : σ} (h0 : P s)
    (is : List ι) : Throughout step Q s is ↔ Along step C s is := by
  induction is generalizing s with
  | nil => exact ⟨fun _ => trivial, fun _ => hPQ s h0⟩
  | cons i is ih =>
    constructor
    · rintro ⟨-, hnext⟩
      have hC := hexact s i h0 hnext.head
      exact ⟨hC, (ih (hkeep s i hC h0)).1 hnext⟩
    · rintro ⟨hC, hnext⟩
      exact ⟨hPQ s h0, (ih (hkeep s i hC h0)).2 hnext⟩

end Induction

/-! ### Endless runs -/

section Endless

/-- The state before the input `n` of an endless run. -/
def nth (s : σ) (i : ℕ → ι) : ℕ → σ
  | 0 => s
  | n + 1 => (step (nth s i n) (i n)).1

variable {step}

theorem nth_induction {P : σ → Prop} (hstep : ∀ s i, P s → P (step s i).1) {s : σ} (h0 : P s) (i : ℕ → ι) (n : ℕ) :
    P (nth step s i n) := by
  induction n with
  | zero => exact h0
  | succ n ih => exact hstep _ _ ih

/-- What is so at one moment of the run, and which every step preserves, is so later on. -/
theorem nth_stable {P : σ → Prop} (hstep : ∀ s i, P s → P (step s i).1) {s : σ} {i : ℕ → ι} {n m : ℕ}
    (h : P (nth step s i n)) (hnm : n ≤ m) : P (nth step s i m) := by
  induction hnm with
  | refl => exact h
  | step _ ih => exact hstep _ _ ih

/-- **Measure rule.**  A measure that no step of a sequence raises, and that a later step lowers as long as `P` has not come
about, leads to `P`. -/
theorem exists_of_measure {f : ℕ → σ} {μ : σ → ℕ} {P : σ → Prop} {n : ℕ} (hle : ∀ m, n ≤ m → μ (f (m + 1)) ≤ μ (f m))
    (hlt : ∀ m, n ≤ m → ¬P (f m) → ∃ k, m ≤ k ∧ (P (f k) ∨ μ (f (k + 1)) < μ (f k))) : ∃ m, n ≤ m ∧ P (f m) := by
  have hmono : ∀ m k, n ≤ m → m ≤ k → μ (f k) ≤ μ (f m) := by
    intro m k hnm hmk
    induction hmk with
    | refl => exact Nat.le_refl _
    | step hmk ih => exact Nat.le_trans (hle _ (Nat.le_trans hnm hmk)) ih
  have hall : ∀ b m, n ≤ m → μ (f m) ≤ b → ∃ k, n ≤ k ∧ P (f k) := by
    intro b
    induction b with
    | zero =>
      intro m hnm hb
      by_contra hno
      obtain ⟨k, hmk, hk | hk⟩ := hlt m hnm fun hP => hno ⟨m, hnm, hP⟩
      · exact hno ⟨k, Nat.le_trans hnm hmk, hk⟩
      · have := hmono m k hnm hmk
        omega
    | succ b ih =>
      intro m hnm hb
      by_cases hP : P (f m)
      · exact ⟨m, hnm, hP⟩
      · obtain ⟨k, hmk, hk | hk⟩ := hlt m hnm hP
        · exact ⟨k, Nat.le_trans hnm hmk, hk⟩
        · have := hmono m k hnm hmk
          exact ih (k + 1) (by omega) (by omega)
  exact hall _ n (Nat.le_refl _) (Nat.le_refl _)

end Endless

end LlmGateway.Lib.Run
