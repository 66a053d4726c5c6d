import LlmGateway.Sessions.LockInvariant

/-!
# The session lock excludes, and loses no update

`serialised_run`: in every run, one live process at most has the lock, no reclaimer removes the lock file of a live
process, and the file is what the turns of the lock, one after another, make of it.
-/

namespace LlmGateway.Sessions.Lock

variable {α : Type*} {init : α} {s : State α}

/-- One process at most is between `openSync(lockPath, "wx")` and the end of its turn. -/
def Exclusive (s : State α) : Prop :=
  ∀ q r p p' c c' w w', s.procs q = some p → s.procs r = some p' → p.pc = .holding c w → p'.pc = .holding c' w' → q = r

/-- No call of `reclaimConfirmedDeadStorageLock` touches the lock file that a live process made. -/
def ReclaimsDead (s : State α) : Prop :=
  ∀ pid p c r ok f q p', s.procs pid = some p → p.pc = .reclaiming c r → s.lock = some f → s.procs q = some p' →
    p'.id = f.creator → (next s (.step pid ok)).lock = some f

/-- The content after the operations, each run to its end. -/
def wholes (a : α) (ts : List (Turn α)) : α := ts.foldl (fun a t => whole t.operation a) a

/-- Exclusion; reclaimers; and the file, which has of each turn what the turn came to. -/
structure Serialised (init : α) (s : State α) : Prop where
  exclusive : Exclusive s
  reclaims : ReclaimsDead s
  file : s.file = replay init s.turns
  wholes : (∀ t ∈ s.turns, t.complete = true) → s.file = wholes init s.turns

/-- The same, the file having the completed operations and no others as soon as no process has the lock. -/
structure SerialisedComplete (init : α) (s : State α) : Prop where
  exclusive : Exclusive s
  reclaims : ReclaimsDead s
  file : (∀ q p c w, s.procs q = some p → p.pc ≠ .holding c w) → s.file = wholes init (s.turns.filter Turn.complete)

theorem Inv.exclusive (h : Inv init s) : Exclusive s := by
  intro q r p p' c c' w w' hq hr hpc hpc'
  have hl := h.local_ q p hq
  have hl' := h.local_ r p' hr
  rw [Local, hpc] at hl
  rw [Local, hpc'] at hl'
  obtain ⟨pre, t, hh, -⟩ := hl
  obtain ⟨pre', t', hh', -⟩ := hl'
  obtain ⟨f, hf, hcr⟩ := hh.lock
  obtain ⟨f', hf', hcr'⟩ := hh'.lock
  obtain rfl := Option.some.inj (hf.symm.trans hf')
  exact h.id_inj q r p p' hq hr (hcr.symm.trans hcr')

/-- Only at `removing` does a reclaimer touch the lock file. -/
theorem lock_reclaim {pid : ℕ} {p : Process α} {c : Call α} {r : Reclaim} {ok : Bool} (hr : r ≠ .removing) :
    (reclaim s pid p c ok r).lock = s.lock := by
  cases r with
  | opening =>
    simp only [reclaim]
    split <;> rfl
  | reading =>
    simp only [reclaim]
    split
    · rfl
    · split <;> rfl
  | probing o | rereading o =>
    simp only [reclaim]
    split <;> rfl
  | removing => exact absurd rfl hr
  | leaving reclaimed => rfl

theorem Inv.reclaimsDead (h : Inv init s) : ReclaimsDead s := by
  intro pid p c r ok f q p' hp hpc hf hq hid
  have hl := h.local_ pid p hp
  rw [Local, hpc] at hl
  have hr : r ≠ .removing := by
    rintro rfl
    obtain ⟨-, -, f', hf', hd⟩ := hl
    obtain rfl := Option.some.inj (hf.symm.trans hf')
    exact hd q p' hq hid
  rw [Lock.next, hp]
  simp only [hpc]
  exact (lock_reclaim hr).trans hf

theorem replay_eq_wholes {ts : List (Turn α)} (h : ∀ t ∈ ts, t.complete = true) (a : α) : replay a ts = wholes a ts := by
  induction ts generalizing a with
  | nil => rfl
  | cons t ts ih =>
    have ht : t.result a = whole t.operation a := by simp [Turn.result, h t]
    change replay (t.result a) ts = wholes (whole t.operation a) ts
    rw [ht, ih fun t' ht' => h t' (List.mem_cons_of_mem t ht')]

/-- **The lock serialises the operations**, whoever crashes where, and whatever becomes of the pids. -/
theorem serialised_run (hostname : String) (init : α) (es : List (Event α)) :
    Serialised init (run hostname init es) := by
  have h := inv_run hostname init es
  exact
    { exclusive := h.exclusive
      reclaims := h.reclaimsDead
      file := h.file
      wholes := fun hc => h.file.trans (replay_eq_wholes hc init) }

/-- A process that crashes between its two saves: `getOrCreateKitSession` saves the pointer it clears, and then the
session it makes. -/
theorem not_serialisedComplete : ¬∀ (init : ℕ) (es : List (Event ℕ)), SerialisedComplete init (run "host" init es) := by
  intro h
  have hfile := (h 0 ([.spawn 1, .call 1 fun a => [a + 1, a + 2]] ++ List.replicate 6 (.step 1 true) ++ [.crash 1])).file
  have hdead : ∀ q, (run "host" 0 ([.spawn 1, .call 1 fun a => [a + 1, a + 2]] ++ List.replicate 6 (.step 1 true) ++
      [.crash 1] : List (Event ℕ))).procs q = none := by
    intro q
    simp [run, Lib.Run.final, next, start, acquire, hold, State.goto, State.create, State.record, State.setTemp,
      State.note]
  have hone := hfile fun q p c w hq => by rw [hdead q] at hq; cases hq
  revert hone
  decide

end LlmGateway.Sessions.Lock
