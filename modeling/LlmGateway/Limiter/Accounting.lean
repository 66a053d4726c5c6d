import LlmGateway.Limiter.Model

/-!
# The accounting of the job limiter

* `Move`, `step_move` — what one step can do to the state, and what it lets the outside see;
* `Accounted` — the four counters are those of the permits and the queue, within the limits;
* `capacity_and_accounting` — the counters of the class in every reachable state.
-/

namespace LlmGateway.Limiter

open LlmGateway.Lib

variable {cfg : Config} {s s' : State}

/-! ## What a step can do -/

/-- What a step can do: one constructor for each way of touching the counters, with the guard it passed. -/
inductive Move (cfg : Config) (s : State) : State → Outcome → Prop where
  | still (o : Outcome) (ho : o = .silent ∨ o = .notCancelled) : Move cfg s s o
  | rejected (h : s.pumping = false) : Move cfg s { s with rejectedCount := s.rejectedCount + 1 } .rejected
  | granted (p : String) (h : s.pumping = false) (hrun : canRunNow cfg s p = true) :
      Move cfg s (grant s p) (.granted s.permits.length)
  | queued (p : String) (h : s.pumping = false) (hrun : canRunNow cfg s p = false)
      (hroom : s.queue.length < cfg.maxQueuedJobs) : Move cfg s (enqueue s p) (.queued ⟨s.nextEntry, p⟩)
  | freed (k : ℕ) (p : String) (rest : List Frame) (h : s.pumping = false)
      (hk : s.permits[k]? = some ⟨p, false⟩) : Move cfg s { freeSlot s k p with stack := rest } .silent
  | cancelled (e : LimiterQueueEntry) (h : s.pumping = false) (he : e ∈ s.queue) :
      Move cfg s (removeEntry s e) (.cancelled e)
  | timedOut (e : LimiterQueueEntry) (h : s.pumping = false) (he : e ∈ s.queue) :
      Move cfg s { removeEntry s e with timedOutCount := s.timedOutCount + 1 } (.timedOut e)
  | resumed (rest : List Frame) (h : s.pumping = false) :
      Move cfg s { s with pumping := true, stack := rest } .silent
  | fired (e : LimiterQueueEntry) (h : s.pumping = true)
      (he : s.queue.find? (fun e => canRunNow cfg s e.provider) = some e) :
      Move cfg s (pumpGrant s e) (.fired e s.permits.length)
  | scanned (b : Bool) (rest : List Frame) (h : s.pumping = true)
      (hnone : ∀ e ∈ s.queue, canRunNow cfg s e.provider = false) :
      Move cfg s { s with pumping := b, stack := rest } .silent

theorem acquire_move (p : String) (h : s.pumping = false) :
    Move cfg s (acquire cfg s p).1 (acquire cfg s p).2 := by
  unfold acquire
  split
  · exact .granted p h ‹_›
  · rename_i hrun
    split
    · exact .rejected h
    · exact .queued p h (by simpa using hrun) (by omega)

theorem release_move (k : ℕ) (h : s.pumping = false) : Move cfg s (release s k) .silent := by
  unfold release
  split
  · rename_i p hk
    split
    · exact .still _ (Or.inl rfl)
    · rename_i hr
      obtain ⟨p, r⟩ := p
      obtain rfl : r = false := by simpa using hr
      exact .freed k p s.stack h hk
  · exact .still _ (Or.inl rfl)

theorem mem_of_queuedEntry {id : ℕ} {e : LimiterQueueEntry} (h : queuedEntry s id = some e) : e ∈ s.queue :=
  List.mem_of_find?_eq_some h

theorem cancel_move (id : ℕ) (h : s.pumping = false) : Move cfg s (cancel s id).1 (cancel s id).2 := by
  unfold cancel
  split
  · exact .cancelled _ h (mem_of_queuedEntry ‹_›)
  · exact .still _ (Or.inr rfl)

theorem timeout_move (id : ℕ) (h : s.pumping = false) : Move cfg s (timeout s id).1 (timeout s id).2 := by
  unfold timeout
  split
  · exact .timedOut _ h (mem_of_queuedEntry ‹_›)
  · exact .still _ (Or.inl rfl)

theorem callbackReturn_move (h : s.pumping = false) : Move cfg s (callbackReturn s) .silent := by
  unfold callbackReturn
  split
  · exact .resumed _ h
  · exact .still _ (Or.inl rfl)

theorem callbackThrow_move (h : s.pumping = false) : Move cfg s (callbackThrow s) .silent := by
  unfold callbackThrow
  split
  · rename_i k rest hst
    dsimp only
    split
    · rename_i p hk
      split
      · exact .resumed rest h
      · rename_i hr
        obtain ⟨p, r⟩ := p
        obtain rfl : r = false := by simpa using hr
        exact .freed k p (.catchRelease :: rest) h hk
    · exact .resumed rest h
  · exact .still _ (Or.inl rfl)

theorem tick_move (h : s.pumping = true) : Move cfg s (tick cfg s).1 (tick cfg s).2 := by
  unfold tick
  split
  · exact .fired _ h ‹_›
  · rename_i hnone
    have hq : ∀ e ∈ s.queue, canRunNow cfg s e.provider = false := by simpa using hnone
    unfold pumpReturn
    split
    · exact .scanned s.pumping _ h hq
    · exact .scanned false s.stack h hq

/-- **Every step is one of the moves.** -/
theorem step_move (cfg : Config) (s : State) (e : Event) : Move cfg s (step cfg s e).1 (step cfg s e).2 := by
  unfold step
  split
  · rename_i hen
    cases e with
    | acquire p => exact acquire_move p (by simpa [enabled] using hen)
    | release k => exact release_move k (by simpa [enabled] using hen)
    | cancel id => exact cancel_move id (by simpa [enabled] using hen)
    | timeout id => exact timeout_move id (by simp [enabled] at hen; exact hen.1)
    | callbackReturn => exact callbackReturn_move (by simpa [enabled] using hen)
    | callbackThrow => exact callbackThrow_move (by simpa [enabled] using hen)
    | tick => exact tick_move hen
  · exact .still _ (Or.inl rfl)

theorem canRunNow_eq_true {p : String} : canRunNow cfg s p = true ↔
    s.runningGlobal < cfg.maxRunningJobs ∧
      (s.runningByProvider.get p).getD 0 < cfg.maxRunningJobsPerProvider := by
  simp [canRunNow]

theorem canRunNow_eq_false {p : String} : canRunNow cfg s p = false ↔
    s.runningGlobal ≥ cfg.maxRunningJobs ∨
      (s.runningByProvider.get p).getD 0 ≥ cfg.maxRunningJobsPerProvider := by
  simp only [canRunNow, Bool.and_eq_false_iff, Bool.not_eq_false', decide_eq_true_eq]

/-! ## Permits and entries -/

/-- The granted and not yet released permits. -/
def live (s : State) : ℕ := s.permits.countP fun q => !q.released

/-- The granted and not yet released permits of a provider. -/
def liveOf (s : State) (p : String) : ℕ := s.permits.countP fun q => !q.released && q.provider == p

/-- The waiting entries of a provider. -/
def queuedOf (s : State) (p : String) : ℕ := s.queue.countP fun e => e.provider == p

/-- Releasing a permit takes it out of every count that it was in. -/
theorem countP_release {ps : List LimiterPermit} {k : ℕ} {p : String} (q : LimiterPermit → Bool)
    (hk : ps[k]? = some ⟨p, false⟩) (hq : q ⟨p, true⟩ = false) :
    ps.countP q = (ps.set k ⟨p, true⟩).countP q + if q ⟨p, false⟩ then 1 else 0 := by
  induction ps generalizing k with
  | nil => simp at hk
  | cons x ps ih =>
    cases k with
    | zero =>
      obtain rfl : x = ⟨p, false⟩ := by simpa using hk
      simp [List.countP_cons, hq]
    | succ k =>
      have := ih (by simpa using hk)
      simp only [List.set_cons_succ, List.countP_cons]
      omega

theorem queuedOf_removeEntry {e : LimiterQueueEntry} (he : e ∈ s.queue) (p : String) :
    queuedOf s p = queuedOf (removeEntry s e) p + if e.provider = p then 1 else 0 := by
  have := (List.perm_cons_erase he).countP_eq fun e => e.provider == p
  simp only [queuedOf, removeEntry, this, List.countP_cons, beq_iff_eq]

theorem live_grant (p : String) : live (grant s p) = live s + 1 := by simp [live, grant]

theorem liveOf_grant (p q : String) : liveOf (grant s p) q = liveOf s q + if p = q then 1 else 0 := by
  simp [liveOf, grant, List.countP_cons]

theorem live_freeSlot {k : ℕ} {p : String} (hk : s.permits[k]? = some ⟨p, false⟩) :
    live s = live (freeSlot s k p) + 1 := countP_release _ hk rfl

theorem liveOf_freeSlot {k : ℕ} {p : String} (hk : s.permits[k]? = some ⟨p, false⟩) (q : String) :
    liveOf s q = liveOf (freeSlot s k p) q + if p = q then 1 else 0 := by
  have := countP_release (fun r => !r.released && r.provider == q) hk (by simp)
  simpa [liveOf, freeSlot] using this

/-! ## The counters -/

/-- The counters are those of the permits and of the queue, and within the limits. -/
structure Accounted (cfg : Config) (s : State) : Prop where
  running : s.runningGlobal = live s
  byProvider : s.runningByProvider.Counts (liveOf s)
  total : s.runningByProvider.total = s.runningGlobal
  queued : s.queuedByProvider.Counts (queuedOf s)
  cap : live s ≤ cfg.maxRunningJobs
  providerCap : ∀ p, liveOf s p ≤ cfg.maxRunningJobsPerProvider
  queueCap : s.queue.length ≤ cfg.maxQueuedJobs

theorem accounted_init (cfg : Config) : Accounted cfg init where
  running := rfl
  byProvider _ := rfl
  total := rfl
  queued _ := rfl
  cap := Nat.zero_le _
  providerCap _ := Nat.zero_le _
  queueCap := Nat.zero_le _

/-- The control part of the state and the two statistics have no part in it. -/
theorem Accounted.control (h : Accounted cfg s) (b : Bool) (st : List Frame) (r t : ℕ) :
    Accounted cfg { s with pumping := b, stack := st, rejectedCount := r, timedOutCount := t } :=
  ⟨h.running, h.byProvider, h.total, h.queued, h.cap, h.providerCap, h.queueCap⟩

theorem Accounted.grant (h : Accounted cfg s) {p : String} (hrun : canRunNow cfg s p = true) :
    Accounted cfg (grant s p) := by
  obtain ⟨hglobal, hprov⟩ := canRunNow_eq_true.1 hrun
  rw [h.running] at hglobal
  rw [h.byProvider.getD] at hprov
  refine ⟨?_, ?_, ?_, h.queued, ?_, fun q => ?_, h.queueCap⟩
  · rw [live_grant, Limiter.grant, h.running]
    push_cast
    rfl
  · refine h.byProvider.increment (k := p) ?_ fun q hq => ?_
    · rw [liveOf_grant, if_pos rfl]
    · rw [liveOf_grant, if_neg hq, add_zero]
  · rw [Limiter.grant, JsMap.total_increment, h.total]
  · rw [live_grant]
    omega
  · rw [liveOf_grant]
    have := h.providerCap q
    split
    · subst q
      omega
    · omega

theorem Accounted.freeSlot (h : Accounted cfg s) {k : ℕ} {p : String}
    (hk : s.permits[k]? = some ⟨p, false⟩) : Accounted cfg (freeSlot s k p) := by
  have hlive := live_freeSlot hk
  have hof := liveOf_freeSlot hk
  have hp : liveOf s p = liveOf (Limiter.freeSlot s k p) p + 1 := by rw [hof p, if_pos rfl]
  have hrun := h.running
  refine ⟨?_, ?_, ?_, h.queued, ?_, fun q => ?_, h.queueCap⟩
  · show max 0 (s.runningGlobal - 1) = _
    omega
  · refine h.byProvider.decrement (k := p) hp fun q hq => ?_
    rw [hof q, if_neg hq, add_zero]
  · show (s.runningByProvider.decrement p).total = max 0 (s.runningGlobal - 1)
    rw [h.byProvider.total_decrement (by omega), h.total]
    omega
  · have := h.cap
    omega
  · have := h.providerCap q
    have := hof q
    omega

theorem Accounted.removeEntry (h : Accounted cfg s) {e : LimiterQueueEntry} (he : e ∈ s.queue) :
    Accounted cfg (removeEntry s e) := by
  have hof := queuedOf_removeEntry he
  refine ⟨h.running, h.byProvider, h.total, ?_, h.cap, h.providerCap, ?_⟩
  · refine h.queued.decrement (k := e.provider) ?_ fun q hq => ?_
    · rw [hof e.provider, if_pos rfl]
    · rw [hof q, if_neg hq, add_zero]
  · exact (List.length_erase_le).trans h.queueCap

theorem Accounted.enqueue (h : Accounted cfg s) {p : String} (hroom : s.queue.length < cfg.maxQueuedJobs) :
    Accounted cfg (enqueue s p) := by
  have hof : ∀ q, queuedOf (Limiter.enqueue s p) q = queuedOf s q + if p = q then 1 else 0 := by
    intro q
    simp [queuedOf, Limiter.enqueue, List.countP_cons]
  refine ⟨h.running, h.byProvider, h.total, ?_, h.cap, h.providerCap, ?_⟩
  · refine h.queued.increment (k := p) ?_ fun q hq => ?_
    · rw [hof, if_pos rfl]
    · rw [hof, if_neg hq, add_zero]
  · simp only [Limiter.enqueue, List.length_append, List.length_singleton]
    omega

theorem canRunNow_removeEntry (e : LimiterQueueEntry) (p : String) :
    canRunNow cfg (removeEntry s e) p = canRunNow cfg s p := rfl

/-- Every move keeps the accounts. -/
theorem Accounted.move (h : Accounted cfg s) {o : Outcome} (hm : Move cfg s s' o) : Accounted cfg s' := by
  cases hm with
  | still => exact h
  | rejected => exact h.control _ _ _ _
  | granted p _ hrun => exact h.grant hrun
  | queued p _ _ hroom => exact h.enqueue hroom
  | freed k p rest _ hk => exact (h.freeSlot hk).control _ rest _ _
  | cancelled e _ he => exact h.removeEntry he
  | timedOut e _ he => exact (h.removeEntry he).control _ _ _ _
  | resumed rest => exact h.control _ rest _ _
  | fired e _ he =>
    have hrun : canRunNow cfg s e.provider = true := by simpa using List.find?_some he
    have hmem := List.mem_of_find?_eq_some he
    exact ((h.removeEntry hmem).grant ((canRunNow_removeEntry e _).trans hrun)).control _ _ _ _
  | scanned b rest => exact h.control b rest _ _

theorem accounted_reached (cfg : Config) (es : List Event) : Accounted cfg (reached cfg es) :=
  Run.final_induction (fun s e h => h.move (step_move cfg s e)) (accounted_init cfg) es

/-- A held slot is in both counters, so releasing it leaves neither below zero. -/
theorem Accounted.no_clamp (h : Accounted cfg s) {k : ℕ} {p : String}
    (hk : s.permits[k]? = some ⟨p, false⟩) :
    0 ≤ s.runningGlobal - 1 ∧ ∃ n, s.runningByProvider.get p = some n ∧ 0 ≤ n - 1 := by
  have hlive := live_freeSlot hk
  have hp := liveOf_freeSlot hk p
  rw [if_pos rfl] at hp
  refine ⟨?_, _, h.byProvider.get_of_pos (show 0 < liveOf s p by omega), ?_⟩
  · rw [h.running]
    omega
  · omega

/-- **Capacity and accounting.**  In every reachable state `runningGlobal` is the number of granted and not yet
released permits, `runningByProvider` that of each provider, and its sum is `runningGlobal`; no limit is exceeded;
`queuedByProvider` counts the queue; and the release of a held permit needs none of the clamps. -/
theorem capacity_and_accounting (cfg : Config) (es : List Event) :
    let s := reached cfg es
    s.runningGlobal = live s ∧
    (∀ p, s.runningByProvider.get p = if liveOf s p = 0 then none else some (liveOf s p : ℤ)) ∧
    s.runningByProvider.total = s.runningGlobal ∧
    s.runningGlobal ≤ cfg.maxRunningJobs ∧
    (∀ p, (s.runningByProvider.get p).getD 0 ≤ cfg.maxRunningJobsPerProvider) ∧
    s.queue.length ≤ cfg.maxQueuedJobs ∧
    (∀ p, s.queuedByProvider.get p = if queuedOf s p = 0 then none else some (queuedOf s p : ℤ)) ∧
    ∀ (k : ℕ) (p : String), s.permits[k]? = some (LimiterPermit.mk p false) →
      0 ≤ s.runningGlobal - 1 ∧ ∃ n, s.runningByProvider.get p = some n ∧ 0 ≤ n - 1 := by
  intro s
  have h : Accounted cfg s := accounted_reached cfg es
  refine ⟨h.running, h.byProvider, h.total, ?_, fun p => ?_, h.queueCap, h.queued, fun k p hk => h.no_clamp hk⟩
  · rw [h.running]
    exact_mod_cast h.cap
  · rw [h.byProvider.getD]
    exact_mod_cast h.providerCap p

end LlmGateway.Limiter
