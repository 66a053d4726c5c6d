import LlmGateway.Manager.JobSlots
import LlmGateway.Limiter.Callers

/-!
# Who owns a slot

What holds of the jobs and the limiter in every run, and the rule by which a property of the jobs is proved.

* `Own`, `Keeps`, `keeps_step` — a job holds and gives back what is its own;
* `Stable`, `Closed`, `each_next` — a property of a job and its own permit and entry that the tasks of the job keep is
  kept by every step.
-/

namespace LlmGateway.Manager.JobSlots

open LlmGateway.Lib Limiter

variable {cfg : Limiter.Config} {s s' : State} {l l' : Limiter.State} {job : Job} {c : Calls} {j k e : ℕ}

/-! ## The calls of a task -/

/-- What the calls of a task do to the permits and the entries. -/
structure Called (l l' : Limiter.State) (c : Calls) : Prop where
  released : ∀ k, c.release = some k → Held l k → Released l' k
  held : ∀ k, c.release ≠ some k → Held l k → Held l' k
  releasedOf : ∀ k, Released l k → Released l' k
  gone : ∀ e, c.cancel = some e → ¬Waiting l' e
  waiting : ∀ e, c.cancel ≠ some e → (Waiting l' e ↔ Waiting l e)
  waitingOf : ∀ e, Waiting l' e → Waiting l e
  numbered : Numbered l'
  length : l'.permits.length = l.permits.length
  nextEntry : l'.nextEntry = l.nextEntry

theorem Called.of_same (hn : Numbered l) (hp : l'.permits = l.permits) (hq : l'.queue = l.queue)
    (he : l'.nextEntry = l.nextEntry) : Called l l' .none := by
  have hheld : ∀ k, Held l' k ↔ Held l k := by
    intro k
    rw [Held, Held, hp]
  have hrel : ∀ k, Released l' k ↔ Released l k := by
    intro k
    rw [Released, Released, hp]
  have hwait : ∀ e, Waiting l' e ↔ Waiting l e := by
    intro e
    rw [Waiting, Waiting, hq]
  exact
    { released := fun k hk => by cases hk
      held := fun k _ => (hheld k).2
      releasedOf := fun k => (hrel k).2
      gone := fun e he => by cases he
      waiting := fun e _ => hwait e
      waitingOf := fun e => (hwait e).1
      numbered := ⟨by rw [hq]; exact hn.nodup, by rw [hq, he]; exact hn.lt⟩
      length := by rw [hp]
      nextEntry := he }

theorem Called.of_leaves (hn : Numbered l) (h : Leaves l l' e) : Called l l' ⟨some e, none⟩ := by
  have hwait : ∀ e', Waiting l' e' → Waiting l e' := by
    intro e' he'
    by_cases hne : e' = e
    · subst hne
      exact absurd he' h.gone
    · exact (h.waiting e' hne).1 he'
  exact
    { released := fun k hk => by cases hk
      held := fun k _ hh => by rwa [Held, h.permits]
      releasedOf := fun k hr => by rwa [Released, h.permits]
      gone := fun e' he' => by
        obtain rfl := Option.some.inj he'
        exact h.gone
      waiting := fun e' hne => h.waiting e' fun he' => hne (congrArg some he'.symm)
      waitingOf := hwait
      numbered := by
        refine ⟨h.nodup, fun x hx => ?_⟩
        rw [h.nextEntry]
        exact (hwait x.id ⟨x, hx, rfl⟩).lt hn
      length := by rw [h.permits]
      nextEntry := h.nextEntry }

theorem Called.of_frees (hn : Numbered l) (h : Frees l l' k) : Called l l' ⟨none, some k⟩ := by
  have hwait : ∀ e, Waiting l' e ↔ Waiting l e := by
    intro e
    rw [Waiting, Waiting, h.queue]
  exact
    { released := fun k' hk' => by
        obtain rfl := Option.some.inj hk'
        exact h.released
      held := fun k' hne => h.held k' fun hk' => hne (congrArg some hk'.symm)
      releasedOf := h.releasedOf
      gone := fun e he => by cases he
      waiting := fun e _ => hwait e
      waitingOf := fun e => (hwait e).1
      numbered := ⟨by rw [h.queue]; exact hn.nodup, by rw [h.queue, h.nextEntry]; exact hn.lt⟩
      length := h.length
      nextEntry := h.nextEntry }

theorem Called.trans {l'' : Limiter.State} {e? k? : Option ℕ} (h : Called l l' ⟨e?, none⟩)
    (h' : Called l' l'' ⟨none, k?⟩) : Called l l'' ⟨e?, k?⟩ where
  released k hk hh := h'.released k hk (h.held k (fun hc => by cases hc) hh)
  held k hk hh := h'.held k hk (h.held k (fun hc => by cases hc) hh)
  releasedOf k hr := h'.releasedOf k (h.releasedOf k hr)
  gone e he hw := h.gone e he (h'.waitingOf e hw)
  waiting e he := (h'.waiting e (fun hc => by cases hc)).trans (h.waiting e he)
  waitingOf e hw := h.waitingOf e (h'.waitingOf e hw)
  numbered := h'.numbered
  length := h'.length.trans h.length
  nextEntry := h'.nextEntry.trans h.nextEntry

theorem called_calls (hn : Numbered l) (hp : l.pumping = false) (c : Calls) : Called l (calls cfg l c) c := by
  obtain ⟨e?, k?⟩ := c
  have hrelease : ∀ {l : Limiter.State} (k? : Option ℕ), Numbered l → l.pumping = false →
      Called l (calls cfg l ⟨none, k?⟩) ⟨none, k?⟩ := by
    intro l k? hn hp
    cases k? with
    | none => exact .of_same hn rfl rfl rfl
    | some k => exact .of_frees hn (frees_release hp)
  cases e? with
  | none => exact hrelease k? hn hp
  | some e =>
    have hcancel : Called l (Limiter.step cfg l (.cancel e)).1 ⟨some e, none⟩ := .of_leaves hn (leaves_cancel hn hp)
    exact hcancel.trans (hrelease k? hcancel.numbered (pumping_cancel hp))

theorem accounted_calls (ha : Accounted cfg l) (c : Calls) : Accounted cfg (calls cfg l c) := by
  have hstep : ∀ {l} (e : Limiter.Event), Accounted cfg l → Accounted cfg (Limiter.step cfg l e).1 :=
    fun e h => h.move (step_move cfg _ e)
  unfold calls
  dsimp only
  split <;> split
  · exact hstep _ (hstep _ ha)
  · exact hstep _ ha
  · exact hstep _ ha
  · exact ha

/-! ## What is a job's own -/

structure Own (job : Job) : Prop where
  acq : ∀ k, job.acq = .granted k → job.grant = some k
  permit : ∀ k, job.limiterPermit = some k → job.grant = some k
  held : ∀ k, job.heldPermit = some k → job.grant = some k
  cancel : ∀ e, job.queueCancel = some e → job.acq = .queued e

/-- A task of a job leaves it its own, and gives back nothing else. -/
structure Keeps (job : Job) (r : Job × Calls) : Prop where
  acq : r.1.acq = job.acq
  grant : r.1.grant = job.grant
  threw : job.start = .threw → r.1.start = .threw
  own : Own r.1
  release : ∀ k, r.2.release = some k → job.grant = some k
  cancel : ∀ e, r.2.cancel = some e → job.acq = .queued e

/-- What a job holds, and how far its start has come. -/
structure Holdings where
  acq : Acquired
  grant : Option ℕ
  limiterPermit : Option ℕ
  heldPermit : Option ℕ
  queueCancel : Option ℕ
  deferLaunch : Bool
  launchReleased : Bool
  start : StartCall
  begun : Bool

def Job.holdings (job : Job) : Holdings :=
  ⟨job.acq, job.grant, job.limiterPermit, job.heldPermit, job.queueCancel, job.deferLaunch, job.launchReleased, job.start,
    job.begun⟩

theorem Own.keeps {r : Job × Calls} (h : Own job) (ha : r.1.acq = job.acq) (hg : r.1.grant = job.grant)
    (ht : job.start = .threw → r.1.start = .threw)
    (hp : ∀ k, r.1.limiterPermit = some k → job.grant = some k)
    (hh : ∀ k, r.1.heldPermit = some k → job.grant = some k) (hc : ∀ e, r.1.queueCancel = some e → job.acq = .queued e)
    (hr : ∀ k, r.2.release = some k → job.grant = some k) (he : ∀ e, r.2.cancel = some e → job.acq = .queued e) :
    Keeps job r where
  acq := ha
  grant := hg
  threw := ht
  own :=
    { acq := by rw [ha, hg]; exact h.acq
      permit := by rw [hg]; exact hp
      held := by rw [hg]; exact hh
      cancel := by rw [ha]; exact hc }
  release := hr
  cancel := he

/-- A task that keeps what the job holds, and does not call the limiter. -/
theorem Own.same {job' : Job} (h : Own job) (hs : job'.holdings = job.holdings) : Keeps job (job', .none) := by
  simp only [Job.holdings, Holdings.mk.injEq] at hs
  obtain ⟨ha, hg, hp, hh, hc, -, -, hst, -⟩ := hs
  exact h.keeps ha hg (fun ht => hst.trans ht) (fun k hk => h.permit k (hp ▸ hk)) (fun k hk => h.held k (hh ▸ hk))
    (fun e he => h.cancel e (hc ▸ he)) (fun k hk => by cases hk) (fun e he => by cases he)

/-- A change behind the beginning of a launch. -/
theorem Job.holdings_of_begun {job' : Job} (hb : job.begun = true) (hb' : job'.begun = true)
    (h : job'.holdings = { job.holdings with begun := job'.begun }) : job'.holdings = job.holdings := by
  rw [h, hb', ← hb]
  rfl

theorem Job.holdings_spawn (d : Bool) (r : Job.Spawn) : (job.spawn d r).holdings = job.holdings := by
  unfold Job.spawn
  split
  · rename_i hl
    have hb : job.begun = true := by simp [Job.begun, hl]
    split
    · exact holdings_of_begun hb rfl rfl
    · split
      · exact holdings_of_begun hb rfl rfl
      · split <;> exact holdings_of_begun hb rfl rfl
  · rfl

theorem Job.holdings_attach (ok : Bool) : (job.attach ok).holdings = job.holdings := by
  unfold Job.attach
  split
  · rename_i hl
    have hb : job.begun = true := by simp [Job.begun, hl]
    split <;> exact holdings_of_begun hb rfl rfl
  · rfl

theorem Job.holdings_requestTermination : job.requestTermination.holdings = job.holdings := by
  unfold Job.requestTermination
  dsimp only
  split <;> rfl

theorem Job.holdings_idleTimeout : job.idleTimeout.holdings = job.holdings := by
  unfold Job.idleTimeout
  split
  · exact holdings_requestTermination
  · rfl

theorem Job.holdings_outputOverflow : job.outputOverflow.holdings = job.holdings := by
  unfold Job.outputOverflow
  split
  · exact holdings_requestTermination
  · rfl

theorem Job.holdings_stdinFailure : job.stdinFailure.holdings = job.holdings := by
  unfold Job.stdinFailure
  split <;> rfl

theorem Job.holdings_childError : job.childError.holdings = job.holdings := by
  unfold Job.childError
  split
  · split
    · dsimp only
      split <;> rfl
    · rfl
  · rfl

theorem Job.holdings_childClose (clean : Bool) : (job.childClose clean).holdings = job.holdings := by
  unfold Job.childClose
  split
  · dsimp only
    split
    · split
      · rfl
      · split
        · rfl
        · split
          · rfl
          · split <;> rfl
    · rfl
  · rfl

theorem Job.holdings_finalizeHttpJob (ok : Bool) : (job.finalizeHttpJob ok).holdings = job.holdings := by
  unfold Job.finalizeHttpJob
  split
  · rename_i hl
    have hb : job.begun = true := by
      have hatt := (Bool.and_eq_true_iff.1 hl).2
      simp only [decide_eq_true_eq] at hatt
      simp [Job.begun, hatt]
    dsimp only
    split
    · exact holdings_of_begun hb rfl rfl
    · split
      · exact holdings_of_begun hb rfl rfl
      · split
        · exact holdings_of_begun hb rfl rfl
        · split <;> exact holdings_of_begun hb rfl rfl
  · rfl

theorem Job.holdings_deadProcess : job.deadProcess.holdings = job.holdings := by
  unfold Job.deadProcess
  split
  · split <;> rfl
  · rfl

theorem Job.holdings_exitedMismatch : job.exitedMismatch.holdings = job.holdings := by
  unfold Job.exitedMismatch
  split <;> rfl

theorem Job.holdings_shutdownRunning (d : Bool) : (job.shutdownRunning d).holdings = job.holdings := by
  unfold Job.shutdownRunning
  split <;> rfl

/-- Behind the queue, `cancelJob` leaves the slot alone. -/
theorem Job.cancelJob_of_not_queued (hq : job.status ≠ .queued) :
    job.cancelJob.1.holdings = job.holdings ∧ job.cancelJob.2 = .none := by
  unfold Job.cancelJob
  rw [if_neg hq]
  split
  · exact ⟨rfl, rfl⟩
  · split
    · exact ⟨rfl, rfl⟩
    · split
      · exact ⟨rfl, rfl⟩
      · split
        · exact ⟨rfl, rfl⟩
        · refine ⟨?_, rfl⟩
          dsimp only
          split <;> rfl

/-- A launch with a permit of the job's own. -/
theorem Own.launch {d : Bool} (h : Own job) (hk : job.grant = some k) : Keeps job (job.launch d k) := by
  have hself : ∀ k', some k = some k' → job.grant = some k' := fun k' hk' => hk.trans hk'
  unfold Job.launch Job.failQueuedJob Job.releaseJobPermit
  dsimp only
  split
  · split
    · exact h.keeps rfl rfl id hself h.held (fun e he => by cases he) (fun k hk => by cases hk) (fun e he => by cases he)
    · exact h.keeps rfl rfl id hself h.held (fun e he => by cases he) (fun k hk => by cases hk) (fun e he => by cases he)
  · split
    · exact h.keeps rfl rfl id (fun k hk => by cases hk) h.held (fun e he => by cases he) hself (fun e he => by cases he)
    · exact h.keeps rfl rfl id hself h.held (fun e he => by cases he) (fun k hk => by cases hk) (fun e he => by cases he)

/-- The tasks keep to what is the job's own. -/
theorem keeps_step {d : Bool} (h : Own job) (e : Job.Event) : Keeps job (job.step d e) := by
  have hnone : ∀ {a : ℕ} {P : Prop}, (none : Option ℕ) = some a → P := fun ha => by cases ha
  cases e with
  | recordStart ok =>
    simp only [Job.step, Job.recordStartOrFailClosed]
    split
    · rename_i hs
      have ht : ∀ {st : StartCall}, job.start = .threw → st = .threw := fun ht => by rw [hs] at ht; cases ht
      split
      · exact h.keeps rfl rfl ht h.permit h.held h.cancel (fun k hk => hnone hk) (fun e he => hnone he)
      · split
        · rename_i k ha
          refine h.keeps rfl rfl ht h.permit h.held h.cancel (fun k' hk' => ?_) (fun e he => hnone he)
          exact (h.acq k ha).trans hk'
        · rename_i e ha
          refine h.keeps rfl rfl ht h.permit h.held h.cancel (fun k hk => hnone hk) (fun e' he' => ?_)
          rw [ha, Option.some.inj he']
    · exact h.same rfl
  | resume =>
    simp only [Job.step, Job.resume]
    split
    · rename_i hs
      have ht : ∀ {st : StartCall}, job.start = .threw → st = .threw := fun ht => by rw [hs] at ht; cases ht
      have hret : Own { job with start := .returned } := ⟨h.acq, h.permit, h.held, h.cancel⟩
      split
      · rename_i k ha
        have hself : ∀ k', some k = some k' → job.grant = some k' := fun k' hk' => (h.acq k ha).trans hk'
        split
        · exact h.keeps rfl rfl ht hself hself h.cancel (fun k hk => hnone hk) (fun e he => hnone he)
        · have hl := hret.launch (d := d) (h.acq k ha)
          exact ⟨hl.acq, hl.grant, ht, hl.own, hl.release, hl.cancel⟩
      · rename_i e ha
        refine h.keeps rfl rfl ht h.permit h.held (fun e' he' => ?_) (fun k hk => hnone hk) (fun e he => hnone he)
        rw [ha, Option.some.inj he']
    · exact h.same rfl
  | spawn result => exact h.same (Job.holdings_spawn d result)
  | attach ok => exact h.same (Job.holdings_attach ok)
  | idleTimeout => exact h.same Job.holdings_idleTimeout
  | outputOverflow => exact h.same Job.holdings_outputOverflow
  | stdinFailure => exact h.same Job.holdings_stdinFailure
  | childError => exact h.same Job.holdings_childError
  | childClose clean => exact h.same (Job.holdings_childClose clean)
  | settle ok => exact h.same (Job.holdings_finalizeHttpJob ok)
  | deadProcess => exact h.same Job.holdings_deadProcess
  | exitedMismatch => exact h.same Job.holdings_exitedMismatch
  | cancelJob =>
    by_cases hq : job.status = .queued
    · simp only [Job.step, Job.cancelJob, hq, if_true]
      split
      · exact h.same rfl
      · exact h.keeps rfl rfl id (fun k hk => hnone hk) h.held (fun e he => hnone he) h.permit h.cancel
    · obtain ⟨hs, hcalls⟩ := Job.cancelJob_of_not_queued hq
      have hsame := h.same hs
      rw [← hcalls] at hsame
      exact hsame
  | deferredRelease =>
    simp only [Job.step, Job.deferredRelease]
    split
    · have hrel : Keeps job ({ job with launchReleased := true }, .none) :=
        h.keeps rfl rfl id h.permit h.held h.cancel (fun k hk => hnone hk) (fun e he => hnone he)
      split
      · exact hrel
      · split
        · rename_i k hheld
          have hown : Own { job with launchReleased := true, heldPermit := none } :=
            ⟨h.acq, h.permit, fun k hk => hnone hk, h.cancel⟩
          have hl := hown.launch (d := d) (h.held k hheld)
          exact ⟨hl.acq, hl.grant, hl.threw, hl.own, hl.release, hl.cancel⟩
        · exact hrel
    · exact h.same rfl
  | deferredCancel =>
    simp only [Job.step, Job.deferredCancel]
    split
    · exact h.keeps rfl rfl id h.permit (fun k hk => hnone hk) h.cancel (fun k hk => hnone hk) (fun e he => hnone he)
    · exact h.same rfl
  | shutdownQueued =>
    simp only [Job.step, Job.shutdownQueued, Job.failQueuedJob]
    split
    · split
      · exact h.keeps rfl rfl id h.permit h.held (fun e he => hnone he) (fun k hk => hnone hk) h.cancel
      · exact h.keeps rfl rfl id h.permit h.held h.cancel (fun k hk => hnone hk) h.cancel
    · exact h.same rfl
  | shutdownRunning => exact h.same (Job.holdings_shutdownRunning d)
  | fireOnComplete acknowledged =>
    simp only [Job.step, Job.fireOnComplete]
    split
    · split
      · exact h.same rfl
      · split
        · exact h.same rfl
        · exact h.keeps rfl rfl id (fun k hk => hnone hk) h.held h.cancel h.permit (fun e he => hnone he)
    · exact h.same rfl

theorem Own.accept (h : Own job) (ha : job.acq = .queued e) (hg : job.grant = none) : Own (job.accept k) where
  acq k' hk' := by
    rw [Job.accept, ha] at hk'
    cases hk'
  permit k' hk' := by
    have := h.permit k' hk'
    rw [hg] at this
    cases this
  held k' hk' := by
    have := h.held k' hk'
    rw [hg] at this
    cases this
  cancel e he := by cases he

theorem Own.grantOrHold {d : Bool} (h : Own (job.accept k)) : Keeps (job.accept k) (job.grantOrHold d k) := by
  unfold Job.grantOrHold
  dsimp only
  split
  · exact h.launch rfl
  · exact h.keeps rfl rfl id (fun _ hk => hk) (fun _ hk => hk) h.cancel (fun k hk => by cases hk)
      (fun e he => by cases he)

/-! ## What holds in every run -/

/-- No two jobs have a permit or an entry in common, and a job that was granted its permit waits no more. -/
structure Base (cfg : Limiter.Config) (s : State) : Prop where
  numbered : Numbered s.limiter
  accounted : Accounted cfg s.limiter
  own : ∀ (j : ℕ) (job : Job), s.jobs[j]? = some job → Own job
  grant_lt : ∀ (j : ℕ) (job : Job) (k : ℕ), s.jobs[j]? = some job → job.grant = some k → k < s.limiter.permits.length
  entry_lt : ∀ (j : ℕ) (job : Job) (e : ℕ), s.jobs[j]? = some job → job.acq = .queued e → e < s.limiter.nextEntry
  granted : ∀ (j : ℕ) (job : Job) (e : ℕ), s.jobs[j]? = some job → job.acq = .queued e → job.grant ≠ none → ¬Waiting s.limiter e
  grants : ∀ (i j : ℕ) (a b : Job) (k : ℕ), s.jobs[i]? = some a → s.jobs[j]? = some b → a.grant = some k → b.grant = some k → i = j
  entries : ∀ (i j : ℕ) (a b : Job) (e : ℕ), s.jobs[i]? = some a → s.jobs[j]? = some b → a.acq = .queued e → b.acq = .queued e → i = j

/-- All jobs have the property `P`. -/
structure Inv (cfg : Limiter.Config) (P : Limiter.State → Job → Prop) (s : State) : Prop extends Base cfg s where
  each : ∀ (j : ℕ) (job : Job), s.jobs[j]? = some job → P s.limiter job

variable {P : Limiter.State → Job → Prop}

/-- A property of a job, its permit and its entry. -/
def Stable (P : Limiter.State → Job → Prop) : Prop :=
  ∀ (l l' : Limiter.State) (job : Job), P l job → (∀ k, job.grant = some k → (Held l k → Held l' k) ∧ (Released l k → Released l' k)) →
    (∀ e, job.acq = .queued e → (Waiting l' e ↔ Waiting l e)) → P l' job

theorem Called.stable (h : Called l l' c) (hP : Stable P) (hr : ∀ k, c.release = some k → job.grant ≠ some k)
    (he : ∀ e, c.cancel = some e → job.acq ≠ .queued e) (hp : P l job) : P l' job := by
  refine hP l l' job hp (fun k hk => ⟨h.held k fun hc => hr k hc hk, h.releasedOf k⟩) fun e ha => ?_
  exact h.waiting e fun hc => he e hc ha

/-- The limiter moves on, and leaves the jobs their permits and entries. -/
theorem Inv.limiter (h : Inv cfg P s) (hP : Stable P) (hn : Numbered l') (ha : Accounted cfg l')
    (hlen : s.limiter.permits.length ≤ l'.permits.length) (hnext : s.limiter.nextEntry ≤ l'.nextEntry)
    (hperm : ∀ (j : ℕ) (job : Job) (k : ℕ), s.jobs[j]? = some job → job.grant = some k →
      (Held s.limiter k → Held l' k) ∧ (Released s.limiter k → Released l' k))
    (hwait : ∀ (j : ℕ) (job : Job) (e : ℕ), s.jobs[j]? = some job → job.acq = .queued e →
      (Waiting l' e ↔ Waiting s.limiter e)) : Inv cfg P { s with limiter := l' } where
  numbered := hn
  accounted := ha
  own := h.own
  grant_lt j job k hj hk := Nat.lt_of_lt_of_le (h.grant_lt j job k hj hk) hlen
  entry_lt j job e hj he := Nat.lt_of_lt_of_le (h.entry_lt j job e hj he) hnext
  granted j job e hj he hg hw := h.granted j job e hj he hg ((hwait j job e hj he).1 hw)
  grants := h.grants
  entries := h.entries
  each j job hj := hP _ _ job (h.each j job hj) (hperm j job · hj) (hwait j job · hj)

/-- Calls at the limiter that touch nothing of any job. -/
theorem Inv.called (h : Inv cfg P s) (hP : Stable P) (hc : Called s.limiter l' c) (ha : Accounted cfg l')
    (hr : ∀ (j : ℕ) (job : Job) (k : ℕ), s.jobs[j]? = some job → c.release = some k → job.grant ≠ some k)
    (he : ∀ (j : ℕ) (job : Job) (e : ℕ), s.jobs[j]? = some job → c.cancel = some e → job.acq ≠ .queued e) :
    Inv cfg P { s with limiter := l' } :=
  h.limiter hP hc.numbered ha (Nat.le_of_eq hc.length.symm) (Nat.le_of_eq hc.nextEntry.symm)
    (fun j job k hj hk => ⟨hc.held k fun hrel => hr j job k hj hrel hk, hc.releasedOf k⟩)
    fun j job e hj hacq => hc.waiting e fun hcan => he j job e hj hcan hacq

theorem Inv.extends (h : Inv cfg P s) (hP : Stable P) (hx : Extends s.limiter l') (ha : Accounted cfg l') :
    Inv cfg P { s with limiter := l' } :=
  h.limiter hP hx.numbered ha hx.length hx.nextEntry (fun _ _ k _ _ => ⟨hx.held k, hx.released k⟩)
    fun j job e hj he => hx.waiting e (h.entry_lt j job e hj he)

/-- A task of a job that keeps to what is the job's own. -/
theorem Inv.act {r : Job × Calls} (h : Inv cfg P s) (hP : Stable P) (hj : s.jobs[j]? = some job) (hk : Keeps job r)
    (hc : Called s.limiter l' r.2) (ha : Accounted cfg l') (hp : P l' r.1) :
    Inv cfg P { s with limiter := l', jobs := s.jobs.set j r.1 } := by
  have hlt := (List.getElem?_eq_some_iff.1 hj).1
  -- the jobs of the new list are those of the old one, with the same permit and entry
  have hold : ∀ i a, (s.jobs.set j r.1)[i]? = some a →
      ∃ b, s.jobs[i]? = some b ∧ b.grant = a.grant ∧ b.acq = a.acq ∧ (i = j ∧ b = job ∧ a = r.1 ∨ i ≠ j ∧ b = a) := by
    intro i a hi
    by_cases hne : i = j
    · subst hne
      rw [List.getElem?_set_self hlt] at hi
      obtain rfl := Option.some.inj hi
      exact ⟨job, hj, hk.grant.symm, hk.acq.symm, .inl ⟨rfl, rfl, rfl⟩⟩
    · rw [List.getElem?_set_ne (Ne.symm hne)] at hi
      exact ⟨a, hi, rfl, rfl, .inr ⟨hne, rfl⟩⟩
  exact
    { numbered := hc.numbered
      accounted := ha
      own := by
        intro i a hi
        obtain ⟨b, hb, -, -, ⟨-, -, rfl⟩ | ⟨-, rfl⟩⟩ := hold i a hi
        · exact hk.own
        · exact h.own i b hb
      grant_lt := by
        intro i a k hi hg
        obtain ⟨b, hb, hbg, -⟩ := hold i a hi
        rw [hc.length]
        exact h.grant_lt i b k hb (hbg.trans hg)
      entry_lt := by
        intro i a e hi hacq
        obtain ⟨b, hb, -, hba, -⟩ := hold i a hi
        rw [hc.nextEntry]
        exact h.entry_lt i b e hb (hba.trans hacq)
      granted := by
        intro i a e hi hacq hg hw
        obtain ⟨b, hb, hbg, hba, -⟩ := hold i a hi
        exact h.granted i b e hb (hba.trans hacq) (by rwa [hbg]) (hc.waitingOf e hw)
      grants := by
        intro i i' a a' k hi hi' hg hg'
        obtain ⟨b, hb, hbg, -⟩ := hold i a hi
        obtain ⟨b', hb', hbg', -⟩ := hold i' a' hi'
        exact h.grants i i' b b' k hb hb' (hbg.trans hg) (hbg'.trans hg')
      entries := by
        intro i i' a a' e hi hi' hacq hacq'
        obtain ⟨b, hb, -, hba, -⟩ := hold i a hi
        obtain ⟨b', hb', -, hba', -⟩ := hold i' a' hi'
        exact h.entries i i' b b' e hb hb' (hba.trans hacq) (hba'.trans hacq')
      each := by
        intro i a hi
        obtain ⟨b, hb, -, -, ⟨-, -, rfl⟩ | ⟨hne, rfl⟩⟩ := hold i a hi
        · exact hp
        · refine hc.stable hP (fun k hrel hg => hne ?_) (fun e hcan hacq => hne ?_) (h.each i b hb)
          · exact h.grants i j b job k hb hj hg (hk.release k hrel)
          · exact h.entries i j b job e hb hj hacq (hk.cancel e hcan) }

/-! ## The rule -/

/-- What a proof of a property of the jobs has to show, under the condition `C` on the steps: new jobs have it, their
tasks keep it, and so do the two callbacks of their queue entry. -/
structure Closed (cfg : Limiter.Config) (C : State → Event → Prop) (P : Limiter.State → Job → Prop) : Prop where
  granted : ∀ l provider transport deferLaunch kit k, Held l k → P l (.new provider transport deferLaunch kit (.granted k))
  queued : ∀ l provider transport deferLaunch kit e, Waiting l e → P l (.new provider transport deferLaunch kit (.queued e))
  step : ∀ (s : State) (j : ℕ) (job : Job) (e : Job.Event) (l' : Limiter.State), C s (.job j e) → s.jobs[j]? = some job → Own job → P s.limiter job →
    Called s.limiter l' (job.step s.disposed e).2 → P l' (job.step s.disposed e).1
  timeout : ∀ l l' job e, Own job → P l job → job.acq = .queued e → job.grant = none → Called l l' ⟨some e, none⟩ →
    P l' job.failQueuedJob
  grant : ∀ (s : State) (j : ℕ) (job : Job) (l l' : Limiter.State) (e k : ℕ), C s .pump → s.jobs[j]? = some job → Own job → P s.limiter job →
    (∃ x, (Limiter.step cfg s.limiter .tick).2 = .fired x k ∧ x.id = e) → job.acq = .queued e → job.grant = none →
    Waiting s.limiter e → Held l k → ¬Waiting l e → Called l l' (job.grantOrHold s.disposed k).2 → P l' (job.grantOrHold s.disposed k).1

theorem own_new (provider : String) (transport : Transport) (deferLaunch kit : Bool) (a : Acquired) :
    Own (.new provider transport deferLaunch kit a) where
  acq k hk := by
    obtain rfl : a = .granted k := hk
    rfl
  permit k hk := by cases hk
  held k hk := by cases hk
  cancel e he := by cases he

/-- One more job: its permit or its entry is new. -/
theorem Inv.append {a : Acquired} {provider : String} {transport : Transport} {deferLaunch kit : Bool}
    (h : Inv cfg P s) (hP : Stable P) (hx : Extends s.limiter l') (ha : Accounted cfg l')
    (hgranted : ∀ k, a = .granted k → s.limiter.permits.length ≤ k ∧ k < l'.permits.length)
    (hqueued : ∀ e, a = .queued e → s.limiter.nextEntry ≤ e ∧ e < l'.nextEntry)
    (hp : P l' (.new provider transport deferLaunch kit a)) :
    Inv cfg P { s with limiter := l', jobs := s.jobs ++ [.new provider transport deferLaunch kit a] } := by
  have hold : ∀ i b, (s.jobs ++ [Job.new provider transport deferLaunch kit a])[i]? = some b →
      s.jobs[i]? = some b ∨ i = s.jobs.length ∧ b = .new provider transport deferLaunch kit a := by
    intro i b hi
    rcases Nat.lt_or_ge i s.jobs.length with hlt | hge
    · rw [List.getElem?_append_left hlt] at hi
      exact .inl hi
    · rw [List.getElem?_append_right hge] at hi
      obtain ⟨hz, hb⟩ := List.getElem?_eq_some_iff.1 hi
      have hi' : i = s.jobs.length := by
        simp at hz
        omega
      subst hi'
      simp at hb
      exact .inr ⟨rfl, hb.symm⟩
  have hnewgrant : ∀ k, (Job.new provider transport deferLaunch kit a).grant = some k → a = .granted k := by
    intro k hk
    cases a with
    | granted k' =>
      obtain rfl := Option.some.inj hk
      rfl
    | queued e => cases hk
  exact
    { numbered := hx.numbered
      accounted := ha
      own := by
        intro i b hi
        rcases hold i b hi with hb | ⟨-, rfl⟩
        · exact h.own i b hb
        · exact own_new _ _ _ _ _
      grant_lt := by
        intro i b k hi hg
        rcases hold i b hi with hb | ⟨-, rfl⟩
        · exact Nat.lt_of_lt_of_le (h.grant_lt i b k hb hg) hx.length
        · exact (hgranted k (hnewgrant k hg)).2
      entry_lt := by
        intro i b e hi hacq
        rcases hold i b hi with hb | ⟨-, rfl⟩
        · exact Nat.lt_of_lt_of_le (h.entry_lt i b e hb hacq) hx.nextEntry
        · exact (hqueued e hacq).2
      granted := by
        intro i b e hi hacq hg hw
        rcases hold i b hi with hb | ⟨-, rfl⟩
        · exact h.granted i b e hb hacq hg ((hx.waiting e (h.entry_lt i b e hb hacq)).1 hw)
        · obtain rfl : a = .queued e := hacq
          exact hg rfl
      grants := by
        intro i i' b b' k hi hi' hg hg'
        rcases hold i b hi with hb | ⟨rfl, rfl⟩
        · rcases hold i' b' hi' with hb' | ⟨rfl, rfl⟩
          · exact h.grants i i' b b' k hb hb' hg hg'
          · exact absurd (h.grant_lt i b k hb hg) (Nat.not_lt.2 (hgranted k (hnewgrant k hg')).1)
        · rcases hold i' b' hi' with hb' | ⟨rfl, rfl⟩
          · exact absurd (h.grant_lt i' b' k hb' hg') (Nat.not_lt.2 (hgranted k (hnewgrant k hg)).1)
          · rfl
      entries := by
        intro i i' b b' e hi hi' hacq hacq'
        rcases hold i b hi with hb | ⟨rfl, rfl⟩
        · rcases hold i' b' hi' with hb' | ⟨rfl, rfl⟩
          · exact h.entries i i' b b' e hb hb' hacq hacq'
          · exact absurd (h.entry_lt i b e hb hacq) (Nat.not_lt.2 (hqueued e hacq').1)
        · rcases hold i' b' hi' with hb' | ⟨rfl, rfl⟩
          · exact absurd (h.entry_lt i' b' e hb' hacq') (Nat.not_lt.2 (hqueued e hacq).1)
          · rfl
      each := by
        intro i b hi
        rcases hold i b hi with hb | ⟨-, rfl⟩
        · exact hP _ l' b (h.each i b hb) (fun k _ => ⟨hx.held k, hx.released k⟩)
            fun e hacq => hx.waiting e (h.entry_lt i b e hb hacq)
        · exact hp }

theorem Inv.start {C : State → Event → Prop} {provider : String} {transport : Transport} {deferLaunch kit : Bool}
    (h : Inv cfg P s) (hP : Stable P) (hc : Closed cfg C P) :
    Inv cfg P (s.start cfg provider transport deferLaunch kit) := by
  have ha : Accounted cfg (Limiter.step cfg s.limiter (.acquire provider)).1 := h.accounted.move (step_move cfg _ _)
  obtain ⟨hx, hcases⟩ := @step_acquire cfg _ provider h.numbered
  unfold State.start
  dsimp only
  rcases hcases with ⟨k, ho, hle, hlt, hheld⟩ | ⟨x, ho, hle, hlt, hw⟩ | ho | ho
  · rw [ho]
    refine h.append hP hx ha (fun k' hk' => ?_) (fun e he => by cases he) (hc.granted _ _ _ _ _ k hheld)
    obtain rfl := Acquired.granted.inj hk'
    exact ⟨hle, hlt⟩
  · rw [ho]
    refine h.append hP hx ha (fun k hk => by cases hk) (fun e he => ?_) (hc.queued _ _ _ _ _ x.id hw)
    obtain rfl := Acquired.queued.inj he
    exact ⟨hle, hlt⟩
  · rw [ho]
    exact h.extends hP hx ha
  · rw [ho]
    exact h.extends hP hx ha

/-- A step of the limiter that changes none of its permits and entries. -/
theorem Inv.quiet (h : Inv cfg P s) (hP : Stable P) (ha : Accounted cfg l') (hp : l'.permits = s.limiter.permits)
    (hq : l'.queue = s.limiter.queue) (hn : l'.nextEntry = s.limiter.nextEntry) :
    Inv cfg P { s with limiter := l' } :=
  h.called hP (.of_same h.numbered hp hq hn) ha (fun _ _ k _ hk => by cases hk) (fun _ _ e _ he => by cases he)

theorem waiter_eq_some {s : State} (h : s.waiter e = some j) : ∃ job, s.jobs[j]? = some job ∧ job.acq = .queued e := by
  obtain ⟨hlt, hacq, -⟩ := List.findIdx?_eq_some_iff_getElem.1 h
  exact ⟨_, List.getElem?_eq_getElem hlt, by simpa using hacq⟩

theorem waiter_eq_none {s : State} (h : s.waiter e = none) (hj : s.jobs[j]? = some job) : job.acq ≠ .queued e := by
  have := List.findIdx?_eq_none_iff.1 h job (List.mem_of_getElem? hj)
  simpa using this

theorem Inv.queueTimeout {C : State → Event → Prop} (h : Inv cfg P s) (hP : Stable P) (hc : Closed cfg C P) :
    Inv cfg P (s.queueTimeout cfg e) := by
  have ha : Accounted cfg (Limiter.step cfg s.limiter (.timeout e)).1 := h.accounted.move (step_move cfg _ _)
  unfold State.queueTimeout
  dsimp only
  rcases @step_timeout cfg _ e h.numbered with ⟨x, ho, rfl, hw, hl⟩ | ⟨ho, hl⟩
  · rw [ho]
    dsimp only
    have hcalled : Called s.limiter (Limiter.step cfg s.limiter (.timeout x.id)).1 ⟨some x.id, none⟩ :=
      .of_leaves h.numbered hl
    unfold State.onTimeout
    split
    · rename_i j hj
      obtain ⟨job, hj, hacq⟩ := waiter_eq_some hj
      have hj' : s.jobs[j]? = some job := hj
      have hg : job.grant = none := by
        by_contra hne
        exact h.granted j job x.id hj' hacq hne hw
      have hown := h.own j job hj'
      have hkeeps : Keeps job (job.failQueuedJob, ⟨some x.id, none⟩) := by
        have hcancel : ∀ e, some x.id = some e → job.acq = .queued e := fun e he => Option.some.inj he ▸ hacq
        unfold Job.failQueuedJob
        split
        · exact hown.keeps rfl rfl id hown.permit hown.held (fun e he => by cases he) (fun k hk => by cases hk) hcancel
        · exact hown.keeps rfl rfl id hown.permit hown.held hown.cancel (fun k hk => by cases hk) hcancel
      have hact := h.act hP hj' hkeeps hcalled ha (hc.timeout _ _ _ _ hown (h.each j job hj') hacq hg hcalled)
      simp only [State.act, hj]
      exact hact
    · rename_i hnone
      refine h.called hP hcalled ha (fun _ _ k _ hk => by cases hk) fun j job e' hj he hacq => ?_
      obtain rfl := Option.some.inj he
      exact waiter_eq_none hnone hj hacq
  · rw [ho, hl]
    exact h

/-- The job with the entry that a scan of `pump` granted has left the queue, with its permit. -/
theorem Base.accept (h : Base cfg s) (hj : s.jobs[j]? = some job) (hacq : job.acq = .queued e) (hw : Waiting s.limiter e)
    (hg : Grants s.limiter l') (hgone : ¬Waiting l' e) (hwait : ∀ e', e' ≠ e → (Waiting l' e' ↔ Waiting s.limiter e'))
    (hn : Numbered l') (ha : Accounted cfg l') :
    Base cfg { s with limiter := l', jobs := s.jobs.set j (job.accept s.limiter.permits.length) } := by
  have hlt := (List.getElem?_eq_some_iff.1 hj).1
  have hnone : job.grant = none := by
    by_contra hne
    exact h.granted j job e hj hacq hne hw
  have hold : ∀ i a, (s.jobs.set j (job.accept s.limiter.permits.length))[i]? = some a →
      i = j ∧ a = job.accept s.limiter.permits.length ∨ i ≠ j ∧ s.jobs[i]? = some a := by
    intro i a hi
    by_cases hne : i = j
    · subst hne
      rw [List.getElem?_set_self hlt] at hi
      exact .inl ⟨rfl, (Option.some.inj hi).symm⟩
    · rw [List.getElem?_set_ne (Ne.symm hne)] at hi
      exact .inr ⟨hne, hi⟩
  exact
    { numbered := hn
      accounted := ha
      own := by
        intro i a hi
        rcases hold i a hi with ⟨rfl, rfl⟩ | ⟨-, hb⟩
        · exact (h.own i job hj).accept hacq hnone
        · exact h.own i a hb
      grant_lt := by
        intro i a k hi hk
        rw [hg.length]
        rcases hold i a hi with ⟨rfl, rfl⟩ | ⟨-, hb⟩
        · obtain rfl := Option.some.inj hk
          exact Nat.lt_succ_self _
        · exact Nat.lt_succ_of_lt (h.grant_lt i a k hb hk)
      entry_lt := by
        intro i a e' hi he'
        rw [hg.nextEntry]
        rcases hold i a hi with ⟨rfl, rfl⟩ | ⟨-, hb⟩
        · exact h.entry_lt i job e' hj he'
        · exact h.entry_lt i a e' hb he'
      granted := by
        intro i a e' hi he' hne hw'
        rcases hold i a hi with ⟨rfl, rfl⟩ | ⟨hij, hb⟩
        · obtain rfl := Acquired.queued.inj (hacq.symm.trans he')
          exact hgone hw'
        · have hee : e' ≠ e := fun hee => hij (h.entries i j a job e' hb hj he' (hee ▸ hacq))
          exact h.granted i a e' hb he' hne ((hwait e' hee).1 hw')
      grants := by
        intro i i' a a' k hi hi' hk hk'
        rcases hold i a hi with ⟨rfl, rfl⟩ | ⟨hij, hb⟩
        · rcases hold i' a' hi' with ⟨rfl, rfl⟩ | ⟨-, hb'⟩
          · rfl
          · obtain rfl := Option.some.inj hk
            exact absurd (h.grant_lt i' a' _ hb' hk') (Nat.lt_irrefl _)
        · rcases hold i' a' hi' with ⟨rfl, rfl⟩ | ⟨-, hb'⟩
          · obtain rfl := Option.some.inj hk'
            exact absurd (h.grant_lt i a _ hb hk) (Nat.lt_irrefl _)
          · exact h.grants i i' a a' k hb hb' hk hk'
      entries := by
        intro i i' a a' e' hi hi' he he'
        rcases hold i a hi with ⟨rfl, rfl⟩ | ⟨-, hb⟩
        · rcases hold i' a' hi' with ⟨rfl, rfl⟩ | ⟨-, hb'⟩
          · rfl
          · exact h.entries i i' job a' e' hj hb' he he'
        · rcases hold i' a' hi' with ⟨rfl, rfl⟩ | ⟨-, hb'⟩
          · exact h.entries i i' a job e' hb hj he he'
          · exact h.entries i i' a a' e' hb hb' he he' }

theorem Inv.pump {C : State → Event → Prop} (h : Inv cfg P s) (hP : Stable P) (hc : Closed cfg C P) (hC : C s .pump) :
    Inv cfg P (s.pump cfg) := by
  unfold State.pump
  split
  · rename_i hpump
    have ha : Accounted cfg (Limiter.step cfg s.limiter .tick).1 := h.accounted.move (step_move cfg _ _)
    dsimp only
    rcases @step_tick cfg _ h.numbered hpump with ⟨x, ho, hw, hg, hgone, hwait, hn, hp⟩ | ⟨ho, hq, hp, hn⟩
    · rw [ho]
      dsimp only
      -- the limiter calls back in the middle of its scan
      generalize hl' : (Limiter.step cfg s.limiter .tick).1 = l' at *
      have hheld : Held l' s.limiter.permits.length := (hg.held _).2 (.inr rfl)
      unfold State.onGrant
      split
      · rename_i j hj
        obtain ⟨job, hj, hacq⟩ := waiter_eq_some hj
        have hj' : s.jobs[j]? = some job := hj
        have hlt := (List.getElem?_eq_some_iff.1 hj').1
        have hnone : job.grant = none := by
          by_contra hne
          exact h.granted j job x.id hj' hacq hne hw
        have hbase := h.toBase.accept hj' hacq hw hg hgone hwait hn ha
        have hown := (h.own j job hj').accept (k := s.limiter.permits.length) hacq hnone
        have hkeeps := hown.grantOrHold (d := s.disposed)
        have hcalled := @called_calls cfg _ hn hp (job.grantOrHold s.disposed s.limiter.permits.length).2
        -- all other jobs have what they had
        have hinv : Inv cfg (fun l a => a.acq = .queued x.id ∨ P l a)
            { s with limiter := l', jobs := s.jobs.set j (job.accept s.limiter.permits.length) } :=
          { hbase with
            each := by
              intro i a hi
              by_cases hne : i = j
              · subst hne
                rw [List.getElem?_set_self hlt] at hi
                obtain rfl := Option.some.inj hi
                exact .inl hacq
              · rw [List.getElem?_set_ne (Ne.symm hne)] at hi
                refine .inr (hP _ _ a (h.each i a hi) (fun k _ => ?_) fun e' he' => hwait e' fun hee => hne ?_)
                · exact ⟨fun hk => (hg.held k).2 (.inl hk), (hg.released k).2⟩
                · exact h.entries i j a job e' hi hj' he' (hee ▸ hacq) }
        have hstable : Stable fun l a => a.acq = .queued x.id ∨ P l a := by
          rintro l₁ l₂ a (hl | hl) hk he
          · exact .inl hl
          · exact .inr (hP l₁ l₂ a hl hk he)
        have hfinal := hc.grant s j job l' _ x.id _ hC hj' (h.own j job hj') (h.each j job hj') ⟨x, ho, rfl⟩ hacq hnone
          hw hheld hgone hcalled
        have hact := @Inv.act _ _ _ (job.accept s.limiter.permits.length) j _ _ hinv hstable
          (List.getElem?_set_self hlt) hkeeps hcalled (accounted_calls ha _) (.inr hfinal)
        simp only [State.act, hj]
        rw [List.set_set] at hact
        refine { hact with each := fun i a hi => ?_ }
        rcases hact.each i a hi with hl | hl
        · -- only the job itself waited with the entry
          have hij := hact.entries i j a _ x.id hi (List.getElem?_set_self hlt) hl (hkeeps.acq.trans hacq)
          subst hij
          have hi' : (s.jobs.set i (job.grantOrHold s.disposed s.limiter.permits.length).1)[i]? = some a := hi
          rw [List.getElem?_set_self hlt] at hi'
          obtain rfl := Option.some.inj hi'
          exact hfinal
        · exact hl
      · rename_i hnone
        have hinv : Inv cfg P { s with limiter := l' } := by
          refine h.limiter hP hn ha ?_ (Nat.le_of_eq hg.nextEntry.symm)
            (fun _ _ k _ _ => ⟨fun hk => (hg.held k).2 (.inl hk), (hg.released k).2⟩) fun j job e hj he => ?_
          · rw [hg.length]
            exact Nat.le_succ _
          · exact hwait e fun hee => waiter_eq_none hnone hj (hee ▸ he)
        split
        · refine hinv.called hP (c := ⟨none, some s.limiter.permits.length⟩) (.of_frees hn (frees_release hp))
            (ha.move (step_move cfg _ _)) (fun j job k hj hk hgr => ?_) (fun _ _ e _ he => by cases he)
          obtain rfl := Option.some.inj hk
          exact absurd (h.grant_lt j job _ hj hgr) (Nat.lt_irrefl _)
        · exact hinv
    · rw [ho]
      exact h.quiet hP ha hp hq hn
  · have ha : Accounted cfg (Limiter.step cfg s.limiter .callbackReturn).1 := h.accounted.move (step_move cfg _ _)
    obtain ⟨hq, hp, hn⟩ := @step_callbackReturn cfg s.limiter
    exact h.quiet hP ha hp hq hn

/-- **The rule**: a stable property that the tasks of a job keep is kept by every step. -/
theorem Inv.next {C : State → Event → Prop} {ev : Event} (h : Inv cfg P s) (hP : Stable P) (hc : Closed cfg C P)
    (hC : C s ev) : Inv cfg P (next cfg s ev) := by
  have hidle : s.idle = true → s.limiter.pumping = false := by
    intro hi
    simpa using (Bool.and_eq_true_iff.1 hi).1
  unfold JobSlots.next
  split
  · rename_i hi
    have hp := hidle hi
    cases ev with
    | start provider transport deferLaunch kit => exact h.start hP hc
    | job j e =>
      simp only [State.task, State.act]
      split
      · exact h
      · rename_i job hj
        have hcalled := @called_calls cfg _ h.numbered hp (job.step s.disposed e).2
        exact h.act hP hj (keeps_step (h.own j job hj) e) hcalled (accounted_calls h.accounted _)
          (hc.step s j job e _ hC hj (h.own j job hj) (h.each j job hj) hcalled)
    | queueTimeout e => exact h.queueTimeout hP hc
    | dispose => exact { h with }
    | acquireSlot provider =>
      exact h.extends hP (step_acquire provider h.numbered).1 (h.accounted.move (step_move cfg _ _))
    | releaseSlot k =>
      simp only [State.task]
      split
      · rename_i hall
        refine h.called hP (c := ⟨none, some k⟩) (.of_frees h.numbered (frees_release hp))
          (h.accounted.move (step_move cfg _ _)) (fun j job k' hj hk hg => ?_) (fun _ _ e _ he => by cases he)
        obtain rfl := Option.some.inj hk
        have := List.all_eq_true.1 hall job (List.mem_of_getElem? hj)
        simp [hg] at this
      · exact h
    | pump => exact h
  · split
    · exact h.pump hP hc hC
    · exact h

theorem inv_init : Inv cfg P init where
  numbered := numbered_init
  accounted := accounted_init cfg
  own _ _ hj := by cases hj
  grant_lt _ _ _ hj := by cases hj
  entry_lt _ _ _ hj := by cases hj
  granted _ _ _ hj := by cases hj
  grants _ _ _ _ _ hj := by cases hj
  entries _ _ _ _ _ hj := by cases hj
  each _ _ hj := by cases hj

/-- Runs whose steps all meet a condition. -/
def Along (cfg : Limiter.Config) (C : State → Event → Prop) (es : List Event) : Prop :=
  Run.Along (fun s e => (next cfg s e, ())) C init es

/-- A property of all states of a run. -/
def Throughout (cfg : Limiter.Config) (Q : State → Prop) (es : List Event) : Prop :=
  Run.Throughout (fun s e => (next cfg s e, ())) Q init es

theorem Inv.throughout {C : State → Event → Prop} {es : List Event} (hP : Stable P) (hc : Closed cfg C P)
    (hC : Along cfg C es) : Throughout cfg (Inv cfg P) es :=
  Run.throughout_of_along (fun _ _ hC h => h.next hP hc hC) inv_init hC

/-! ## What a step does to one job -/

inductive JobMove (disposed : Bool) (job : Job) : Job → Prop where
  | still : JobMove disposed job job
  | step (e : Job.Event) : JobMove disposed job (job.step disposed e).1
  | timeout : JobMove disposed job job.failQueuedJob
  | grant (k : ℕ) : JobMove disposed job (job.grantOrHold disposed k).1

theorem act_move {f : Job → Job × Calls} {i : ℕ} (hj : s.jobs[j]? = some job)
    (hf : JobMove s.disposed job (f job).1) :
    ∃ job', (s.act cfg i f).jobs[j]? = some job' ∧ JobMove s.disposed job job' := by
  unfold State.act
  split
  · exact ⟨job, hj, .still⟩
  · rename_i a hi
    by_cases hne : i = j
    · subst hne
      obtain rfl := Option.some.inj (hi.symm.trans hj)
      exact ⟨_, List.getElem?_set_self (List.getElem?_eq_some_iff.1 hj).1, hf⟩
    · exact ⟨job, (List.getElem?_set_ne hne).trans hj, .still⟩

theorem pump_move (hj : s.jobs[j]? = some job) :
    ∃ job', (s.pump cfg).jobs[j]? = some job' ∧ JobMove s.disposed job job' := by
  unfold State.pump
  split
  · dsimp only
    split
    · unfold State.onGrant
      split
      · exact act_move (s := { s with limiter := _ }) hj (.grant _)
      · split <;> exact ⟨job, hj, .still⟩
    · exact ⟨job, hj, .still⟩
  · exact ⟨job, hj, .still⟩

/-- A step leaves a job where it is, and does one of the four things to it. -/
theorem job_next (hj : s.jobs[j]? = some job) (ev : Event) :
    ∃ job', (next cfg s ev).jobs[j]? = some job' ∧ JobMove s.disposed job job' := by
  have happend : ∀ a, (s.jobs ++ [a])[j]? = some job := fun a => by
    rw [List.getElem?_append_left (List.getElem?_eq_some_iff.1 hj).1, hj]
  unfold JobSlots.next
  split
  · cases ev with
    | start provider transport deferLaunch kit =>
      simp only [State.task, State.start]
      split
      · exact ⟨job, happend _, .still⟩
      · exact ⟨job, happend _, .still⟩
      · exact ⟨job, hj, .still⟩
    | job i e => exact act_move hj (.step e)
    | queueTimeout e =>
      simp only [State.task, State.queueTimeout]
      split
      · unfold State.onTimeout
        split
        · exact act_move (s := { s with limiter := _ }) hj .timeout
        · exact ⟨job, hj, .still⟩
      · exact ⟨job, hj, .still⟩
    | dispose | acquireSlot provider => exact ⟨job, hj, .still⟩
    | releaseSlot k =>
      simp only [State.task]
      split <;> exact ⟨job, hj, .still⟩
    | pump => exact ⟨job, hj, .still⟩
  · split
    · exact pump_move hj
    · exact ⟨job, hj, .still⟩

end LlmGateway.Manager.JobSlots
