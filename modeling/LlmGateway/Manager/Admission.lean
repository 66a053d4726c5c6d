import LlmGateway.Manager.SlotOwners

/-!
# Fail-closed durable admission

* `FailClosed` — nothing runs for a job before its `recordStart` has resolved, and a job whose `recordStart` rejected
  never runs and leaves nothing at the limiter;
* `failClosed` — the runs of such steps are fail-closed; `not_failClosed` — a run of other steps is not.
-/

namespace LlmGateway.Manager.JobSlots

open LlmGateway.Lib Limiter

variable {cfg : Limiter.Config} {s : State} {l l' : Limiter.State} {job job' : Job} {c : Calls} {j k e : ℕ}

/-- The permits of the other jobs, and of runs that have no job, that are held. -/
def othersRunning (l : Limiter.State) (job : Job) (q : LimiterPermit → Bool) : ℕ :=
  l.permits.zipIdx.countP fun x => !x.1.released && q x.1 && job.grant != some x.2

/-- The entries of others in the queue. -/
def othersQueued (l : Limiter.State) (job : Job) (q : LimiterQueueEntry → Bool) : ℕ :=
  l.queue.countP fun x => q x && job.acq != .queued x.id

/-- The counts of the limiter are those without the job. -/
structure CountsWithout (l : Limiter.State) (job : Job) : Prop where
  running : l.runningGlobal = othersRunning l job fun _ => true
  runningByProvider : ∀ p, (l.runningByProvider.get p).getD 0 = othersRunning l job fun x => x.provider == p
  queued : l.queue.length = othersQueued l job fun _ => true
  queuedByProvider : ∀ p, (l.queuedByProvider.get p).getD 0 = othersQueued l job fun x => x.provider == p

/-- **Fail-closed admission**, in a state of the manager. -/
structure FailClosed (cfg : Limiter.Config) (s : State) : Prop where
  /-- nothing was spawned or sent before `recordStart` resolved -/
  recorded : ∀ (j : ℕ) (job : Job), s.jobs[j]? = some job → job.launched = true →
    job.start = .recorded ∨ job.start = .returned
  /-- where `recordStart` rejects, the start call throws -/
  throws : ∀ (j : ℕ) (job : Job), s.idle = true → s.jobs[j]? = some job → job.start = .recording →
    ∃ job', (next cfg s (.job j (.recordStart false))).jobs[j]? = some job' ∧ job'.start = .threw
  /-- and it has thrown for good, -/
  threw : ∀ (ev : Event) (j : ℕ) (job : Job), s.jobs[j]? = some job → job.start = .threw →
    ∃ job', (next cfg s ev).jobs[j]? = some job' ∧ job'.start = .threw
  /-- the job has not run, nor begun to, -/
  never : ∀ (j : ℕ) (job : Job), s.jobs[j]? = some job → job.start = .threw →
    job.launched = false ∧ job.launchPoint = .none
  /-- it holds no permit and no entry, -/
  permit : ∀ (j : ℕ) (job : Job) (k : ℕ), s.jobs[j]? = some job → job.start = .threw → job.grant = some k →
    Released s.limiter k
  entry : ∀ (j : ℕ) (job : Job) (e : ℕ), s.jobs[j]? = some job → job.start = .threw → job.acq = .queued e →
    ¬Waiting s.limiter e
  /-- and the limiter counts as if it had not been there -/
  counts : ∀ (j : ℕ) (job : Job), s.jobs[j]? = some job → job.start = .threw → CountsWithout s.limiter job

/-- No grant starts a job before the outcome of its `recordStart`; and `recordStart` does not reject while the job holds a
permit from the queue. -/
def Admits (cfg : Limiter.Config) (s : State) : Event → Prop
  | .pump => ∀ x k, (Limiter.step cfg s.limiter .tick).2 = .fired x k → ∀ (j : ℕ) (job : Job), s.jobs[j]? = some job →
      job.acq = .queued x.id → job.start = .recording →
      job.deferLaunch = true ∨ s.disposed = true ∨ job.status ≠ .queued
  | .job j (.recordStart false) => ∀ (job : Job) (e k : ℕ), s.jobs[j]? = some job → job.start = .recording →
      job.acq = .queued e → job.grant = some k → Released s.limiter k
  | _ => True

/-! ## The invariant of a job -/

structure Admitted (l : Limiter.State) (job : Job) : Prop where
  begun : job.begun = true → job.start = .recorded ∨ job.start = .returned
  released : job.launchReleased = true → job.deferLaunch = true → job.start = .returned
  /-- the permit of an inline grant stays in the start call -/
  inline : ∀ k, job.start = .recording → job.acq = .granted k → job.limiterPermit = none ∧ job.grant = some k ∧ Held l k
  permit : ∀ k, job.start = .threw → job.grant = some k → Released l k
  entry : ∀ e, job.start = .threw → job.acq = .queued e → ¬Waiting l e

theorem stable_admitted : Stable Admitted := by
  intro l l' job h hk he
  exact
    { begun := h.begun
      released := h.released
      inline := fun k hs ha => by
        obtain ⟨hp, hg, hheld⟩ := h.inline k hs ha
        exact ⟨hp, hg, (hk k hg).1 hheld⟩
      permit := fun k hs hg => (hk k hg).2 (h.permit k hs hg)
      entry := fun e hs ha hw => h.entry e hs ha ((he e ha).1 hw) }

/-- A start call that has returned has nothing to lose. -/
theorem Admitted.of_returned (hs : job.start = .returned) : Admitted l job where
  begun _ := .inr hs
  released _ _ := hs
  inline k h := by rw [hs] at h; cases h
  permit k h := by rw [hs] at h; cases h
  entry e h := by rw [hs] at h; cases h

/-- A task that leaves the start of the job alone, and gives back at most the permit on the job. -/
theorem Admitted.keep (h : Admitted l job) (hc : Called l l' c) (hb : job'.begun = job.begun)
    (hs : job'.start = job.start) (hd : job'.deferLaunch = job.deferLaunch)
    (hr : job'.launchReleased = job.launchReleased) (ha : job'.acq = job.acq) (hg : job'.grant = job.grant)
    (hp : job.limiterPermit = none → job'.limiterPermit = none) (hrel : ∀ k, c.release = some k → job.limiterPermit = some k) :
    Admitted l' job' where
  begun := by rw [hb, hs]; exact h.begun
  released := by rw [hr, hd, hs]; exact h.released
  inline k hs' ha' := by
    obtain ⟨hnone, hgrant, hheld⟩ := h.inline k (hs ▸ hs') (ha ▸ ha')
    refine ⟨hp hnone, hg.trans hgrant, hc.held k (fun hk => ?_) hheld⟩
    rw [hrel k hk] at hnone
    cases hnone
  permit k hs' hg' := hc.releasedOf k (h.permit k (hs ▸ hs') (hg ▸ hg'))
  entry e hs' ha' hw := h.entry e (hs ▸ hs') (ha ▸ ha') (hc.waitingOf e hw)

theorem Admitted.same (h : Admitted l job) (hc : Called l l' .none) (hs : job'.holdings = job.holdings) :
    Admitted l' job' := by
  simp only [Job.holdings, Holdings.mk.injEq] at hs
  obtain ⟨ha, hg, hp, -, -, hd, hr, hst, hb⟩ := hs
  exact h.keep hc hb hst hd hr ha hg (fun hnone => hp.trans hnone) fun k hk => by cases hk

/-- What `launch` does not touch. -/
theorem launch_keeps (d : Bool) (k : ℕ) (job : Job) : (job.launch d k).1.start = job.start ∧
    (job.launch d k).1.acq = job.acq ∧ (job.launch d k).1.deferLaunch = job.deferLaunch := by
  unfold Job.launch Job.failQueuedJob
  dsimp only
  split
  · split <;> exact ⟨rfl, rfl, rfl⟩
  · split <;> exact ⟨rfl, rfl, rfl⟩

theorem admitted_step {d : Bool} (h : Admitted l job) (ev : Job.Event)
    (hC : ev = .recordStart false → ∀ e k, job.start = .recording → job.acq = .queued e → job.grant = some k →
      Released l k)
    (hc : Called l l' (job.step d ev).2) : Admitted l' (job.step d ev).1 := by
  cases ev with
  | recordStart ok =>
    simp only [Job.step, Job.recordStartOrFailClosed] at hc ⊢
    split at hc
    · rename_i hs
      rw [if_pos hs]
      have hbegun : ¬job.begun = true := fun hb => by
        rcases h.begun hb with hr | hr
        · rw [hs] at hr; cases hr
        · rw [hs] at hr; cases hr
      have hreleased : job.launchReleased = true → job.deferLaunch = true → False := fun hr hd => by
        have := h.released hr hd
        rw [hs] at this
        cases this
      cases ok with
      | true =>
        exact
          { begun := fun hb => absurd hb hbegun
            released := fun hr hd => (hreleased hr hd).elim
            inline := fun k hk => by cases hk
            permit := fun k hk => by cases hk
            entry := fun e hk => by cases hk }
      | false =>
        simp only [Bool.false_eq_true, if_false] at hc ⊢
        exact
          { begun := fun hb => absurd hb hbegun
            released := fun hr hd => (hreleased hr hd).elim
            inline := fun k hk => by cases hk
            permit := by
              intro k _ hg
              cases ha : job.acq with
              | granted k' =>
                obtain ⟨-, hg', hheld⟩ := h.inline k' hs ha
                obtain rfl := Option.some.inj (hg'.symm.trans hg)
                exact hc.released k' (by rw [ha]) hheld
              | queued e => exact hc.releasedOf k (hC rfl e k hs ha hg)
            entry := by
              intro e _ ha
              have ha' : job.acq = .queued e := ha
              exact hc.gone e (by rw [ha']) }
    · rename_i hs
      rw [if_neg hs]
      exact h.same hc rfl
  | resume =>
    simp only [Job.step, Job.resume] at hc ⊢
    split
    · refine .of_returned ?_
      split
      · split
        · rfl
        · exact (launch_keeps _ _ _).1
      · rfl
    · rename_i hs
      rw [if_neg hs] at hc
      exact h.same hc rfl
  | spawn result => exact h.same hc (Job.holdings_spawn d result)
  | attach ok => exact h.same hc (Job.holdings_attach ok)
  | idleTimeout => exact h.same hc Job.holdings_idleTimeout
  | outputOverflow => exact h.same hc Job.holdings_outputOverflow
  | stdinFailure => exact h.same hc Job.holdings_stdinFailure
  | childError => exact h.same hc Job.holdings_childError
  | childClose clean => exact h.same hc (Job.holdings_childClose clean)
  | settle ok => exact h.same hc (Job.holdings_finalizeHttpJob ok)
  | deadProcess => exact h.same hc Job.holdings_deadProcess
  | exitedMismatch => exact h.same hc Job.holdings_exitedMismatch
  | cancelJob =>
    by_cases hq : job.status = .queued
    · simp only [Job.step, Job.cancelJob, hq, if_true] at hc ⊢
      split at hc
      · rename_i hd
        rw [if_pos hd]
        exact h.same hc rfl
      · rename_i hd
        rw [if_neg hd]
        exact h.keep hc rfl rfl rfl rfl rfl rfl (fun _ => rfl) fun _ hk => hk
    · obtain ⟨hs, hcalls⟩ := Job.cancelJob_of_not_queued hq
      exact h.same (by simpa only [Job.step, hcalls] using hc) hs
  | deferredRelease =>
    simp only [Job.step, Job.deferredRelease] at hc ⊢
    split
    · rename_i hguard
      have hs : job.start = .returned := by
        simp only [Bool.and_eq_true, decide_eq_true_eq] at hguard
        exact hguard.1.2
      refine .of_returned ?_
      split
      · exact hs
      · split
        · exact (launch_keeps _ _ _).1.trans hs
        · exact hs
    · rename_i hguard
      rw [if_neg hguard] at hc
      exact h.same hc rfl
  | deferredCancel =>
    simp only [Job.step, Job.deferredCancel] at hc ⊢
    split
    · rename_i hguard
      simp only [Bool.and_eq_true, decide_eq_true_eq] at hguard
      exact .of_returned hguard.1.2
    · exact h.same hc rfl
  | shutdownQueued =>
    simp only [Job.step, Job.shutdownQueued, Job.failQueuedJob] at hc ⊢
    split
    · rename_i hguard
      rw [if_pos hguard] at hc
      split <;> exact h.keep hc rfl rfl rfl rfl rfl rfl id fun k hk => by cases hk
    · rename_i hguard
      rw [if_neg hguard] at hc
      exact h.same hc rfl
  | shutdownRunning => exact h.same hc (Job.holdings_shutdownRunning d)
  | fireOnComplete acknowledged =>
    simp only [Job.step, Job.fireOnComplete] at hc ⊢
    split
    · rename_i ht
      rw [if_pos ht] at hc
      split
      · rename_i hread
        rw [if_pos hread] at hc
        exact h.same hc rfl
      · rename_i hread
        rw [if_neg hread] at hc
        split
        · rename_i hack
          rw [if_pos hack] at hc
          exact h.same hc rfl
        · rename_i hack
          rw [if_neg hack] at hc
          exact h.keep hc rfl rfl rfl rfl rfl rfl (fun _ => rfl) fun k hk => hk
    · rename_i ht
      rw [if_neg ht] at hc
      exact h.same hc rfl

theorem begun_new (provider : String) (transport : Transport) (deferLaunch kit : Bool) (a : Acquired) :
    (Job.new provider transport deferLaunch kit a).begun = false := rfl

/-- A new job. -/
theorem Admitted.new {provider : String} {transport : Transport} {deferLaunch kit : Bool} {a : Acquired}
    (ha : ∀ k, a = .granted k → Held l k) : Admitted l (.new provider transport deferLaunch kit a) where
  begun h := by rw [begun_new] at h; cases h
  released h hd := by
    obtain rfl : deferLaunch = true := hd
    cases h
  inline k _ hk := by
    obtain rfl : a = .granted k := hk
    exact ⟨rfl, rfl, ha k rfl⟩
  permit k h := by cases h
  entry e h := by cases h

/-- A launch of a job that has ended, or of a manager that shuts down, does not begin. -/
theorem begun_launch {d : Bool} (h : d = true ∨ job.status ≠ .queued) : (job.launch d k).1.begun = job.begun := by
  unfold Job.launch Job.failQueuedJob
  dsimp only
  split
  · split <;> rfl
  · rename_i hd
    split
    · rfl
    · rename_i hq
      rcases h with rfl | h
      · rw [Bool.true_and] at hd
        exact absurd (decide_eq_true (not_not.1 hq)) hd
      · exact absurd h hq

/-- The limiter grants the entry of a job. -/
theorem admitted_grant {d : Bool} (h : Admitted l job)
    (hC : job.start = .recording → job.deferLaunch = true ∨ d = true ∨ job.status ≠ .queued)
    (ha : job.acq = .queued e) (hw : Waiting l e) : Admitted l' (job.grantOrHold d k).1 := by
  have hthrew : job.start ≠ .threw := fun hs => h.entry e hs ha hw
  have hvacuous : ∀ {a : Job}, a.acq = job.acq → a.start = job.start →
      (a.begun = true → job.begun = true ∨ job.start = .recorded ∨ job.start = .returned) →
      (a.launchReleased = true → a.deferLaunch = true → job.start = .returned) → Admitted l' a := by
    intro a hacq hs hb hr
    exact
      { begun := fun hb' => by
          rw [hs]
          exact (hb hb').elim h.begun id
        released := fun hr' hd => hs.trans (hr hr' hd)
        inline := fun k' _ hk' => by
          rw [hacq, ha] at hk'
          cases hk'
        permit := fun _ hs' => absurd (hs.symm.trans hs') hthrew
        entry := fun _ hs' => absurd (hs.symm.trans hs') hthrew }
  unfold Job.grantOrHold
  dsimp only
  split
  · rename_i hr
    have hr' : job.launchReleased = true := hr
    refine hvacuous (launch_keeps _ _ _).2.1 (launch_keeps _ _ _).1 (fun hb => ?_) fun _ hd => ?_
    · cases hs : job.start with
      | recording =>
        -- only a deferred launch may still be recording, and it has not been released
        rcases hC hs with hd | hd
        · have := h.released hr' hd
          rw [hs] at this
          cases this
        · rw [@begun_launch (job.accept k) _ _ hd] at hb
          exact .inl hb
      | recorded => exact .inr (.inl rfl)
      | returned => exact .inr (.inr rfl)
      | threw => exact absurd hs hthrew
    · rw [(launch_keeps _ _ _).2.2] at hd
      exact h.released hr' hd
  · rename_i hr
    exact hvacuous rfl rfl .inl fun hr' _ => absurd hr' hr

/-- On these steps, jobs are admitted. -/
theorem closed_admitted : Closed cfg (Admits cfg) Admitted where
  granted l _ _ _ _ k hk := .new fun k' hk' => by
    obtain rfl := Acquired.granted.inj hk'
    exact hk
  queued _ _ _ _ _ _ _ := .new fun k hk => by cases hk
  step s j job ev l' hC hj _ h hc := by
    refine admitted_step h ev ?_ hc
    rintro rfl e k hs ha hg
    exact hC job e k hj hs ha hg
  timeout l l' job e _ h _ _ hc := by
    unfold Job.failQueuedJob
    split <;> exact h.keep hc rfl rfl rfl rfl rfl rfl id fun k hk => by cases hk
  grant s j job l l' e k hC hj _ h := by
    rintro ⟨x, hx, rfl⟩ ha _ hw - - -
    exact admitted_grant h (hC x k hx j job hj ha) ha hw

/-! ## The counts -/

theorem countsWithout (ha : Accounted cfg l) (hg : ∀ k, job.grant = some k → Released l k)
    (he : ∀ e, job.acq = .queued e → ¬Waiting l e) : CountsWithout l job := by
  have hrunning : ∀ q : LimiterPermit → Bool,
      l.permits.countP (fun x => !x.released && q x) = othersRunning l job q := by
    intro q
    have hfst : l.permits.countP (fun x => !x.released && q x) =
        l.permits.zipIdx.countP fun x => !x.1.released && q x.1 := by
      conv_lhs => rw [← List.zipIdx_map_fst 0 l.permits]
      rw [List.countP_map]
      rfl
    rw [hfst, othersRunning]
    refine List.countP_congr fun x hx => ?_
    have hx' : l.permits[x.2]? = some x.1 := List.mk_mem_zipIdx_iff_getElem?.1 hx
    constructor
    · intro hq
      rw [hq, Bool.true_and, bne_iff_ne]
      intro hk
      -- the permit of the job was released
      obtain ⟨p, hp⟩ := hg x.2 hk
      rw [hx'] at hp
      rw [Option.some.inj hp] at hq
      simp at hq
    · exact fun hq => (Bool.and_eq_true_iff.1 hq).1
  have hqueued : ∀ q : LimiterQueueEntry → Bool, l.queue.countP q = othersQueued l job q := by
    intro q
    refine List.countP_congr fun x hx => ?_
    constructor
    · intro hq
      rw [hq, Bool.true_and, bne_iff_ne]
      exact fun hacq => he x.id hacq ⟨x, hx, rfl⟩
    · exact fun hq => (Bool.and_eq_true_iff.1 hq).1
  exact
    { running := by
        rw [ha.running, live, ← hrunning]
        simp
      runningByProvider := fun p => by
        rw [ha.byProvider.getD, liveOf, ← hrunning]
      queued := by
        rw [← hqueued, List.countP_true]
      queuedByProvider := fun p => by
        rw [ha.queued.getD, queuedOf, ← hqueued] }

/-! ## Fail-closed admission -/

/-- A start call that has thrown is not taken up again. -/
theorem threw_move {d : Bool} (ho : Own job) (hm : JobMove d job job') (hs : job.start = .threw) :
    job'.start = .threw := by
  cases hm with
  | still => exact hs
  | step e => exact (keeps_step ho e).threw hs
  | timeout =>
    unfold Job.failQueuedJob
    split <;> exact hs
  | grant k =>
    unfold Job.grantOrHold
    dsimp only
    split
    · exact (launch_keeps _ _ _).1.trans hs
    · exact hs

theorem failClosed_of_inv (h : Inv cfg Admitted s) : FailClosed cfg s where
  recorded j job hj hl := (h.each j job hj).begun (by simp [Job.begun, hl])
  throws j job hi hj hs := by
    refine ⟨{ job with start := .threw, dropped := true }, ?_, rfl⟩
    have hstep : (job.step s.disposed (.recordStart false)).1 = { job with start := .threw, dropped := true } := by
      simp [Job.step, Job.recordStartOrFailClosed, hs]
    simp only [JobSlots.next, hi, if_true, State.task, State.act, hj]
    rw [List.getElem?_set_self (List.getElem?_eq_some_iff.1 hj).1, hstep]
  threw ev j job hj hs := by
    obtain ⟨job', hj', hm⟩ := @job_next cfg _ _ _ hj ev
    exact ⟨job', hj', threw_move (h.own j job hj) hm hs⟩
  never j job hj hs := by
    have hb : ¬job.begun = true := fun hb => by
      rcases (h.each j job hj).begun hb with hr | hr <;> rw [hs] at hr <;> cases hr
    simpa [Job.begun, and_comm] using hb
  permit j job k hj hs hk := (h.each j job hj).permit k hs hk
  entry j job e hj hs ha := (h.each j job hj).entry e hs ha
  counts j job hj hs :=
    countsWithout h.accounted (fun k hk => (h.each j job hj).permit k hs hk) fun e ha => (h.each j job hj).entry e hs ha

/-- **Fail-closed admission.**  In every run in which no grant gets ahead of `recordStart`, nothing runs for a job before its
`recordStart` has resolved; where it rejects the start call throws, the job never runs, and the limiter counts as if it
had not been there. -/
theorem failClosed {es : List Event} (h : Along cfg (Admits cfg) es) : Throughout cfg (FailClosed cfg) es :=
  (Inv.throughout stable_admitted closed_admitted h).mono fun _ => failClosed_of_inv

/-- A host with one slot. -/
def oneSlot : Limiter.Config := ⟨1, 1, 2, Nat.le_refl 1, Nat.le_refl 1⟩

/-- A job runs, and the `recordStart` of one that is queued behind it rejects. -/
def rejectedRun : List Event :=
  [.start "claude" .process false false, .start "claude" .process false false, .job 0 (.recordStart true),
    .job 1 (.recordStart false), .job 0 .resume, .job 0 (.spawn .child)]

theorem failClosed_rejectedRun : Throughout oneSlot (FailClosed oneSlot) rejectedRun := by
  refine failClosed ⟨trivial, trivial, trivial, ?_, trivial, trivial, trivial⟩
  intro job e k hj _ _ hk
  obtain rfl := Option.some.inj hj
  cases hk

/-- One job runs and completes; another one is queued behind it, launches at once, and its `recordStart` is pending when
the slot is free. -/
def overtakenRun : List Event :=
  [.start "claude" .process false false, .job 0 (.recordStart true), .job 0 .resume, .job 0 (.spawn .child),
    .job 0 (.attach true), .start "claude" .process false false, .job 0 (.childClose true),
    .job 0 (.fireOnComplete true), .pump, .pump, .pump, .job 1 (.spawn .child)]

/-- Its child runs before the outcome of `recordStart`. -/
theorem not_failClosed : ¬Throughout oneSlot (FailClosed oneSlot) overtakenRun := by
  intro h
  have hlast := Run.throughout_iff.1 h overtakenRun [] (List.append_nil _).symm
  have hlaunched : (reached oneSlot overtakenRun).jobs[1]?.map (fun job => (job.launched, job.start)) =
      some (true, .recording) := by decide +kernel
  obtain ⟨job, hj, hjob⟩ := Option.map_eq_some_iff.1 hlaunched
  obtain ⟨hl, hs⟩ := Prod.mk.inj hjob
  rcases hlast.recorded 1 job hj hl with hr | hr <;> rw [hs] at hr <;> cases hr

end LlmGateway.Manager.JobSlots
