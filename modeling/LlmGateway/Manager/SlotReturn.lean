import LlmGateway.Manager.Admission
import LlmGateway.Manager.JobLife

/-!
# Running slots are returned

* `SlotReturned` — every permit of a job is released once, not before the job has ended, and none is left behind;
* `Returns` — the steps on which no permit, entry or `close` event is lost;
* `slotReturned` — the runs of such steps return their slots; `not_slotReturned` — a run of other steps does not.
-/

namespace LlmGateway.Manager.JobSlots

open LlmGateway.Lib Limiter

variable {cfg : Limiter.Config} {s : State} {l l' : Limiter.State} {job job' : Job} {c : Calls} {j k e : ℕ}

/-- Nothing that the job waits for is outstanding: its start call, a `fireOnComplete`, the end of its child. -/
structure Delivered (job : Job) : Prop where
  start : job.start = .returned
  fires : job.fires = 0
  child : ∀ c, job.process = some c → c.gone = true ∨ job.closeObserved = true

/-- **Slots are returned**, in a state of the manager. -/
structure SlotReturned (cfg : Limiter.Config) (s : State) : Prop where
  /-- a release of a job's permit is its first, -/
  once : ∀ (j : ℕ) (job : Job) (ev : Job.Event) (k : ℕ), s.jobs[j]? = some job →
    (job.step s.disposed ev).2.release = some k → Held s.limiter k
  /-- and its last -/
  kept : ∀ (ev : Event) (k : ℕ), Released s.limiter k → Released (next cfg s ev).limiter k
  /-- the job has ended by then, -/
  ended : ∀ (j : ℕ) (job : Job) (k : ℕ), s.jobs[j]? = some job → job.grant = some k → Released s.limiter k →
    job.status.terminal = true
  /-- and so has the process of a Kit job -/
  closed : ∀ (j : ℕ) (job : Job) (k : ℕ) (c : Child), s.jobs[j]? = some job → job.grant = some k →
    Released s.limiter k → job.kit = true → job.process = some c → c.gone = true ∨ c.hasPid = false
  /-- a job that has ended stays so, and is not launched, -/
  launch : ∀ (ev : Event) (j : ℕ) (job : Job), s.jobs[j]? = some job → job.status.terminal = true →
    ∃ job', (next cfg s ev).jobs[j]? = some job' ∧ job'.status.terminal = true ∧ job'.launched = job.launched
  /-- it holds no permit and no entry once all is delivered, -/
  permit : ∀ (j : ℕ) (job : Job) (k : ℕ), s.jobs[j]? = some job → job.status.terminal = true → Delivered job →
    job.grant = some k → Released s.limiter k
  entry : ∀ (j : ℕ) (job : Job) (e : ℕ), s.jobs[j]? = some job → job.status.terminal = true → Delivered job →
    job.acq = .queued e → ¬Waiting s.limiter e
  /-- and it does end, with its process or its request -/
  ends : ∀ (j : ℕ) (job : Job), s.jobs[j]? = some job →
    (∃ c, job.process = some c ∧ c.gone = true) ∨ job.closeObserved = true ∨ job.launchPoint = .ended →
    job.status.terminal = true

/-- What a task of a job must not do: fail its `recordStart`, which this is not about; store a permit of a job whose
completion was fired before; end a queued job whose `queueCancel` is not stored yet; lose a `close` event. -/
def Job.Returns (l : Limiter.State) (disposed : Bool) (job : Job) : Job.Event → Prop
  | .recordStart false => job.start ≠ .recording
  | .resume => job.start = .recorded → job.deferLaunch = true → ∀ k, job.acq = .granted k →
      job.status.terminal = true → 0 < job.fires
  | .cancelJob => ∀ e, job.acq = .queued e → Waiting l e → job.queueCancel = some e
  | .shutdownQueued => disposed = true → ∀ e, job.acq = .queued e → Waiting l e → job.queueCancel = some e
  | .childClose _ => job.process.isSome = true → job.launchPoint ≠ .marking
  | _ => True

def Returns (s : State) : Event → Prop
  | .job j e => ∀ job, s.jobs[j]? = some job → job.Returns s.limiter s.disposed e
  | _ => True

/-! ## The invariant of a job -/

/-- The start call of the job has its permit, and has not stored it. -/
def Job.Starting (job : Job) : Prop := job.start = .recording ∨ job.start = .recorded

structure Slot (l : Limiter.State) (job : Job) : Prop extends Life job, Own job where
  waiting : ∀ e, job.acq = .queued e → Waiting l e →
    job.grant = none ∧ job.status = .queued ∧ (job.start = .returned → job.queueCancel = some e)
  known : ∀ k, job.grant = some k → Held l k ∨ Released l k
  hold : ∀ k, job.limiterPermit = some k → Held l k
  inline : ∀ k, job.acq = .granted k → job.Starting → job.limiterPermit = none ∧ Held l k ∧ job.launchPoint = .none
  holder : ∀ k, job.grant = some k → Held l k → job.limiterPermit = some k ∨ job.acq = .granted k ∧ job.Starting
  released : ∀ k, job.grant = some k → Released l k →
    job.status.terminal = true ∧ (job.kit = true → job.process.isSome = true → job.closeObserved = true)
  fired : ∀ k, job.limiterPermit = some k → job.status.terminal = true →
    0 < job.fires ∨ job.kit = true ∧ job.mayStillRead = true

theorem stable_slot : Stable Slot := by
  intro l l' job h hk he
  have hheld : ∀ k, job.grant = some k → Held l' k → Held l k := by
    intro k hg hh
    rcases h.known k hg with hl | hl
    · exact hl
    · exact absurd ((hk k hg).2 hl) hh.not_released
  have hreleased : ∀ k, job.grant = some k → Released l' k → Released l k := by
    intro k hg hr
    rcases h.known k hg with hl | hl
    · exact absurd hr ((hk k hg).1 hl).not_released
    · exact hl
  exact
    { h with
      waiting := fun e ha hw => h.waiting e ha ((he e ha).1 hw)
      known := fun k hg => (h.known k hg).imp (hk k hg).1 (hk k hg).2
      hold := fun k hp => (hk k (h.permit k hp)).1 (h.hold k hp)
      inline := fun k ha hs => by
        obtain ⟨hp, hh, hl⟩ := h.inline k ha hs
        exact ⟨hp, (hk k (h.acq k ha)).1 hh, hl⟩
      holder := fun k hg hh => h.holder k hg (hheld k hg hh)
      released := fun k hg hr => h.released k hg (hreleased k hg hr) }

/-- A task, by what it does to the permit of the job in the state of the limiter that it finds. -/
theorem Slot.task (h : Slot l job) (hc : Called l l' c) (hk : Keeps job (job', c)) (hl : Life job')
    (hwaiting : ∀ e, job.acq = .queued e → Waiting l' e →
      job'.status = .queued ∧ (job'.start = .returned → job'.queueCancel = some e))
    (hhold : ∀ k, job'.limiterPermit = some k → Held l k ∧ c.release ≠ some k)
    (hinline : ∀ k, job.acq = .granted k → job'.Starting →
      job'.limiterPermit = none ∧ Held l k ∧ c.release ≠ some k ∧ job'.launchPoint = .none)
    (hholder : ∀ k, job.grant = some k → Held l k → c.release ≠ some k →
      job'.limiterPermit = some k ∨ job.acq = .granted k ∧ job'.Starting)
    (hreleased : ∀ k, job.grant = some k → c.release = some k ∨ Released l k →
      job'.status.terminal = true ∧ (job'.kit = true → job'.process.isSome = true → job'.closeObserved = true))
    (hfired : ∀ k, job'.limiterPermit = some k → job'.status.terminal = true →
      0 < job'.fires ∨ job'.kit = true ∧ job'.mayStillRead = true) : Slot l' job' := by
  have hacq : job'.acq = job.acq := hk.acq
  have hgrant : job'.grant = job.grant := hk.grant
  have hown : Own job' := hk.own
  have hknown : ∀ k, job.grant = some k → c.release ≠ some k ∧ Held l k ∧ Held l' k ∨
      (c.release = some k ∨ Released l k) ∧ Released l' k := by
    intro k hg
    by_cases hrel : c.release = some k
    · rcases h.known k hg with hh | hr
      · exact .inr ⟨.inl hrel, hc.released k hrel hh⟩
      · exact .inr ⟨.inl hrel, hc.releasedOf k hr⟩
    · rcases h.known k hg with hh | hr
      · exact .inl ⟨hrel, hh, hc.held k hrel hh⟩
      · exact .inr ⟨.inr hr, hc.releasedOf k hr⟩
  exact
    { hl, hown with
      waiting := fun e ha hw =>
        ⟨hgrant.trans (h.waiting e (hacq ▸ ha) (hc.waitingOf e hw)).1, hwaiting e (hacq ▸ ha) hw⟩
      known := fun k hg => (hknown k (hgrant ▸ hg)).imp (fun hx => hx.2.2) fun hx => hx.2
      hold := fun k hp => hc.held k (hhold k hp).2 (hhold k hp).1
      inline := fun k ha hs => by
        obtain ⟨hp, hh, hrel, hl⟩ := hinline k (hacq ▸ ha) hs
        exact ⟨hp, hc.held k hrel hh, hl⟩
      holder := fun k hg hh => by
        rw [hacq]
        rcases hknown k (hgrant ▸ hg) with ⟨hrel, hl, -⟩ | ⟨-, hr⟩
        · exact hholder k (hgrant ▸ hg) hl hrel
        · exact absurd hr hh.not_released
      released := fun k hg hr => by
        rcases hknown k (hgrant ▸ hg) with ⟨-, -, hh⟩ | ⟨hx, -⟩
        · exact absurd hr hh.not_released
        · exact hreleased k (hgrant ▸ hg) hx
      fired := hfired }

/-- A task that leaves the permit where it is, and ends the job at most. -/
theorem Slot.still (h : Slot l job) (hc : Called l l' c) (hk : Keeps job (job', c)) (hl : Life job')
    (hrel : c.release = none) (hp : job'.limiterPermit = job.limiterPermit) (hs : job'.start = job.start)
    (hpt : job.launchPoint = .none → job'.launchPoint = .none) (hkit : job'.kit = job.kit)
    (hpr : job.status.terminal = true → job'.process.isSome = true → job.process.isSome = true)
    (hcl : job.closeObserved = true → job'.closeObserved = true)
    (ht : job.status.terminal = true → job'.status.terminal = true)
    (hw : ∀ e, job.acq = .queued e → Waiting l' e →
      job'.status = .queued ∧ (job'.start = .returned → job'.queueCancel = some e))
    (hf : ∀ k, job'.limiterPermit = some k → job'.status.terminal = true →
      0 < job'.fires ∨ job'.kit = true ∧ job'.mayStillRead = true) : Slot l' job' := by
  have hnone : ∀ k, c.release ≠ some k := fun k hk => by
    rw [hrel] at hk
    cases hk
  have hstarting : job'.Starting ↔ job.Starting := by rw [Job.Starting, Job.Starting, hs]
  refine h.task hc hk hl hw ?_ ?_ ?_ ?_ hf
  · exact fun k hk' => ⟨h.hold k (hp.symm.trans hk'), hnone k⟩
  · intro k ha hst
    obtain ⟨hp', hh, hl'⟩ := h.inline k ha (hstarting.1 hst)
    exact ⟨hp.trans hp', hh, hnone k, hpt hl'⟩
  · intro k hg hh _
    rw [hp, hstarting]
    exact h.holder k hg hh
  · rintro k hg (hrel' | hr)
    · exact absurd hrel' (hnone k)
    · obtain ⟨ht', hclosed⟩ := h.released k hg hr
      exact ⟨ht ht', fun hkit' hpr' => hcl (hclosed (hkit.symm.trans hkit') (hpr ht' hpr'))⟩

/-- A task behind a launch. -/
theorem Slot.onward (h : Slot l job) (hc : Called l l' .none) (ho : Onward job job') : Slot l' job' := by
  have hs := ho.holdings
  simp only [Job.holdings, Holdings.mk.injEq] at hs
  obtain ⟨-, -, hp, -, hq, -, -, hst, hb⟩ := hs
  have hl : job.launchPoint = .none → job'.launchPoint = .none := by
    intro hl
    have hnot : job.begun = false := by simp [Job.begun, hl, (h.dormant hl).2]
    rw [← hb] at hnot
    simp only [Job.begun, Bool.or_eq_false_iff, decide_eq_false_iff_not, not_not] at hnot
    exact hnot.1
  refine h.still hc (h.toOwn.same ho.holdings) ho.life rfl hp hst hl ho.kit ho.process ho.closed ho.terminal ?_ ?_
  · intro e ha hw
    obtain ⟨-, hqd, hcancel⟩ := h.waiting e ha (hc.waitingOf e hw)
    exact ⟨ho.queued hqd, fun hs' => hq.trans (hcancel (hst.symm.trans hs'))⟩
  · intro k hk' ht
    rcases ho.fires ht with hf | ⟨ht', hle, hread⟩
    · exact .inl hf
    · rcases h.fired k (hp.symm.trans hk') ht' with hf | ⟨hkit, hr⟩
      · exact .inl (Nat.lt_of_lt_of_le hf hle)
      · exact .inr ⟨ho.kit.trans hkit, hread hkit hr⟩

/-! ## Launches -/

theorem Job.launch_disposed {d : Bool} (hd : d = true) (hq : job.status = .queued) :
    job.launch d k = (({ job with limiterPermit := some k, queueCancel := none } : Job).failQueuedJob, .none) := by
  simp [Job.launch, hd, hq]

theorem Job.launch_late {d : Bool} (hq : job.status ≠ .queued) :
    job.launch d k = ({ job with limiterPermit := none, queueCancel := none }, ⟨none, some k⟩) := by
  simp [Job.launch, hq, Job.releaseJobPermit]

theorem Job.launch_run {d : Bool} (hd : d = false) (hq : job.status = .queued) :
    job.launch d k = ({ job with
      limiterPermit := some k
      queueCancel := none
      status := .running
      launchPoint := .starting }, .none) := by
  simp [Job.launch, hd, hq]

/-- A launch with the permit of the job. -/
theorem slot_launch {d : Bool} (hl : Life job) (ho : Own job) (hpt : job.launchPoint = .none) (hg : job.grant = some k)
    (hh : Held l k) (hw : ∀ e, job.acq = .queued e → ¬Waiting l e) (hs : ∀ k, job.acq = .granted k → ¬job.Starting)
    (hc : Called l l' (job.launch d k).2) : Slot l' (job.launch d k).1 := by
  have hlife : Life (job.launch d k).1 := hl.launch hpt
  have hown : Own (job.launch d k).1 := (ho.launch hg).own
  have hself : ∀ k', job.grant = some k' → k' = k := fun k' hk' => Option.some.inj (hk'.symm.trans hg)
  by_cases hq : job.status = .queued
  · have hnew : ∀ {a : Job}, Life a → Own a → Called l l' .none → a.acq = job.acq → a.grant = job.grant →
        a.start = job.start → a.limiterPermit = some k → (a.status.terminal = true → 0 < a.fires) → Slot l' a := by
      intro a hla hoa hc ha hga hsa hpa hfa
      have hheld : Held l' k := hc.held k (fun hk => by cases hk) hh
      exact
        { hla, hoa with
          waiting := fun e he hwt => absurd (hc.waitingOf e hwt) (hw e (ha ▸ he))
          known := fun k' hk' => by
            rw [hself k' (hga ▸ hk')]
            exact .inl hheld
          hold := fun k' hk' => by
            rw [← Option.some.inj (hpa.symm.trans hk')]
            exact hheld
          inline := fun k' hk' hst => by
            rw [Job.Starting, hsa] at hst
            exact absurd hst (hs k' (ha ▸ hk'))
          holder := fun k' hk' _ => by
            rw [hself k' (hga ▸ hk')]
            exact .inl hpa
          released := fun k' hk' hr => by
            rw [hself k' (hga ▸ hk')] at hr
            exact absurd hr hheld.not_released
          fired := fun _ _ ht => .inl (hfa ht) }
    cases d with
    | true =>
      rw [Job.launch_disposed rfl hq] at hc hlife hown ⊢
      refine hnew hlife hown hc ?_ ?_ ?_ ?_ fun ht => ?_ <;> unfold Job.failQueuedJob
      · split <;> rfl
      · split <;> rfl
      · split <;> rfl
      · split <;> rfl
      · rw [if_pos (show ({ job with limiterPermit := some k, queueCancel := none } : Job).status = .queued from hq)]
        exact Nat.succ_pos _
    | false =>
      rw [Job.launch_run rfl hq] at hc hlife hown ⊢
      exact hnew hlife hown hc rfl rfl rfl rfl fun ht => by cases ht
  · rw [Job.launch_late hq] at hc hlife hown ⊢
    have hreleased : Released l' k := hc.released k rfl hh
    have ht : job.status.terminal = true := Status.terminal_of_ne hq fun hr => hl.running hr hpt
    exact
      { hlife, hown with
        waiting := fun e he hwt => absurd (hc.waitingOf e hwt) (hw e he)
        known := fun k' hk' => by
          rw [hself k' hk']
          exact .inr hreleased
        hold := fun k' hk' => by cases hk'
        inline := fun k' hk' hst => absurd hst (hs k' hk')
        holder := fun k' hk' hh' => by
          rw [hself k' hk'] at hh'
          exact absurd hreleased hh'.not_released
        released := fun k' hk' _ => by
          refine ⟨ht, fun _ hp => ?_⟩
          rw [(hl.dormant hpt).1] at hp
          cases hp
        fired := fun k' hk' => by cases hk' }

/-! ## The tasks of a job -/

theorem Job.resume_of_granted {d : Bool} (hs : job.start = .recorded) (ha : job.acq = .granted k)
    (hd : job.deferLaunch = false) : job.resume d = ({ job with start := .returned } : Job).launch d k := by
  unfold Job.resume
  rw [if_pos hs]
  dsimp only
  split
  · rename_i k' hk'
    obtain rfl := Acquired.granted.inj (ha.symm.trans hk')
    simp [hd]
  · rename_i e he
    rw [ha] at he
    cases he

theorem Job.deferredRelease_of_held {d : Bool} (hd : job.deferLaunch = true) (hs : job.start = .returned)
    (hr : job.launchReleased = false) (hq : job.status = .queued) (hp : job.heldPermit = some k) :
    job.deferredRelease d = ({ job with launchReleased := true, heldPermit := none } : Job).launch d k := by
  unfold Job.deferredRelease
  rw [if_pos (by simp [hd, hs, hr])]
  dsimp only
  rw [if_neg (not_not.2 hq)]
  split
  · rename_i k' hk'
    obtain rfl := Option.some.inj (hp.symm.trans hk')
    rfl
  · rename_i hn
    rw [hp] at hn
    cases hn

theorem not_starting (hs : job.start = .returned) : ¬job.Starting := by
  rintro (h | h) <;> rw [hs] at h <;> cases h

theorem slot_step {d : Bool} (h : Slot l job) (ev : Job.Event) (hC : job.Returns l d ev)
    (hc : Called l l' (job.step d ev).2) : Slot l' (job.step d ev).1 := by
  have hk := keeps_step (d := d) h.toOwn ev
  have hrefl := Onward.refl h.toLife
  cases ev with
  | recordStart ok =>
    simp only [Job.step, Job.recordStartOrFailClosed] at hc hk ⊢
    by_cases hs : job.start = .recording
    · cases ok with
      | false => exact absurd hs hC
      | true =>
        simp only [hs, if_true] at hc hk ⊢
        refine h.task hc hk { h.toLife with } ?_ (fun k hp => ⟨h.hold k hp, fun hr => by cases hr⟩) ?_ ?_ ?_ h.fired
        · exact fun e ha hw => ⟨(h.waiting e ha (hc.waitingOf e hw)).2.1, fun hs' => by cases hs'⟩
        · intro k ha _
          obtain ⟨hp, hh, hl⟩ := h.inline k ha (.inl hs)
          exact ⟨hp, hh, fun hr => (by cases hr), hl⟩
        · exact fun k hg hh _ => (h.holder k hg hh).imp id fun ha => ⟨ha.1, .inr rfl⟩
        · exact fun k hg hr => h.released k hg (hr.resolve_left fun hr => by cases hr)
    · rw [if_neg hs] at hc ⊢
      exact h.onward hc hrefl
  | resume =>
    by_cases hs : job.start = .recorded
    · cases ha : job.acq with
      | granted k =>
        obtain ⟨-, hh, hl⟩ := h.inline k ha (.inr hs)
        have hself : ∀ k', job.grant = some k' → k = k' := fun k' hk' =>
          Option.some.inj ((h.acq k ha).symm.trans hk')
        have hnowait : ∀ e, job.acq = .queued e → ¬Waiting l e := fun e he => by
          rw [ha] at he
          cases he
        by_cases hd : job.deferLaunch = true
        · have hstep : job.step d .resume =
              ({ job with start := .returned, heldPermit := some k, limiterPermit := some k }, .none) := by
            simp [Job.step, Job.resume, hs, ha, hd]
          rw [hstep] at hc hk ⊢
          refine h.task hc hk { h.toLife with } ?_ ?_ (fun _ _ hst => absurd hst (not_starting rfl)) ?_ ?_ ?_
          · exact fun e he hw => absurd (hc.waitingOf e hw) (hnowait e he)
          · intro k' hk'
            obtain rfl := Option.some.inj hk'
            exact ⟨hh, fun hr => by cases hr⟩
          · exact fun k' hg _ _ => .inl (congrArg some (hself k' hg))
          · intro k' hg hr
            have hr := hr.resolve_left fun hr => by cases hr
            rw [← hself k' hg] at hr
            exact absurd hr hh.not_released
          · exact fun _ _ ht => .inl (hC hs hd k ha ht)
        · have hstep : job.step d .resume = ({ job with start := .returned } : Job).launch d k :=
            Job.resume_of_granted hs ha (by simpa using hd)
          rw [hstep] at hc ⊢
          exact @slot_launch _ _ { job with start := .returned } _ _ { h.toLife with }
            ⟨h.acq, h.permit, h.toOwn.held, h.cancel⟩ hl (h.acq k ha) hh hnowait (fun _ _ => not_starting rfl) hc
      | queued e =>
        have hstep : job.step d .resume = ({ job with start := .returned, queueCancel := some e }, .none) := by
          simp [Job.step, Job.resume, hs, ha]
        rw [hstep] at hc hk ⊢
        refine h.task hc hk { h.toLife with } ?_ (fun k hp => ⟨h.hold k hp, fun hr => by cases hr⟩)
          (fun _ _ hst => absurd hst (not_starting rfl)) ?_ ?_ h.fired
        · intro e' he hw
          obtain rfl := Acquired.queued.inj (ha.symm.trans he)
          exact ⟨(h.waiting e he (hc.waitingOf e hw)).2.1, fun _ => rfl⟩
        · intro k hg hh _
          refine (h.holder k hg hh).imp id fun hx => ?_
          rw [ha] at hx
          cases hx.1
        · exact fun k hg hr => h.released k hg (hr.resolve_left fun hr => by cases hr)
    · simp only [Job.step, Job.resume, if_neg hs] at hc ⊢
      exact h.onward hc hrefl
  | spawn result => exact h.onward hc h.toLife.spawn
  | attach ok => exact h.onward hc h.toLife.attach
  | idleTimeout => exact h.onward hc h.toLife.idleTimeout
  | outputOverflow => exact h.onward hc h.toLife.outputOverflow
  | stdinFailure => exact h.onward hc h.toLife.stdinFailure
  | childError => exact h.onward hc h.toLife.childError
  | childClose clean => exact h.onward hc (h.toLife.childClose hC)
  | settle ok => exact h.onward hc h.toLife.finalizeHttpJob
  | deadProcess => exact h.onward hc h.toLife.deadProcess
  | exitedMismatch => exact h.onward hc h.toLife.exitedMismatch
  | cancelJob =>
    by_cases hq : job.status = .queued
    · have hpt := h.queued hq
      simp only [Job.step, Job.cancelJob, hq, if_true] at hc hk ⊢
      by_cases hd : job.dropped = true
      · rw [if_pos hd] at hc ⊢
        exact h.onward hc hrefl
      · rw [if_neg hd] at hc hk ⊢
        have hlife : Life ({ job with queueCancel := none, limiterPermit := none, canceled := true } : Job) :=
          { h.toLife with }
        refine h.task hc hk (hlife.close_dormant hpt rfl) ?_ (fun k hp => by cases hp) ?_ ?_ ?_ (fun k hp => by cases hp)
        · exact fun e he hw => absurd hw (hc.gone e (hC e he (hc.waitingOf e hw)))
        · intro k ha hst
          obtain ⟨hp, hh, hl⟩ := h.inline k ha hst
          refine ⟨rfl, hh, fun hr => ?_, hl⟩
          rw [hp] at hr
          cases hr
        · exact fun k hg hh hrel => .inr ((h.holder k hg hh).resolve_left hrel)
        · refine fun k hg _ => ⟨rfl, fun _ _ => rfl⟩
    · have hcalls := (Job.cancelJob_of_not_queued hq).2
      exact h.onward (by simpa only [Job.step, hcalls] using hc) (h.toLife.cancelJob hq)
  | deferredRelease =>
    by_cases hguard : (job.deferLaunch && job.start = .returned && !job.launchReleased) = true
    · have hs : job.start = .returned := by
        simp only [Bool.and_eq_true, decide_eq_true_eq] at hguard
        exact hguard.1.2
      by_cases hheld : job.status = .queued ∧ ∃ k, job.heldPermit = some k
      · obtain ⟨hq, k, hp⟩ := hheld
        have hg := h.toOwn.held k hp
        have hh : Held l k := by
          refine (h.known k hg).resolve_right fun hr => ?_
          exact Status.ne_queued (h.released k hg hr).1 hq
        have hstep : job.step d .deferredRelease =
            ({ job with launchReleased := true, heldPermit := none } : Job).launch d k := by
          simp only [Bool.and_eq_true, decide_eq_true_eq, Bool.not_eq_true'] at hguard
          exact Job.deferredRelease_of_held hguard.1.1 hs hguard.2 hq hp
        rw [hstep] at hc ⊢
        refine @slot_launch _ _ { job with launchReleased := true, heldPermit := none } _ _ { h.toLife with }
          ⟨h.acq, h.permit, (fun k hk => by cases hk), h.cancel⟩ (h.queued hq) hg hh (fun e he hw => ?_)
          (fun _ _ => not_starting hs) hc
        rw [(h.waiting e he hw).1] at hg
        cases hg
      · have hstep : job.step d .deferredRelease = ({ job with launchReleased := true }, .none) := by
          simp only [Job.step, Job.deferredRelease]
          rw [if_pos hguard]
          split
          · rfl
          · rename_i hq
            split
            · rename_i k hp
              exact absurd ⟨not_not.1 hq, k, hp⟩ hheld
            · rfl
        rw [hstep] at hc hk ⊢
        exact h.still hc hk { h.toLife with } rfl rfl rfl id rfl (fun _ hp => hp) id id
          (fun e he hw => (h.waiting e he (hc.waitingOf e hw)).2) h.fired
    · simp only [Job.step, Job.deferredRelease, if_neg hguard] at hc ⊢
      exact h.onward hc hrefl
  | deferredCancel =>
    simp only [Job.step, Job.deferredCancel] at hc hk ⊢
    by_cases hguard : (job.deferLaunch && job.start = .returned && !job.launchReleased) = true
    · rw [if_pos hguard] at hk ⊢
      exact h.still hc hk { h.toLife with } rfl rfl rfl id rfl (fun _ hp => hp) id id
        (fun e he hw => (h.waiting e he (hc.waitingOf e hw)).2) h.fired
    · rw [if_neg hguard]
      exact h.onward hc hrefl
  | shutdownQueued =>
    simp only [Job.step, Job.shutdownQueued] at hc hk ⊢
    by_cases hguard : (d && job.status = .queued && !job.dropped) = true
    · obtain ⟨hd, hq⟩ : d = true ∧ job.status = .queued := by
        simp only [Bool.and_eq_true, decide_eq_true_eq] at hguard
        exact hguard.1
      rw [if_pos hguard] at hc hk ⊢
      have hfail : job.failQueuedJob = (({ job with queueCancel := none } : Job).finish .failed).observeClose := by
        rw [Job.failQueuedJob, if_pos hq]
      have hlife := h.toLife.failQueuedJob
      rw [hfail] at hk hlife ⊢
      exact h.still hc hk hlife rfl rfl rfl id rfl (fun _ hp => hp) (fun _ => rfl) (fun _ => rfl)
        (fun e he hw => absurd hw (hc.gone e (hC hd e he (hc.waitingOf e hw)))) fun _ _ _ => .inl (Nat.succ_pos _)
    · rw [if_neg hguard] at hc ⊢
      exact h.onward hc hrefl
  | shutdownRunning => exact h.onward hc h.toLife.shutdownRunning
  | fireOnComplete acknowledged =>
    have hread : ∀ acknowledged n, ({ job with terminalPersistenceAcknowledged := acknowledged, fires := n } : Job).mayStillRead =
        job.mayStillRead := fun _ _ => rfl
    simp only [Job.step, Job.fireOnComplete, hread] at hc hk ⊢
    by_cases ht : job.status.terminal = true
    · rw [if_pos ht] at hc hk ⊢
      have hnotq : ∀ {P : Prop} (e : ℕ), job.acq = .queued e → Waiting l' e → P := fun e he hw =>
        absurd (h.waiting e he (hc.waitingOf e hw)).2.1 (Status.ne_queued ht)
      have hlife : ∀ n, Life ({ job with
          terminalPersistenceAcknowledged := job.terminalPersistenceAcknowledged || acknowledged
          fires := n } : Job) := fun n => { h.toLife with }
      by_cases hread : (job.kit && job.mayStillRead) = true
      · have hread' := Bool.and_eq_true_iff.1 hread
        rw [if_pos hread] at hc hk ⊢
        exact h.still hc hk (hlife _) rfl rfl rfl id rfl (fun _ hp => hp) id id (fun e he hw => hnotq e he hw) fun _ _ _ => .inr hread'
      · rw [if_neg hread] at hc hk ⊢
        by_cases hack : (job.kit && !(job.terminalPersistenceAcknowledged || acknowledged)) = true
        · rw [if_pos hack] at hc hk ⊢
          exact h.still hc hk (hlife _) rfl rfl rfl id rfl (fun _ hp => hp) id id (fun e he hw => hnotq e he hw)
            fun _ _ _ => .inl (Nat.succ_pos _)
        · rw [if_neg hack] at hc hk ⊢
          have hclosed : job.kit = true → job.process.isSome = true → job.closeObserved = true := by
            intro hkit hp
            by_contra hcl
            exact hread (by simp [hkit, Job.mayStillRead, (h.of_process hp).1, hp, hcl])
          refine h.task hc hk { hlife (job.fires - 1) with } (fun e he hw => hnotq e he hw) (fun k hp => by cases hp) ?_ ?_ ?_
            (fun k hp => by cases hp)
          · intro k ha hst
            obtain ⟨hp, hh, hl⟩ := h.inline k ha hst
            refine ⟨rfl, hh, fun hr => ?_, hl⟩
            have hr' : job.limiterPermit = some k := hr
            rw [hp] at hr'
            cases hr'
          · exact fun k hg hh hrel => .inr ((h.holder k hg hh).resolve_left hrel)
          · exact fun k hg _ => ⟨ht, hclosed⟩
    · rw [if_neg ht] at hc ⊢
      exact h.onward hc hrefl

/-! ## The invariant in a run -/

theorem slot_new {provider : String} {transport : Transport} {deferLaunch kit : Bool} {a : Acquired}
    (hg : ∀ k, a = .granted k → Held l k) : Slot l (.new provider transport deferLaunch kit a) := by
  have hgrant : ∀ k, (Job.new provider transport deferLaunch kit a).grant = some k → a = .granted k := by
    intro k hk
    cases a with
    | granted k' =>
      obtain rfl := Option.some.inj hk
      rfl
    | queued e => cases hk
  exact
    { life_new provider transport deferLaunch kit a, own_new provider transport deferLaunch kit a with
      waiting := fun e he _ => by
        obtain rfl : a = .queued e := he
        exact ⟨rfl, rfl, fun hs => by cases hs⟩
      known := fun k hk => .inl (hg k (hgrant k hk))
      hold := fun k hk => by cases hk
      inline := fun k hk _ => ⟨rfl, hg k hk, rfl⟩
      holder := fun k hk _ => .inr ⟨hgrant k hk, .inl rfl⟩
      released := fun k hk hr => absurd hr (hg k (hgrant k hk)).not_released
      fired := fun k hk => by cases hk }

theorem Slot.timeout (h : Slot l job) (hacq : job.acq = .queued e) (hc : Called l l' ⟨some e, none⟩) :
    Slot l' job.failQueuedJob := by
  have hgone : ∀ e', job.acq = .queued e' → ¬Waiting l' e' := fun e' he =>
    hc.gone e' (congrArg some (Acquired.queued.inj (hacq.symm.trans he)))
  have hcancel : ∀ e', some e = some e' → job.acq = .queued e' := fun e' he => Option.some.inj he ▸ hacq
  by_cases hq : job.status = .queued
  · have hfail : job.failQueuedJob = (({ job with queueCancel := none } : Job).finish .failed).observeClose := by
      rw [Job.failQueuedJob, if_pos hq]
    have hlife := h.toLife.failQueuedJob
    rw [hfail] at hlife ⊢
    exact h.still hc
      (h.toOwn.keeps rfl rfl id h.permit h.toOwn.held (fun e he => by cases he) (fun k hk => by cases hk) hcancel) hlife
      rfl rfl rfl id rfl (fun _ hp => hp) (fun _ => rfl) (fun _ => rfl) (fun e he hw => absurd hw (hgone e he))
      fun _ _ _ => .inl (Nat.succ_pos _)
  · rw [Job.failQueuedJob, if_neg hq]
    exact h.still hc (h.toOwn.keeps rfl rfl id h.permit h.toOwn.held h.cancel (fun k hk => by cases hk) hcancel) h.toLife
      rfl rfl rfl id rfl (fun _ hp => hp) id id (fun e he hw => absurd hw (hgone e he)) h.fired

/-- The limiter grants the entry of a job. -/
theorem slot_grant {l₀ : Limiter.State} {d : Bool} (h : Slot l₀ job) (hacq : job.acq = .queued e) (hw : Waiting l₀ e)
    (hh : Held l k) (hgone : ¬Waiting l e) (hc : Called l l' (job.grantOrHold d k).2) :
    Slot l' (job.grantOrHold d k).1 := by
  obtain ⟨hg, hq, -⟩ := h.waiting e hacq hw
  have hlife : Life (job.accept k) := { h.toLife with }
  have hown : Own (job.accept k) := h.toOwn.accept hacq hg
  have hnowait : ∀ e', job.acq = .queued e' → ¬Waiting l e' := fun e' he => by
    obtain rfl := Acquired.queued.inj (hacq.symm.trans he)
    exact hgone
  have hinline : ∀ k', job.acq ≠ .granted k' := fun k' hk' => by
    rw [hacq] at hk'
    cases hk'
  by_cases hr : job.launchReleased = true
  · have hstep : job.grantOrHold d k = (job.accept k).launch d k := by
      unfold Job.grantOrHold
      exact if_pos hr
    rw [hstep] at hc ⊢
    exact slot_launch hlife hown (h.queued hq) rfl hh hnowait (fun k' hk' => absurd hk' (hinline k')) hc
  · have hstep : job.grantOrHold d k =
        ({ job.accept k with heldPermit := some k, limiterPermit := some k }, .none) := by
      unfold Job.grantOrHold
      exact if_neg hr
    have hheld : Held l' k := by
      refine hc.held k (fun hk => ?_) hh
      rw [hstep] at hk
      cases hk
    have hwait : ∀ e', job.acq = .queued e' → ¬Waiting l' e' := fun e' he hw' => hnowait e' he (hc.waitingOf e' hw')
    have hself : ∀ k', some k = some k' → k = k' := fun k' hk' => Option.some.inj hk'
    rw [hstep]
    exact
      { hlife with
        acq := hown.acq
        permit := fun _ hk' => hk'
        held := fun _ hk' => hk'
        cancel := hown.cancel
        waiting := fun e' he hw' => absurd hw' (hwait e' he)
        known := fun k' hk' => .inl (hself k' hk' ▸ hheld)
        hold := fun k' hk' => hself k' hk' ▸ hheld
        inline := fun k' hk' => absurd hk' (hinline k')
        holder := fun _ hk' _ => .inl hk'
        released := fun k' hk' hr' => absurd (hself k' hk' ▸ hheld) fun hh' => hh'.not_released hr'
        fired := fun _ _ ht => absurd hq (Status.ne_queued ht) }

theorem closed_slot : Closed cfg Returns Slot where
  granted _ _ _ _ _ k hk := slot_new fun k' hk' => Acquired.granted.inj hk' ▸ hk
  queued _ _ _ _ _ _ _ := slot_new fun k hk => by cases hk
  step s j job ev _ hC hj _ h hc := slot_step h ev (hC job hj) hc
  timeout _ _ _ _ _ h hacq _ hc := h.timeout hacq hc
  grant _ _ _ _ _ _ _ _ _ _ h _ hacq _ hw hh hgone hc := slot_grant h hacq hw hh hgone hc

/-! ## Released once -/

/-- The limiter does not take a released permit back. -/
theorem released_step (ev : Limiter.Event) (h : Released l k) : Released (Limiter.step cfg l ev).1 k := by
  have happend : ∀ p : LimiterPermit, ∃ q, (l.permits ++ [p])[k]? = some ⟨q, true⟩ := fun p => by
    obtain ⟨q, hq⟩ := h
    exact ⟨q, (List.getElem?_append_left (List.getElem?_eq_some_iff.1 hq).1).trans hq⟩
  have hmove := step_move cfg l ev
  generalize (Limiter.step cfg l ev).1 = l' at hmove
  generalize (Limiter.step cfg l ev).2 = o at hmove
  cases hmove with
  | still => exact h
  | rejected => exact h
  | granted p => exact happend _
  | queued p => exact h
  | freed k' p rest _ hk' =>
    obtain ⟨q, hq⟩ := h
    by_cases hne : k' = k
    · subst hne
      exact ⟨p, List.getElem?_set_self (List.getElem?_eq_some_iff.1 hk').1⟩
    · exact ⟨q, (List.getElem?_set_ne hne).trans hq⟩
  | cancelled => exact h
  | timedOut => exact h
  | resumed => exact h
  | fired x => exact happend _
  | scanned => exact h

theorem released_calls (c : Calls) (h : Released l k) : Released (calls cfg l c) k := by
  unfold calls
  dsimp only
  split <;> split
  · exact released_step _ (released_step _ h)
  · exact released_step _ h
  · exact released_step _ h
  · exact h

theorem released_act {f : Job → Job × Calls} (h : Released s.limiter k) : Released (s.act cfg j f).limiter k := by
  unfold State.act
  split
  · exact h
  · exact released_calls _ h

theorem released_next (ev : Event) (h : Released s.limiter k) : Released (next cfg s ev).limiter k := by
  have hstep : ∀ ev, Released (Limiter.step cfg s.limiter ev).1 k := fun ev => released_step ev h
  unfold JobSlots.next
  split
  · cases ev with
    | start provider transport deferLaunch kit =>
      simp only [State.task, State.start]
      split <;> exact hstep _
    | job j e => exact released_act h
    | queueTimeout e =>
      simp only [State.task, State.queueTimeout]
      split
      · unfold State.onTimeout
        split
        · exact released_act (s := { s with limiter := _ }) (hstep _)
        · exact hstep _
      · exact hstep _
    | dispose => exact h
    | acquireSlot provider => exact hstep _
    | releaseSlot k =>
      simp only [State.task]
      split
      · exact hstep _
      · exact h
    | pump => exact h
  · split
    · unfold State.pump
      split
      · dsimp only
        split
        · unfold State.onGrant
          split
          · exact released_act (s := { s with limiter := _ }) (hstep _)
          · split
            · exact released_step _ (hstep _)
            · exact hstep _
        · exact hstep _
      · exact hstep _
    · exact h

theorem release_launch {d : Bool} {k' : ℕ} (hr : (job.launch d k').2.release = some k) :
    job.status ≠ .queued ∧ k' = k := by
  by_cases hq : job.status = .queued
  · cases d with
    | true =>
      rw [Job.launch_disposed rfl hq] at hr
      cases hr
    | false =>
      rw [Job.launch_run rfl hq] at hr
      cases hr
  · rw [Job.launch_late hq] at hr
    exact ⟨hq, Option.some.inj hr⟩

/-- A permit that a task of a job releases is held. -/
theorem Slot.release_held {d : Bool} (h : Slot l job) (ev : Job.Event) (hr : (job.step d ev).2.release = some k) :
    Held l k := by
  cases ev with
  | recordStart ok =>
    simp only [Job.step, Job.recordStartOrFailClosed] at hr
    by_cases hs : job.start = .recording
    · cases ok with
      | true =>
        rw [if_pos hs] at hr
        cases hr
      | false =>
        simp only [hs, if_true, Bool.false_eq_true, if_false] at hr
        cases ha : job.acq with
        | granted k' =>
          rw [ha] at hr
          obtain rfl := Option.some.inj hr
          exact (h.inline _ ha (.inl hs)).2.1
        | queued e =>
          rw [ha] at hr
          cases hr
    · rw [if_neg hs] at hr
      cases hr
  | resume =>
    by_cases hs : job.start = .recorded
    · cases ha : job.acq with
      | granted k' =>
        cases hd : job.deferLaunch with
        | true =>
          simp only [Job.step, Job.resume, hs, ha, hd, if_true] at hr
          cases hr
        | false =>
          simp only [Job.step] at hr
          rw [Job.resume_of_granted hs ha hd] at hr
          obtain ⟨-, rfl⟩ := release_launch hr
          exact (h.inline _ ha (.inr hs)).2.1
      | queued e =>
        simp only [Job.step, Job.resume, hs, ha, if_true] at hr
        cases hr
    · simp only [Job.step, Job.resume, if_neg hs] at hr
      cases hr
  | cancelJob =>
    by_cases hq : job.status = .queued
    · simp only [Job.step, Job.cancelJob, hq, if_true] at hr
      split at hr
      · cases hr
      · exact h.hold k hr
    · rw [Job.step, (Job.cancelJob_of_not_queued hq).2] at hr
      cases hr
  | deferredRelease =>
    simp only [Job.step, Job.deferredRelease] at hr
    split at hr
    · split at hr
      · cases hr
      · rename_i hq
        split at hr
        · exact absurd (not_not.1 hq) (release_launch hr).1
        · cases hr
    · cases hr
  | shutdownQueued =>
    simp only [Job.step, Job.shutdownQueued] at hr
    split at hr <;> cases hr
  | fireOnComplete acknowledged =>
    simp only [Job.step, Job.fireOnComplete] at hr
    split at hr
    · split at hr
      · cases hr
      · split at hr
        · cases hr
        · exact h.hold k hr
    · cases hr
  | spawn result
  | attach ok
  | idleTimeout
  | outputOverflow
  | stdinFailure
  | childError
  | childClose clean
  | settle ok
  | deadProcess
  | exitedMismatch
  | deferredCancel
  | shutdownRunning => cases hr

/-! ## What has ended stays so -/

/-- A job that has ended stays so, and is not launched. -/
structure Over (job job' : Job) : Prop where
  terminal : job'.status.terminal = true
  launched : job'.launched = job.launched

theorem Onward.ended (h : Onward job job') (ht : job.status.terminal = true) : Over job job' :=
  ⟨h.terminal ht, h.launched ht⟩

theorem over_launch {d : Bool} (ht : job.status.terminal = true) : Over job (job.launch d k).1 := by
  rw [Job.launch_late (Status.ne_queued ht)]
  exact ⟨ht, rfl⟩

theorem over_failQueuedJob (ht : job.status.terminal = true) : Over job job.failQueuedJob := by
  rw [Job.failQueuedJob, if_neg (Status.ne_queued ht)]
  exact ⟨ht, rfl⟩

theorem over_childClose {clean : Bool} (ht : job.status.terminal = true) : Over job (job.childClose clean) := by
  unfold Job.childClose
  split
  · dsimp only
    split
    · rw [if_pos (show ({ job with process := some ⟨_, true⟩ } : Job).observeClose.status ≠ .running from
        Status.ne_running ht)]
      exact ⟨ht, rfl⟩
    · exact ⟨ht, rfl⟩
  · exact ⟨ht, rfl⟩

theorem over_step {d : Bool} (h : Life job) (ev : Job.Event) (ht : job.status.terminal = true) :
    Over job (job.step d ev).1 := by
  cases ev with
  | recordStart ok =>
    simp only [Job.step, Job.recordStartOrFailClosed]
    split
    · split <;> exact ⟨ht, rfl⟩
    · exact ⟨ht, rfl⟩
  | resume =>
    simp only [Job.step, Job.resume]
    split
    · split
      · rename_i k _
        split
        · exact ⟨ht, rfl⟩
        · have hover := @over_launch { job with start := .returned } k d ht
          exact ⟨hover.terminal, hover.launched⟩
      · exact ⟨ht, rfl⟩
    · exact ⟨ht, rfl⟩
  | spawn result => exact h.spawn.ended ht
  | attach ok => exact h.attach.ended ht
  | idleTimeout => exact h.idleTimeout.ended ht
  | outputOverflow => exact h.outputOverflow.ended ht
  | stdinFailure => exact h.stdinFailure.ended ht
  | childError => exact h.childError.ended ht
  | childClose clean => exact over_childClose ht
  | settle ok => exact h.finalizeHttpJob.ended ht
  | deadProcess => exact h.deadProcess.ended ht
  | exitedMismatch => exact h.exitedMismatch.ended ht
  | cancelJob => exact (h.cancelJob (Status.ne_queued ht)).ended ht
  | deferredRelease =>
    simp only [Job.step, Job.deferredRelease]
    split
    · rw [if_pos (show ({ job with launchReleased := true } : Job).status ≠ .queued from Status.ne_queued ht)]
      exact ⟨ht, rfl⟩
    · exact ⟨ht, rfl⟩
  | deferredCancel =>
    simp only [Job.step, Job.deferredCancel]
    split <;> exact ⟨ht, rfl⟩
  | shutdownQueued =>
    simp only [Job.step, Job.shutdownQueued]
    split
    · exact over_failQueuedJob ht
    · exact ⟨ht, rfl⟩
  | shutdownRunning => exact h.shutdownRunning.ended ht
  | fireOnComplete acknowledged =>
    simp only [Job.step, Job.fireOnComplete]
    rw [if_pos ht]
    split
    · exact ⟨ht, rfl⟩
    · split <;> exact ⟨ht, rfl⟩

theorem over_move {d : Bool} (h : Life job) (hm : JobMove d job job') (ht : job.status.terminal = true) :
    Over job job' := by
  cases hm with
  | still => exact ⟨ht, rfl⟩
  | step e => exact over_step h e ht
  | timeout => exact over_failQueuedJob ht
  | grant k =>
    unfold Job.grantOrHold
    dsimp only
    split
    · have hover := @over_launch (job.accept k) k d ht
      exact ⟨hover.terminal, hover.launched⟩
    · exact ⟨ht, rfl⟩

/-! ## Slots are returned -/

theorem slotReturned_of_inv (h : Inv cfg Slot s) : SlotReturned cfg s where
  once j job ev k hj hr := (h.each j job hj).release_held ev hr
  kept ev k hr := released_next ev hr
  ended j job k hj hg hr := ((h.each j job hj).released k hg hr).1
  closed j job k c hj hg hr hk hc := by
    have hslot := h.each j job hj
    exact hslot.death c hc ((hslot.released k hg hr).2 hk (by rw [hc]; rfl))
  launch ev j job hj ht := by
    obtain ⟨job', hj', hm⟩ := @job_next cfg _ _ _ hj ev
    have hover := over_move (h.each j job hj).toLife hm ht
    exact ⟨job', hj', hover.terminal, hover.launched⟩
  permit j job k hj ht hd hg := by
    have hslot := h.each j job hj
    refine (hslot.known k hg).resolve_left fun hh => ?_
    rcases hslot.holder k hg hh with hp | ⟨-, hst⟩
    · rcases hslot.fired k hp ht with hf | ⟨-, hread⟩
      · rw [hd.fires] at hf
        exact Nat.lt_irrefl 0 hf
      · -- the child may not read any more
        simp only [Job.mayStillRead, Bool.and_eq_true, Bool.not_eq_true', Option.isSome_iff_exists] at hread
        obtain ⟨⟨-, c, hc⟩, hcl⟩ := hread
        have hclosed : job.closeObserved = true := (hd.child c hc).elim (hslot.gone c hc) id
        rw [hcl] at hclosed
        cases hclosed
    · exact not_starting hd.start hst
  entry j job e hj ht _ ha hw := Status.ne_queued ht ((h.each j job hj).waiting e ha hw).2.1
  ends j job hj := by
    have hslot := h.each j job hj
    rintro (⟨c, hc, hgone⟩ | hcl | hover)
    · exact hslot.closed (hslot.gone c hc hgone)
    · exact hslot.closed hcl
    · exact (hslot.ended hover).1

/-- **Running slots are returned exactly once**, in every run in which no permit, entry or `close` event is lost. -/
theorem slotReturned {es : List Event} (h : Along cfg Returns es) : Throughout cfg (SlotReturned cfg) es :=
  (Inv.throughout stable_slot closed_slot h).mono fun _ => slotReturned_of_inv

/-- A Kit job, launched behind another one that was canceled while it was prepared. -/
def returnedRun : List Event :=
  [.start "claude" .process true false, .job 0 (.recordStart true), .job 0 .resume, .start "claude" .process false true,
    .job 1 (.recordStart true), .job 1 .resume, .job 0 .cancelJob, .pump, .pump, .pump, .job 1 (.spawn .child),
    .job 1 (.attach true), .job 0 (.fireOnComplete true), .job 1 (.childClose true), .job 1 (.fireOnComplete true)]

theorem slotReturned_returnedRun : Throughout oneSlot (SlotReturned oneSlot) returnedRun := by
  have hfree : ∀ {s : State} {j : ℕ} {e : Job.Event}, (∀ job l d, Job.Returns l d job e) → Returns s (.job j e) :=
    fun h job _ => h job _ _
  refine slotReturned ⟨trivial, hfree fun _ _ _ => trivial, ?_, trivial, hfree fun _ _ _ => trivial, ?_, ?_, trivial,
    trivial, trivial, hfree fun _ _ _ => trivial, hfree fun _ _ _ => trivial, hfree fun _ _ _ => trivial, ?_,
    hfree fun _ _ _ => trivial, trivial⟩
  · intro job hj _ _ k _ ht
    obtain rfl := Option.some.inj hj
    cases ht
  · intro job hj _ hd
    obtain rfl := Option.some.inj hj
    cases hd
  · intro job hj e ha _
    obtain rfl := Option.some.inj hj
    cases ha
  · intro job hj _ hl
    obtain rfl := Option.some.inj hj
    cases hl

/-- A prepared job is canceled behind its `recordStart`, before its start call has stored the permit. -/
def strandedRun : List Event :=
  [.start "claude" .process true false, .job 0 (.recordStart true), .job 0 .cancelJob, .job 0 (.fireOnComplete true),
    .job 0 .resume]

/-- The start call stores the permit on a job whose completion was fired before, and nothing releases it. -/
theorem not_slotReturned : ¬Throughout oneSlot (SlotReturned oneSlot) strandedRun := by
  intro h
  have hlast := Run.throughout_iff.1 h strandedRun [] (List.append_nil _).symm
  have hjob : (reached oneSlot strandedRun).jobs[0]?.map
      (fun job => (job.status, job.start, job.fires, job.process.isNone, job.grant)) =
      some (.canceled, .returned, 0, true, some 0) := by decide +kernel
  have hpermit : (reached oneSlot strandedRun).limiter.permits[0]? = some ⟨"claude", false⟩ := by decide +kernel
  obtain ⟨job, hj, hfields⟩ := Option.map_eq_some_iff.1 hjob
  simp only [Prod.mk.injEq, Option.isNone_iff_eq_none] at hfields
  obtain ⟨hst, hs, hf, hp, hg⟩ := hfields
  have hdelivered : Delivered job := ⟨hs, hf, fun c hc => by rw [hp] at hc; cases hc⟩
  have hheld : Held (reached oneSlot strandedRun).limiter 0 := ⟨_, hpermit⟩
  exact hheld.not_released (hlast.permit 0 job 0 hj (by rw [hst]; rfl) hdelivered hg)

end LlmGateway.Manager.JobSlots
