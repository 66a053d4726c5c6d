import LlmGateway.Manager.SlotOwners

/-!
# The life of a job

What the status of a job, its launch and its child have to do with each other, and what its tasks make of them.

* `Life` — the invariant of a job, without the limiter;
* `Life.finish`, `Life.close`, `Life.launch` — the terminal transitions and the launch keep it.
-/

namespace LlmGateway.Manager.JobSlots

open LlmGateway.Lib Limiter

variable {job job' : Job} {k e : ℕ} {st : Status}

structure Life (job : Job) : Prop where
  dormant : job.launchPoint = .none → job.process = none ∧ job.launched = false
  queued : job.status = .queued → job.launchPoint = .none
  running : job.status = .running → job.launchPoint ≠ .none
  starting : job.launchPoint = .starting → job.process = none
  ended : job.launchPoint = .ended → job.status.terminal = true ∧ job.process = none
  exited : job.exited = true → job.status.terminal = true
  closed : job.closeObserved = true → job.status.terminal = true
  http : job.transport = .http → job.process = none
  /-- a request that its job has outlived is not sent -/
  aborted : job.transport = .http → job.launchPoint = .starting ∨ job.launchPoint = .marking →
    job.status.terminal = true → job.aborted = true
  gone : ∀ c, job.process = some c → c.gone = true → job.closeObserved = true
  death : ∀ c, job.process = some c → job.closeObserved = true → c.gone = true ∨ c.hasPid = false
  /-- the spawn of a Kit job that failed is not overtaken -/
  noPid : job.kit = true → ∀ c, job.process = some c → c.hasPid = false → job.status.terminal = true →
    job.closeObserved = true

theorem Status.ne_queued (h : st.terminal = true) : st ≠ .queued := by
  rintro rfl
  cases h

theorem Status.ne_running (h : st.terminal = true) : st ≠ .running := by
  rintro rfl
  cases h

theorem Status.terminal_of_ne (hq : st ≠ .queued) (hr : st ≠ .running) : st.terminal = true := by
  cases st with
  | queued => exact absurd rfl hq
  | running => exact absurd rfl hr
  | completed => rfl
  | failed => rfl
  | canceled => rfl

theorem life_new (provider : String) (transport : Transport) (deferLaunch kit : Bool) (a : Acquired) :
    Life (.new provider transport deferLaunch kit a) where
  dormant _ := ⟨rfl, rfl⟩
  queued _ := rfl
  running h := by cases h
  starting h := by cases h
  ended h := by cases h
  exited h := by cases h
  closed h := by cases h
  http _ := rfl
  aborted _ h := by rcases h with h | h <;> cases h
  gone _ h := by cases h
  death _ h := by cases h
  noPid _ _ h := by cases h

/-- A terminal transition. -/
theorem Life.finish (h : Life job) (ht : st.terminal = true)
    (hhttp : job.transport = .http → job.launchPoint = .starting ∨ job.launchPoint = .marking → job.aborted = true)
    (hpid : job.kit = true → ∀ c, job.process = some c → c.hasPid = false → job.closeObserved = true) :
    Life (job.finish st) where
  dormant := h.dormant
  queued hq := absurd hq (Status.ne_queued ht)
  running hr := absurd hr (Status.ne_running ht)
  starting := h.starting
  ended hl := ⟨ht, (h.ended hl).2⟩
  exited _ := ht
  closed _ := ht
  http := h.http
  aborted htr hl _ := hhttp htr hl
  gone := h.gone
  death := h.death
  noPid hk c hc hp _ := hpid hk c hc hp

/-- The child of a job that has ended, or never was there, is gone. -/
theorem Life.observeClose (h : Life job) (ht : job.status.terminal = true)
    (hgone : ∀ c, job.process = some c → c.gone = true ∨ c.hasPid = false) : Life job.observeClose where
  dormant := h.dormant
  queued := h.queued
  running := h.running
  starting := h.starting
  ended := h.ended
  exited _ := ht
  closed _ := ht
  http := h.http
  aborted := h.aborted
  gone _ _ _ := rfl
  death c hc _ := hgone c hc
  noPid _ _ _ _ _ := rfl

/-- A terminal transition of a job whose child is gone, or never was there. -/
theorem Life.close (h : Life job) (ht : st.terminal = true)
    (hhttp : job.transport = .http → job.launchPoint = .starting ∨ job.launchPoint = .marking → job.aborted = true)
    (hgone : ∀ c, job.process = some c → c.gone = true ∨ c.hasPid = false) : Life (job.finish st).observeClose where
  dormant := h.dormant
  queued hq := absurd hq (Status.ne_queued ht)
  running hr := absurd hr (Status.ne_running ht)
  starting := h.starting
  ended hl := ⟨ht, (h.ended hl).2⟩
  exited _ := ht
  closed _ := ht
  http := h.http
  aborted htr hl _ := hhttp htr hl
  gone _ _ _ := rfl
  death c hc _ := hgone c hc
  noPid _ _ _ _ _ := rfl

/-- A job that has not been launched has no child. -/
theorem Life.close_dormant (h : Life job) (hl : job.launchPoint = .none) (ht : st.terminal = true) :
    Life (job.finish st).observeClose :=
  h.close ht (fun _ hl' => by rw [hl] at hl'; rcases hl' with hl' | hl' <;> cases hl')
    fun c hc => by rw [(h.dormant hl).1] at hc; cases hc

theorem Life.failQueuedJob (h : Life job) : Life job.failQueuedJob := by
  unfold Job.failQueuedJob
  split
  · rename_i hq
    have hq' : Life { job with queueCancel := none } := { h with }
    exact hq'.close_dormant (h.queued hq) rfl
  · exact h

/-- A launch begins where none has. -/
theorem Life.launch {d : Bool} (h : Life job) (hl : job.launchPoint = .none) : Life (job.launch d k).1 := by
  have h' : Life { job with limiterPermit := some k, queueCancel := none } := { h with }
  unfold Job.launch Job.releaseJobPermit
  dsimp only
  split
  · exact h'.failQueuedJob
  · split
    · exact { h with }
    · rename_i hd hq
      have hq := not_not.1 hq
      have hnot : job.status.terminal ≠ true := fun ht => Status.ne_queued ht hq
      exact
        { dormant := fun hl => by cases hl
          queued := fun hq => by cases hq
          running := fun _ hl => by cases hl
          starting := fun _ => (h.dormant hl).1
          ended := fun hl => by cases hl
          exited := fun he => absurd (h.exited he) hnot
          closed := fun hc => absurd (h.closed hc) hnot
          http := h.http
          aborted := fun _ _ ht => by cases ht
          gone := h.gone
          death := h.death
          noPid := fun _ _ _ _ ht => by cases ht }

/-! ## The tasks behind a launch -/

/-- What the tasks behind a launch do: a job that they end is fired, and one that has ended stays so. -/
structure Onward (job job' : Job) : Prop where
  holdings : job'.holdings = job.holdings
  kit : job'.kit = job.kit
  life : Life job'
  queued : job.status = .queued → job'.status = .queued
  terminal : job.status.terminal = true → job'.status.terminal = true
  process : job.status.terminal = true → job'.process.isSome = true → job.process.isSome = true
  launched : job.status.terminal = true → job'.launched = job.launched
  closed : job.closeObserved = true → job'.closeObserved = true
  fires : job'.status.terminal = true →
    0 < job'.fires ∨ job.status.terminal = true ∧ job.fires ≤ job'.fires ∧
      (job.kit = true → job.mayStillRead = true → job'.mayStillRead = true)

theorem Onward.refl (h : Life job) : Onward job job where
  holdings := rfl
  kit := rfl
  life := h
  queued := id
  terminal := id
  process _ := id
  launched _ := rfl
  closed := id
  fires ht := .inr ⟨ht, Nat.le_refl _, fun _ hr => hr⟩

/-- A task that does not end the job, and leaves its child as it is. -/
theorem Onward.of_same (hs : job'.holdings = job.holdings) (hk : job'.kit = job.kit) (hl : Life job')
    (hst : job'.status = job.status) (hp : job'.process = job.process) (hc : job'.closeObserved = job.closeObserved)
    (ht : job'.transport = job.transport) (hf : job'.fires = job.fires)
    (hla : job.status.terminal = true → job'.launched = job.launched) : Onward job job' where
  holdings := hs
  kit := hk
  life := hl
  queued hq := hst.trans hq
  terminal h := hst ▸ h
  process _ h := hp ▸ h
  launched := hla
  closed h := hc.trans h
  fires h := .inr ⟨hst ▸ h, Nat.le_of_eq hf.symm, fun _ hr => by rwa [Job.mayStillRead, ht, hp, hc]⟩

/-- A task of a running job. -/
theorem Onward.of_running (h : Life job) (hr : job.status = .running) (hs : job'.holdings = job.holdings)
    (hk : job'.kit = job.kit) (hl : Life job') (hf : job'.status.terminal = true → 0 < job'.fires) : Onward job job' := by
  have hnot : job.status.terminal = true → False := fun ht => Status.ne_running ht hr
  exact
    { holdings := hs
      kit := hk
      life := hl
      queued := fun hq => by
        rw [hr] at hq
        cases hq
      terminal := fun ht => (hnot ht).elim
      process := fun ht => (hnot ht).elim
      launched := fun ht => (hnot ht).elim
      closed := fun hc => (hnot (h.closed hc)).elim
      fires := fun ht => .inl (hf ht) }

/-- A task that fires the job. -/
theorem Onward.of_fired (hq : job.status ≠ .queued) (hs : job'.holdings = job.holdings) (hk : job'.kit = job.kit)
    (hl : Life job') (hp : job'.process.isSome = true → job.process.isSome = true)
    (hc : job.closeObserved = true → job'.closeObserved = true) (ht : job'.status.terminal = true)
    (hf : 0 < job'.fires) (hla : job'.launched = job.launched) : Onward job job' where
  holdings := hs
  kit := hk
  life := hl
  queued h := absurd h hq
  terminal _ := ht
  process _ := hp
  launched _ := hla
  closed := hc
  fires _ := .inl hf

theorem Life.not_queued (h : Life job) (hl : job.launchPoint ≠ .none) : job.status ≠ .queued :=
  fun hq => hl (h.queued hq)

theorem Life.of_process (h : Life job) (hp : job.process.isSome = true) :
    job.transport = .process ∧ job.launchPoint ≠ .none := by
  constructor
  · cases ht : job.transport with
    | process => rfl
    | http =>
      rw [h.http ht] at hp
      cases hp
  · intro hl
    rw [(h.dormant hl).1] at hp
    cases hp

theorem Life.spawn {d : Bool} {r : Job.Spawn} (h : Life job) : Onward job (job.spawn d r) := by
  unfold Job.spawn
  split
  · rename_i hl
    have hb : job.begun = true := by simp [Job.begun, hl]
    have hnone : job.process = none := h.starting hl
    have hq : job.status ≠ .queued := h.not_queued (by rw [hl]; exact fun hc => by cases hc)
    have hnopid : ∀ {P : Prop} (c : Child), job.process = some c → P := fun c hc => by
      rw [hnone] at hc
      cases hc
    split
    · refine .of_same (Job.holdings_of_begun hb rfl rfl) rfl ?_ rfl rfl rfl rfl rfl fun _ => rfl
      exact
        { h with
          dormant := fun hl => by cases hl
          queued := fun hq' => absurd hq' hq
          running := fun _ hl => by cases hl
          starting := fun hl => by cases hl
          ended := fun hl => by cases hl
          aborted := fun htr _ => h.aborted htr (.inl hl) }
    · rename_i ht
      have hfailed : Life job.launchFailed := by
        have hover : Life { job with launchPoint := .ended, status := .failed } :=
          { dormant := fun hl => by cases hl
            queued := fun hq' => by cases hq'
            running := fun hr => by cases hr
            starting := fun hl => by cases hl
            ended := fun _ => ⟨rfl, hnone⟩
            exited := fun _ => rfl
            closed := fun _ => rfl
            http := h.http
            aborted := fun _ hl => by rcases hl with hl | hl <;> cases hl
            gone := h.gone
            death := h.death
            noPid := fun _ c hc => hnopid c hc }
        have hdone : Status.failed.terminal = true := rfl
        exact hover.close hdone (fun _ hl => by rcases hl with hl | hl <;> cases hl) fun c hc => hnopid c hc
      split
      · exact .of_fired hq (Job.holdings_of_begun hb rfl rfl) rfl hfailed id (fun _ => rfl) rfl (Nat.succ_pos _) rfl
      · rename_i hguard
        have hr : job.status = .running := by
          simp only [Bool.or_eq_true, decide_eq_true_eq, not_or, not_not] at hguard
          exact hguard.2
        have hnot : job.status.terminal = true → False := fun ht => Status.ne_running ht hr
        have hspawned : ∀ pid, Life { job with process := some ⟨pid, false⟩, launchPoint := .marking, launched := true } :=
          fun pid =>
            { dormant := fun hl => by cases hl
              queued := fun hq' => absurd hq' hq
              running := fun _ hl => by cases hl
              starting := fun hl => by cases hl
              ended := fun hl => by cases hl
              exited := h.exited
              closed := h.closed
              http := fun htr => by
                rw [ht] at htr
                cases htr
              aborted := fun _ _ ht => (hnot ht).elim
              gone := fun c hc hg => by
                obtain rfl := Option.some.inj hc
                cases hg
              death := fun _ _ hc => (hnot (h.closed hc)).elim
              noPid := fun _ _ _ _ ht => (hnot ht).elim }
        split
        · exact .of_fired hq (Job.holdings_of_begun hb rfl rfl) rfl hfailed id (fun _ => rfl) rfl (Nat.succ_pos _) rfl
        · exact .of_running h hr (Job.holdings_of_begun hb rfl rfl) rfl (hspawned false) fun ht => (hnot ht).elim
        · exact .of_running h hr (Job.holdings_of_begun hb rfl rfl) rfl (hspawned true) fun ht => (hnot ht).elim
  · exact .refl h

theorem Life.attach {ok : Bool} (h : Life job) : Onward job (job.attach ok) := by
  unfold Job.attach
  split
  · rename_i hl
    have hb : job.begun = true := by simp [Job.begun, hl]
    have hq : job.status ≠ .queued := h.not_queued (by rw [hl]; exact fun hc => by cases hc)
    have hlife : ∀ launched terminationRequested, Life
        { job with
          launchPoint := .attached
          launched := launched
          terminationRequested := terminationRequested } := fun _ _ =>
      { h with
        dormant := fun hl => by cases hl
        queued := fun hq' => absurd hq' hq
        running := fun _ hl => by cases hl
        starting := fun hl => by cases hl
        ended := fun hl => by cases hl
        aborted := fun _ hl => by rcases hl with hl | hl <;> cases hl }
    split
    · rename_i htr
      exact .of_same (Job.holdings_of_begun hb rfl rfl) rfl (hlife _ job.terminationRequested) rfl rfl rfl rfl rfl
        fun ht => by simp [h.aborted htr (.inr hl) ht]
    · exact .of_same (Job.holdings_of_begun hb rfl rfl) rfl (hlife job.launched _) rfl rfl rfl rfl rfl fun _ => rfl
  · exact .refl h

/-- A task of a process job that does not wait for `close`. -/
theorem Onward.finish_process (h : Life job) (hr : job.status = .running) (hp : job.transport = .process)
    (hpid : job.kit = true → ∀ c, job.process = some c → c.hasPid = false → job.closeObserved = true)
    (ht : st.terminal = true) : Onward job (job.finish st) :=
  .of_running h hr rfl rfl (h.finish ht (fun htr => by rw [hp] at htr; cases htr) hpid) fun _ => Nat.succ_pos _

theorem process_of_listening (h : job.listening = true) : job.transport = .process := by
  simp only [Job.listening, Bool.and_eq_true, decide_eq_true_eq] at h
  exact h.1

theorem Life.requestTermination (h : Life job) (hr : job.status = .running) (hp : job.transport = .process) :
    Onward job job.requestTermination := by
  unfold Job.requestTermination
  dsimp only
  split
  · exact .of_same rfl rfl { h with } rfl rfl rfl rfl rfl fun _ => rfl
  · rename_i hk
    have h' : Life { job with terminationRequested := true } := { h with }
    exact .of_running h hr rfl rfl
      (h'.finish rfl (fun htr => by rw [hp] at htr; cases htr) fun hk' => absurd hk' hk) fun _ => Nat.succ_pos _

theorem Life.idleTimeout (h : Life job) : Onward job job.idleTimeout := by
  unfold Job.idleTimeout
  split
  · rename_i hguard
    simp only [Bool.and_eq_true, decide_eq_true_eq] at hguard
    exact h.requestTermination hguard.1.2 (process_of_listening hguard.1.1)
  · exact .refl h

theorem Life.outputOverflow (h : Life job) : Onward job job.outputOverflow := by
  unfold Job.outputOverflow
  split
  · rename_i hguard
    simp only [Bool.and_eq_true, decide_eq_true_eq] at hguard
    exact h.requestTermination hguard.2 (process_of_listening hguard.1)
  · exact .refl h

theorem Life.stdinFailure (h : Life job) : Onward job job.stdinFailure := by
  unfold Job.stdinFailure
  split
  · exact .of_same rfl rfl { h with } rfl rfl rfl rfl rfl fun _ => rfl
  · exact .refl h

theorem Life.shutdownRunning {d : Bool} (h : Life job) : Onward job (job.shutdownRunning d) := by
  unfold Job.shutdownRunning
  split
  · refine .of_same rfl rfl ?_ rfl rfl rfl rfl rfl fun _ => rfl
    exact { h with aborted := fun htr hl ht => by rw [h.aborted htr hl ht]; rfl }
  · exact .refl h

theorem Life.deadProcess (h : Life job) : Onward job job.deadProcess := by
  unfold Job.deadProcess
  split
  · rename_i g hp
    split
    · rename_i hguard
      have hr : job.status = .running := by
        simp only [Bool.and_eq_true, decide_eq_true_eq] at hguard
        exact hguard.1
      have htr := (h.of_process (by rw [hp]; rfl)).1
      have hfin := @Onward.finish_process _ .failed h hr htr (fun _ c hc hpid => by
        rw [hp] at hc
        obtain rfl := Option.some.inj hc
        cases hpid) rfl
      exact .of_running h hr rfl rfl { hfin.life with exited := fun _ => rfl } fun _ => Nat.succ_pos _
    · exact .refl h
  · exact .refl h

/-- A running job has not exited. -/
theorem Life.exitedMismatch (h : Life job) : Onward job job.exitedMismatch := by
  unfold Job.exitedMismatch
  split
  · rename_i hguard
    simp only [Bool.and_eq_true, decide_eq_true_eq] at hguard
    exact absurd hguard.1.1 (Status.ne_running (h.exited hguard.1.2))
  · exact .refl h

theorem Life.childError (h : Life job) : Onward job job.childError := by
  unfold Job.childError
  split
  · rename_i g hp
    have hpid : ∀ c, job.process = some c → c.gone = true ∨ c.hasPid = false := fun c hc => by
      rw [hp] at hc
      obtain rfl := Option.some.inj hc
      exact .inr rfl
    split
    · rename_i hlisten
      have htr := process_of_listening hlisten
      have hq : job.status ≠ .queued := h.not_queued (h.of_process (by rw [hp]; rfl)).2
      dsimp only
      split
      · rename_i hr
        have ht : (if job.canceled = true then Status.canceled else Status.failed).terminal = true := by
          split <;> rfl
        exact .of_fired hq rfl rfl (h.close ht (fun htr' => by rw [htr] at htr'; cases htr') hpid) id (fun _ => rfl) ht
          (Nat.succ_pos _) rfl
      · rename_i hr
        have ht : job.status.terminal = true := Status.terminal_of_ne hq hr
        refine
          { holdings := rfl
            kit := rfl
            life := h.observeClose ht hpid
            queued := id
            terminal := id
            process := fun _ => id
            launched := fun _ => rfl
            closed := fun _ => rfl
            fires := fun _ => .inr ⟨ht, Nat.le_refl _, fun hk hread => ?_⟩ }
        -- a Kit job waits for this event
        have hc := h.noPid hk _ hp rfl ht
        simp [Job.mayStillRead, hc] at hread
    · exact .refl h
  · exact .refl h

theorem Life.childClose {clean : Bool} (h : Life job) (hl : job.process.isSome = true → job.launchPoint ≠ .marking) :
    Onward job (job.childClose clean) := by
  unfold Job.childClose
  split
  · rename_i pid hp
    have hproc := h.of_process (by rw [hp]; rfl)
    have hq : job.status ≠ .queued := h.not_queued hproc.2
    have hgone : ∀ c, some (Child.mk pid true) = some c → c.gone = true ∨ c.hasPid = false := fun c hc => by
      obtain rfl := Option.some.inj hc
      exact .inl rfl
    have hhttp : ∀ {P : Prop}, job.transport = .http → P := fun htr => by
      rw [hproc.1] at htr
      cases htr
    have hsome : job.process.isSome = true := by
      rw [hp]
      rfl
    have hlisten : job.listening = true := by
      have hatt : job.launchPoint = .attached := by
        cases hpt : job.launchPoint with
        | none => exact absurd hpt hproc.2
        | starting =>
          rw [h.starting hpt] at hp
          cases hp
        | marking => exact absurd hpt (hl hsome)
        | attached => rfl
        | ended =>
          rw [(h.ended hpt).2] at hp
          cases hp
      simp [Job.listening, hproc.1, hatt]
    have hclosed : ∀ (st : Status) (n : ℕ), st.terminal = true →
        Life { job with
          process := some ⟨pid, true⟩
          exited := true
          closeObserved := true
          status := st
          fires := n } := fun st n ht =>
      { dormant := fun hl => absurd hl hproc.2
        queued := fun hq' => absurd hq' (Status.ne_queued ht)
        running := fun hr => absurd hr (Status.ne_running ht)
        starting := fun hl => by
          rw [h.starting hl] at hp
          cases hp
        ended := fun hl => by
          rw [(h.ended hl).2] at hp
          cases hp
        exited := fun _ => ht
        closed := fun _ => ht
        http := fun htr => hhttp htr
        aborted := fun htr => hhttp htr
        gone := fun _ _ _ => rfl
        death := fun c hc _ => hgone c hc
        noPid := fun _ _ _ _ _ => rfl }
    dsimp only
    rw [if_pos hlisten]
    split
    · rename_i hr
      have ht : job.status.terminal = true := Status.terminal_of_ne hq hr
      exact .of_fired hq rfl rfl (hclosed _ _ ht) (fun _ => hsome) (fun _ => rfl) ht (Nat.succ_pos _) rfl
    · split_ifs
      all_goals exact .of_fired hq rfl rfl (hclosed _ _ rfl) (fun _ => hsome) (fun _ => rfl) rfl (Nat.succ_pos _) rfl
  · exact .refl h

theorem Life.finalizeHttpJob {ok : Bool} (h : Life job) : Onward job (job.finalizeHttpJob ok) := by
  unfold Job.finalizeHttpJob
  split
  · rename_i hguard
    simp only [Bool.and_eq_true, decide_eq_true_eq] at hguard
    obtain ⟨htr, hl⟩ := hguard
    have hb : job.begun = true := by simp [Job.begun, hl]
    have hq : job.status ≠ .queued := h.not_queued (by rw [hl]; exact fun hc => by cases hc)
    have hnone : job.process = none := h.http htr
    have hnopid : ∀ {P : Prop} (c : Child), job.process = some c → P := fun c hc => by
      rw [hnone] at hc
      cases hc
    have hover : ∀ (st : Status) (n : ℕ), st.terminal = true →
        Life { job with launchPoint := .ended, status := st, fires := n } := fun st n ht =>
      { dormant := fun hl => by cases hl
        queued := fun hq' => absurd hq' (Status.ne_queued ht)
        running := fun hr => absurd hr (Status.ne_running ht)
        starting := fun hl => by cases hl
        ended := fun _ => ⟨ht, hnone⟩
        exited := fun _ => ht
        closed := fun _ => ht
        http := fun _ => hnone
        aborted := fun _ hl => by rcases hl with hl | hl <;> cases hl
        gone := fun c hc => hnopid c hc
        death := fun c hc => hnopid c hc
        noPid := fun _ c hc => hnopid c hc }
    have hread : job.mayStillRead ≠ true := by simp [Job.mayStillRead, htr]
    dsimp only
    split
    · rename_i hst
      have hst' : job.status = .canceled := hst
      have ht : job.status.terminal = true := by
        rw [hst']
        rfl
      exact
        { holdings := Job.holdings_of_begun hb rfl rfl
          kit := rfl
          life := (hover _ _ ht).observeClose ht fun c hc => hnopid c hc
          queued := id
          terminal := id
          process := fun _ => id
          launched := fun _ => rfl
          closed := fun _ => rfl
          fires := fun _ => .inr ⟨ht, Nat.le_refl _, fun _ hr => absurd hr hread⟩ }
    · split
      · rename_i hr
        have ht : job.status.terminal = true := Status.terminal_of_ne hq hr
        exact
          { holdings := Job.holdings_of_begun hb rfl rfl
            kit := rfl
            life := hover _ _ ht
            queued := id
            terminal := id
            process := fun _ => id
            launched := fun _ => rfl
            closed := id
            fires := fun _ => .inr ⟨ht, Nat.le_refl _, fun _ hr => absurd hr hread⟩ }
      · have hend : ∀ st : Status, st.terminal = true →
            Onward job ({ job with launchPoint := .ended }.finish st).observeClose := fun st ht =>
          .of_fired hq (Job.holdings_of_begun hb rfl rfl) rfl
            ((hover _ _ ht).observeClose ht fun c hc => hnopid c hc) id (fun _ => rfl) ht (Nat.succ_pos _) rfl
        split
        · exact hend .failed rfl
        · split
          · exact hend .completed rfl
          · exact hend .failed rfl
  · exact .refl h

/-- `cancelJob`, behind the queue. -/
theorem Life.cancelJob (h : Life job) (hq : job.status ≠ .queued) : Onward job job.cancelJob.1 := by
  unfold Job.cancelJob
  rw [if_neg hq]
  split
  · exact .refl h
  · split
    · exact .refl h
    · rename_i hr
      have hr := not_not.1 hr
      split
      · rename_i htr
        have h' : Life { job with canceled := true, aborted := true } := { h with aborted := fun _ _ _ => rfl }
        exact .of_running h hr rfl rfl (h'.finish rfl (fun _ _ => rfl) fun _ c hc => by
          rw [h.http htr] at hc
          cases hc) fun _ => Nat.succ_pos _
      · rename_i htr
        split
        · exact .refl h
        · dsimp only
          split
          · exact .of_same rfl rfl { h with } rfl rfl rfl rfl rfl fun _ => rfl
          · rename_i hk
            have h' : Life { job with canceled := true, terminationRequested := job.kit } := { h with }
            exact .of_running h hr rfl rfl
              (h'.finish rfl (fun htr' => by rw [htr] at htr'; cases htr') fun hk' => absurd hk' hk)
              fun _ => Nat.succ_pos _

end LlmGateway.Manager.JobSlots
