import LlmGateway.Lib.Run

/-!
# Durable admission

The heartbeat ticks, the attempts to register the instance, and `dispose`; each call of the store settles in a step of its own.

* `AsyncJobManager`, `next` — the flags and counters of the manager, and what may happen to them;
* `Watch` — what has happened: registrations, heartbeats, and the closing and reopening of the admission;
* `Safe` — admission is open under a registration and while heartbeats succeed, it reopens after a proven recovery, and not
  after `dispose`;
* `admission_safe_iff` — the admission is safe all along exactly when the attempt of the start is punctual.
-/

namespace LlmGateway.Manager.DurableAdmission

open LlmGateway.Lib.Run

def maxConsecutiveHeartbeatFailures : ℕ := 3

def minConsecutiveHeartbeatSuccessesToRecover : ℕ := 3

/-- What `restoreDurableAdmission` is waiting for. -/
inductive Restore where
  | registerInstance
  | heartbeat
  | runOrphanSweep
  | reconcileLocalOrphanedClaudeMcpArtifacts
  deriving DecidableEq

/-- What a heartbeat tick is waiting for. -/
inductive Tick where
  | heartbeat
  | registerInstance
  | restore (phase : Restore)
  deriving DecidableEq

structure AsyncJobManager where
  store : Bool
  disposed : Bool
  durableAdmission : Bool
  consecutiveHeartbeatFailures : ℕ
  consecutiveHeartbeatSuccesses : ℕ
  /-- The tick that is in flight. -/
  tick : Option Tick
  /-- The attempt of the constructor, until it has settled. -/
  startup : Option Restore
  deriving DecidableEq

inductive Attempt where
  | startup
  | recovery
  deriving DecidableEq

/-- How a call of the store settles; a heartbeat says whether the row of the instance was there. -/
inductive Reply where
  | ok (instanceRowRefreshed : Bool)
  | failed
  deriving DecidableEq

inductive Event where
  | heartbeatTimer
  | tick (reply : Reply)
  | startup (reply : Reply)
  | dispose
  deriving DecidableEq

/-- What a step has shown of the store. -/
inductive Signal where
  | registered
  | tickSucceeded
  | tickFailed
  /-- The heartbeat of an attempt has succeeded. -/
  | beat
  /-- The heartbeat of an attempt has failed. -/
  | missed
  deriving DecidableEq

def create (store : Bool) : AsyncJobManager where
  store := store
  disposed := false
  durableAdmission := false
  consecutiveHeartbeatFailures := 0
  consecutiveHeartbeatSuccesses := 0
  tick := none
  startup := if store then some .registerInstance else none

def AsyncJobManager.attempt (m : AsyncJobManager) : Attempt → Option Restore
  | .startup => m.startup
  | .recovery =>
    match m.tick with
    | some (.restore phase) => some phase
    | _ => none

def AsyncJobManager.setAttempt (m : AsyncJobManager) (a : Attempt) (phase : Option Restore) : AsyncJobManager :=
  match a with
  | .startup => { m with startup := phase }
  | .recovery => { m with tick := phase.map .restore }

/-- `restoreDurableAdmission`, after the call that it was waiting for. -/
def restoreDurableAdmission (m : AsyncJobManager) (a : Attempt) (phase : Restore) (reply : Reply) : AsyncJobManager × List Signal :=
  match reply, phase with
  | .failed, .heartbeat =>
    ({ m.setAttempt a none with durableAdmission := false, consecutiveHeartbeatSuccesses := 0 }, [.missed])
  | .failed, _ => ({ m.setAttempt a none with durableAdmission := false, consecutiveHeartbeatSuccesses := 0 }, [])
  | .ok _, .registerInstance => (m.setAttempt a (some .heartbeat), [.registered])
  | .ok _, .heartbeat =>
    if m.disposed then (m.setAttempt a none, [.beat])
    else
      ({ m.setAttempt a (some .runOrphanSweep) with
          durableAdmission := true, consecutiveHeartbeatFailures := 0, consecutiveHeartbeatSuccesses := 0 }, [.beat])
  | .ok _, .runOrphanSweep => (m.setAttempt a (some .reconcileLocalOrphanedClaudeMcpArtifacts), [])
  | .ok _, .reconcileLocalOrphanedClaudeMcpArtifacts => (m.setAttempt a none, [])

/-- `runHeartbeatTick`, after a heartbeat that has been reported. -/
def heartbeatSucceeded (m : AsyncJobManager) : AsyncJobManager :=
  if m.durableAdmission then { m with consecutiveHeartbeatFailures := 0, tick := none }
  else
    let successes := m.consecutiveHeartbeatSuccesses + 1
    let recovers := minConsecutiveHeartbeatSuccessesToRecover ≤ successes ∧ m.store = true ∧ m.disposed = false
    { m with
      consecutiveHeartbeatFailures := 0
      consecutiveHeartbeatSuccesses := successes
      tick := if recovers then some (.restore .registerInstance) else none }

/-- `runHeartbeatTick`, where it catches an error. -/
def heartbeatFailed (m : AsyncJobManager) : AsyncJobManager :=
  let failures := m.consecutiveHeartbeatFailures + 1
  { m with
    consecutiveHeartbeatFailures := failures
    consecutiveHeartbeatSuccesses := 0
    durableAdmission := m.durableAdmission && decide (failures < maxConsecutiveHeartbeatFailures)
    tick := none }

/-- `onHeartbeatTick`, where its timer fires. -/
def onHeartbeatTick (m : AsyncJobManager) : AsyncJobManager :=
  if m.disposed || !m.store || m.tick.isSome then m else { m with tick := some .heartbeat }

/-- `runHeartbeatTick`, after the call that it was waiting for. -/
def runHeartbeatTick (m : AsyncJobManager) (tick : Tick) (reply : Reply) : AsyncJobManager × List Signal :=
  match tick, reply with
  | .heartbeat, .ok true => (heartbeatSucceeded m, [.tickSucceeded])
  | .heartbeat, .ok false => ({ m with tick := some .registerInstance }, [])
  | .heartbeat, .failed => (heartbeatFailed m, [.tickFailed])
  | .registerInstance, .ok _ => (heartbeatSucceeded m, [.registered, .tickSucceeded])
  | .registerInstance, .failed => (heartbeatFailed m, [.tickFailed])
  | .restore phase, reply => restoreDurableAdmission m .recovery phase reply

def dispose (m : AsyncJobManager) : AsyncJobManager :=
  if m.disposed then m else { m with disposed := true, durableAdmission := false }

def next (m : AsyncJobManager) : Event → AsyncJobManager × List Signal
  | .heartbeatTimer => (onHeartbeatTick m, [])
  | .tick reply =>
    match m.tick with
    | none => (m, [])
    | some tick => runHeartbeatTick m tick reply
  | .startup reply =>
    match m.startup with
    | none => (m, [])
    | some phase => restoreDurableAdmission m .startup phase reply
  | .dispose => (dispose m, [])

/-! ## What is observed -/

structure Watch where
  registered : Bool
  /-- The heartbeats that have failed since the last one that succeeded. -/
  misses : ℕ
  /-- The admission has been closed by sustained failure. -/
  closed : Bool
  /-- The ticks that have succeeded since then, one after the other. -/
  wins : ℕ
  /-- The instance has been registered after enough of them. -/
  reregistered : Bool
  /-- The admission has been reopened before that. -/
  early : Bool
  deriving DecidableEq

def Watch.hear (w : Watch) : Signal → Watch
  | .registered =>
    { w with
      registered := true
      reregistered := w.reregistered || decide (minConsecutiveHeartbeatSuccessesToRecover ≤ w.wins) }
  | .tickSucceeded => { w with misses := 0, wins := w.wins + 1 }
  | .tickFailed => { w with misses := w.misses + 1, wins := 0, reregistered := false }
  | .beat => { w with misses := 0 }
  | .missed => { w with misses := w.misses + 1 }

/-- The admission was open `before` the step and is open `after` it. -/
def Watch.see (w : Watch) (before after : Bool) (signals : List Signal) : Watch :=
  let w := signals.foldl Watch.hear w
  if before && !after then { w with closed := w.closed || signals.contains .tickFailed }
  else if !before && after then { w with closed := false, early := w.early || w.closed && !w.reregistered }
  else w

structure State where
  manager : AsyncJobManager
  watch : Watch
  deriving DecidableEq

def step (s : State) (e : Event) : State × List Signal :=
  (⟨(next s.manager e).1, s.watch.see s.manager.durableAdmission (next s.manager e).1.durableAdmission (next s.manager e).2⟩,
    (next s.manager e).2)

def start (store : Bool) : State := ⟨create store, ⟨false, 0, false, 0, false, false⟩⟩

/-- **The admission of durable jobs.** -/
structure Safe (s : State) : Prop where
  proven : s.manager.durableAdmission = true →
    s.watch.registered = true ∧ s.watch.misses < maxConsecutiveHeartbeatFailures
  recovered : s.watch.early = false
  shut : s.manager.disposed = true → s.manager.durableAdmission = false

/-- **The attempt of the start is punctual**: its heartbeat does not succeed, unless the manager has been disposed, after the
admission has been closed by sustained failure and before the recovery from that has registered the instance. -/
def Punctual (s : State) (e : Event) : Prop :=
  ∀ row, e = .startup (.ok row) → s.manager.startup = some .heartbeat → s.manager.disposed = false → s.watch.closed = true →
    s.watch.reregistered = true

/-! ## The invariant -/

structure Inv (s : State) : Prop where
  proven : s.manager.durableAdmission = true → s.watch.registered = true ∧
    s.watch.misses ≤ s.manager.consecutiveHeartbeatFailures ∧
    s.manager.consecutiveHeartbeatFailures < maxConsecutiveHeartbeatFailures
  closed : s.watch.closed = true → s.manager.durableAdmission = false ∧
    s.manager.consecutiveHeartbeatSuccesses ≤ s.watch.wins
  attempted : ∀ a, s.manager.attempt a = some .heartbeat → s.watch.registered = true
  recovering : s.manager.attempt .recovery = some .registerInstance → s.watch.closed = true →
    minConsecutiveHeartbeatSuccessesToRecover ≤ s.watch.wins
  reregistered : s.manager.attempt .recovery = some .heartbeat → s.watch.closed = true → s.watch.reregistered = true
  recovered : s.watch.early = false
  shut : s.manager.disposed = true → s.manager.durableAdmission = false

theorem inv_start (store : Bool) : Inv (start store) where
  proven h := absurd h Bool.false_ne_true
  closed h := absurd h Bool.false_ne_true
  attempted a h := by cases a <;> cases store <;> simp [start, create, AsyncJobManager.attempt] at h
  recovering h := by cases h
  reregistered h := by cases h
  recovered := rfl
  shut h := absurd h Bool.false_ne_true

theorem Inv.safe {s : State} (h : Inv s) : Safe s where
  proven hopen := ⟨(h.proven hopen).1, Nat.lt_of_le_of_lt (h.proven hopen).2.1 (h.proven hopen).2.2⟩
  recovered := h.recovered
  shut := h.shut

section

variable {m m' : AsyncJobManager} {w : Watch}

@[simp] theorem attempt_setAttempt (a b : Attempt) (phase : Option Restore) : (m.setAttempt a phase).attempt b =
    if b = a then phase else m.attempt b := by
  cases a <;> cases b <;> cases phase <;> rfl

@[simp] theorem durableAdmission_setAttempt (a : Attempt) (phase : Option Restore) :
    (m.setAttempt a phase).durableAdmission = m.durableAdmission := by
  cases a <;> rfl

@[simp] theorem disposed_setAttempt (a : Attempt) (phase : Option Restore) : (m.setAttempt a phase).disposed = m.disposed := by
  cases a <;> rfl

@[simp] theorem failures_setAttempt (a : Attempt) (phase : Option Restore) :
    (m.setAttempt a phase).consecutiveHeartbeatFailures = m.consecutiveHeartbeatFailures := by
  cases a <;> rfl

@[simp] theorem successes_setAttempt (a : Attempt) (phase : Option Restore) :
    (m.setAttempt a phase).consecutiveHeartbeatSuccesses = m.consecutiveHeartbeatSuccesses := by
  cases a <;> rfl

@[simp] theorem see_self (b : Bool) (signals : List Signal) : w.see b b signals = signals.foldl Watch.hear w := by
  cases b <;> rfl

/-- The admission is left as it is, and no attempt comes to a call it was not waiting for. -/
theorem Inv.quiet (h : Inv ⟨m, w⟩) (hadmission : m'.durableAdmission = m.durableAdmission)
    (hfailures : m'.consecutiveHeartbeatFailures = m.consecutiveHeartbeatFailures)
    (hsuccesses : m'.consecutiveHeartbeatSuccesses = m.consecutiveHeartbeatSuccesses) (hdisposed : m'.disposed = m.disposed)
    (hattempt : ∀ a, ∀ phase ∈ [Restore.registerInstance, .heartbeat], m'.attempt a = some phase → m.attempt a = some phase) :
    Inv ⟨m', w⟩ where
  proven hopen := by
    have := h.proven (hadmission ▸ hopen)
    exact ⟨this.1, hfailures ▸ this.2⟩
  closed hclosed := by
    have := h.closed hclosed
    exact ⟨hadmission ▸ this.1, hsuccesses ▸ this.2⟩
  attempted a ha := h.attempted a (hattempt a _ (by simp) ha)
  recovering ha := h.recovering (hattempt _ _ (by simp) ha)
  reregistered ha := h.reregistered (hattempt _ _ (by simp) ha)
  recovered := h.recovered
  shut hdisposed' := by
    have := h.shut (hdisposed ▸ hdisposed')
    exact hadmission ▸ this

/-- The same, after an attempt has come past its heartbeat. -/
theorem Inv.setAttempt (h : Inv ⟨m, w⟩) (a : Attempt) {phase : Option Restore} (hregister : phase ≠ some .registerInstance)
    (hheartbeat : phase ≠ some .heartbeat) : Inv ⟨m.setAttempt a phase, w⟩ := by
  refine h.quiet (by simp) (by simp) (by simp) (by simp) fun b q hq hb => ?_
  rw [attempt_setAttempt] at hb
  split_ifs at hb
  · simp only [List.mem_cons, List.not_mem_nil, or_false] at hq
    rcases hq with rfl | rfl
    · exact absurd hb hregister
    · exact absurd hb hheartbeat
  · exact hb

/-- The instance has been registered. -/
theorem Inv.registered (h : Inv ⟨m, w⟩) : Inv ⟨m, w.hear .registered⟩ where
  proven hopen := ⟨rfl, (h.proven hopen).2⟩
  closed := h.closed
  attempted _ _ := rfl
  recovering := h.recovering
  reregistered ha hclosed := by
    have := h.reregistered ha hclosed
    simp only [Watch.hear]
    simp_all
  recovered := h.recovered
  shut := h.shut

/-- An attempt has registered the instance. -/
theorem Inv.register (h : Inv ⟨m, w⟩) {a : Attempt} (ha : m.attempt a = some .registerInstance) :
    Inv ⟨m.setAttempt a (some .heartbeat), w.hear .registered⟩ where
  proven hopen := ⟨rfl, by simpa [Watch.hear] using (h.proven (by simpa using hopen)).2⟩
  closed hclosed := by simpa [Watch.hear] using h.closed hclosed
  attempted _ _ := rfl
  recovering hb := by
    rw [attempt_setAttempt] at hb
    split_ifs at hb
    · cases hb
    · exact h.recovering hb
  reregistered hb hclosed := by
    rw [attempt_setAttempt] at hb
    show (w.reregistered || decide (_ ≤ w.wins)) = true
    split_ifs at hb with hrecovery
    · subst hrecovery
      rw [decide_eq_true (h.recovering ha hclosed), Bool.or_true]
    · have hbefore : w.reregistered = true := h.reregistered hb hclosed
      rw [hbefore, Bool.true_or]
  recovered := h.recovered
  shut hdisposed := by simpa using h.shut (by simpa using hdisposed)

/-- An attempt has failed; this closes the admission. -/
theorem Inv.fail (h : Inv ⟨m, w⟩) (a : Attempt) {signals : List Signal} (hsignals : signals = [] ∨ signals = [.missed]) :
    Inv ⟨{ m.setAttempt a none with durableAdmission := false, consecutiveHeartbeatSuccesses := 0 },
      w.see m.durableAdmission false signals⟩ := by
  have hw : ∃ n, w.see m.durableAdmission false signals = { w with misses := n } := by
    rcases hsignals with rfl | rfl <;> cases m.durableAdmission <;> simp [Watch.see, Watch.hear]
    all_goals exact ⟨_, rfl⟩
  obtain ⟨n, hw⟩ := hw
  rw [hw]
  have hattempt (b : Attempt) (phase : Restore) (hb : (m.setAttempt a none).attempt b = some phase) :
      m.attempt b = some phase := by
    rw [attempt_setAttempt] at hb
    split_ifs at hb
    exact hb
  refine ⟨fun hopen => absurd hopen Bool.false_ne_true, fun _ => ⟨rfl, Nat.zero_le _⟩, fun b hb => ?_, fun hb => ?_,
    fun hb => ?_, h.recovered, fun _ => rfl⟩
  · exact h.attempted b (hattempt b _ hb)
  · exact h.recovering (hattempt _ _ hb)
  · exact h.reregistered (hattempt _ _ hb)

/-- An attempt opens the admission, with a heartbeat that has succeeded. -/
theorem Inv.reopen (h : Inv ⟨m, w⟩) {a : Attempt} (ha : m.attempt a = some .heartbeat) (hdisposed : m.disposed = false)
    (hpunctual : w.closed = true → w.reregistered = true) :
    Inv ⟨{ m.setAttempt a (some .runOrphanSweep) with
        durableAdmission := true, consecutiveHeartbeatFailures := 0, consecutiveHeartbeatSuccesses := 0 },
      w.see m.durableAdmission true [.beat]⟩ := by
  have hregistered : w.registered = true := h.attempted a ha
  have hearly : w.early = false := h.recovered
  have hw : w.see m.durableAdmission true [.beat] = { w with misses := 0, closed := false } := by
    cases hopen : m.durableAdmission with
    | true =>
      have hclosed : w.closed = false := by
        rw [← Bool.not_eq_true]
        intro hclosed
        exact absurd (h.closed hclosed).1 (by simp [hopen])
      simp [Watch.hear, ← hclosed]
    | false =>
      have hnot : (w.closed && !w.reregistered) = false := by
        cases hclosed : w.closed with
        | false => rfl
        | true => rw [hpunctual hclosed]; rfl
      simp only [Watch.see, Watch.hear, List.foldl_cons, List.foldl_nil]
      simp [hnot, hearly]
  rw [hw]
  have hattempt (b : Attempt) (phase : Restore) (hphase : phase ≠ .runOrphanSweep)
      (hb : (m.setAttempt a (some .runOrphanSweep)).attempt b = some phase) : m.attempt b = some phase := by
    rw [attempt_setAttempt] at hb
    split_ifs at hb
    · exact absurd (Option.some.inj hb).symm hphase
    · exact hb
  refine ⟨fun _ => ⟨hregistered, Nat.le_refl 0, Nat.zero_lt_succ 2⟩, fun hclosed => absurd hclosed Bool.false_ne_true, fun _ _ => hregistered,
    fun _ hclosed => absurd hclosed Bool.false_ne_true, fun _ hclosed => absurd hclosed Bool.false_ne_true, hearly,
    fun hdisposed' => ?_⟩
  have hdisposed'' : (m.setAttempt a (some .runOrphanSweep)).disposed = true := hdisposed'
  rw [disposed_setAttempt, hdisposed] at hdisposed''
  exact absurd hdisposed'' Bool.false_ne_true

/-- `restoreDurableAdmission` keeps the invariant. -/
theorem Inv.restore (h : Inv ⟨m, w⟩) {a : Attempt} {phase : Restore} (ha : m.attempt a = some phase) (reply : Reply)
    (hpunctual : phase = .heartbeat → m.disposed = false → reply ≠ .failed → w.closed = true → w.reregistered = true) :
    Inv ⟨(restoreDurableAdmission m a phase reply).1, w.see m.durableAdmission
      (restoreDurableAdmission m a phase reply).1.durableAdmission (restoreDurableAdmission m a phase reply).2⟩ := by
  cases reply with
  | failed =>
    cases phase with
    | heartbeat => exact h.fail a (.inr rfl)
    | registerInstance | runOrphanSweep | reconcileLocalOrphanedClaudeMcpArtifacts => exact h.fail a (.inl rfl)
  | ok row =>
    cases phase with
    | registerInstance =>
      simp only [restoreDurableAdmission, durableAdmission_setAttempt, see_self]
      exact h.register ha
    | heartbeat =>
      by_cases hdisposed : m.disposed = true
      · -- disposed meanwhile: the heartbeat is seen, and nothing else happens
        have hopen : m.durableAdmission = false := h.shut hdisposed
        simp only [restoreDurableAdmission, if_pos hdisposed, durableAdmission_setAttempt, see_self]
        have hbeat : Inv ⟨m, w.hear .beat⟩ :=
          ⟨fun hopen' => absurd hopen' (by simp [hopen]), h.closed, h.attempted, h.recovering, h.reregistered, h.recovered, h.shut⟩
        exact hbeat.setAttempt a (by simp) (by simp)
      · rw [Bool.not_eq_true] at hdisposed
        have hreopen := h.reopen ha hdisposed (hpunctual rfl hdisposed (by simp))
        simpa only [restoreDurableAdmission, hdisposed, Bool.false_eq_true, if_false] using hreopen
    | runOrphanSweep | reconcileLocalOrphanedClaudeMcpArtifacts =>
      simp only [restoreDurableAdmission, durableAdmission_setAttempt, see_self]
      exact h.setAttempt a (by simp) (by simp)

/-- A tick has succeeded; after enough of them the recovery begins. -/
theorem Inv.tickSucceeded (h : Inv ⟨m, w⟩) : Inv ⟨heartbeatSucceeded m, w.hear .tickSucceeded⟩ := by
  unfold heartbeatSucceeded
  split_ifs with hopen
  · refine ⟨fun _ => ⟨(h.proven hopen).1, Nat.le_refl 0, Nat.zero_lt_succ 2⟩, fun hclosed => ?_, fun _ _ => ?_, nofun, nofun,
      h.recovered, h.shut⟩
    · exact absurd (h.closed hclosed).1 (by simp [hopen])
    · exact (h.proven hopen).1
  · rw [Bool.not_eq_true] at hopen
    have hwins (hclosed : w.closed = true) : m.consecutiveHeartbeatSuccesses + 1 ≤ w.wins + 1 :=
      Nat.succ_le_succ (h.closed hclosed).2
    refine ⟨fun hopen' => ?_, fun hclosed => ⟨hopen, hwins hclosed⟩, fun a ha => ?_, fun ha hclosed => ?_, fun ha hclosed => ?_,
      h.recovered, h.shut⟩
    · exact absurd hopen' (by simp [hopen])
    · cases a with
      | startup => exact h.attempted .startup ha
      | recovery =>
        dsimp only [AsyncJobManager.attempt] at ha
        split_ifs at ha
        cases ha
    · dsimp only [AsyncJobManager.attempt] at ha
      split_ifs at ha with hrecovers
      · exact Nat.le_trans hrecovers.1 (hwins hclosed)
    · dsimp only [AsyncJobManager.attempt] at ha
      split_ifs at ha
      cases ha

/-- A tick has failed; the third in a row closes the admission. -/
theorem Inv.tickFailed (h : Inv ⟨m, w⟩) :
    Inv ⟨heartbeatFailed m, w.see m.durableAdmission (heartbeatFailed m).durableAdmission [.tickFailed]⟩ := by
  have hattempted (a : Attempt) (ha : (heartbeatFailed m).attempt a = some .heartbeat) : w.registered = true := by
    cases a with
    | startup => exact h.attempted .startup ha
    | recovery => cases ha
  cases hopen : m.durableAdmission with
  | false =>
    have hstill : (heartbeatFailed m).durableAdmission = false := by simp [heartbeatFailed, hopen]
    rw [hstill, see_self]
    exact ⟨fun hopen' => absurd hopen' (by simp [hstill]), fun _ => ⟨hstill, Nat.zero_le _⟩, hattempted, nofun, nofun,
      h.recovered, fun _ => hstill⟩
  | true =>
    obtain ⟨hregistered, hmisses, -⟩ := h.proven hopen
    by_cases hfew : m.consecutiveHeartbeatFailures + 1 < maxConsecutiveHeartbeatFailures
    · have hstill : (heartbeatFailed m).durableAdmission = true := by simp [heartbeatFailed, hopen, hfew]
      rw [hstill, see_self]
      refine ⟨fun _ => ⟨hregistered, Nat.succ_le_succ hmisses, hfew⟩, fun hclosed => ?_, hattempted, nofun, nofun, h.recovered,
        fun hdisposed => ?_⟩
      · exact absurd (h.closed hclosed).1 (by simp [hopen])
      · exact absurd (h.shut hdisposed) (by simp [hopen])
    · have hshut : (heartbeatFailed m).durableAdmission = false := by simp [heartbeatFailed, hfew]
      rw [hshut]
      exact ⟨fun hopen' => absurd hopen' (by simp [hshut]), fun _ => ⟨hshut, Nat.zero_le _⟩, hattempted, nofun, nofun,
        h.recovered, fun _ => hshut⟩

theorem Inv.dispose (h : Inv ⟨m, w⟩) : Inv ⟨dispose m, w.see m.durableAdmission (dispose m).durableAdmission []⟩ := by
  unfold DurableAdmission.dispose
  split_ifs with hdisposed
  · rw [see_self]
    exact h
  · have hw : w.see m.durableAdmission false [] = w := by
      cases m.durableAdmission <;> simp [Watch.see]
    rw [hw]
    exact ⟨fun hopen => absurd hopen Bool.false_ne_true, fun hclosed => ⟨rfl, (h.closed hclosed).2⟩, h.attempted, h.recovering,
      h.reregistered, h.recovered, fun _ => rfl⟩

end

/-- **Every step keeps the invariant**, if the attempt of the start is punctual. -/
theorem Inv.next {s : State} (h : Inv s) {e : Event} (hpunctual : Punctual s e) : Inv (step s e).1 := by
  obtain ⟨m, w⟩ := s
  cases e with
  | heartbeatTimer =>
    unfold step DurableAdmission.next onHeartbeatTick
    dsimp only
    split_ifs with hskip
    · rw [see_self]
      exact h
    · rw [see_self]
      refine h.quiet rfl rfl rfl rfl fun a phase _ ha => ?_
      cases a with
      | startup => exact ha
      | recovery => cases ha
  | dispose => exact h.dispose
  | startup reply =>
    unfold step DurableAdmission.next
    dsimp only
    cases hphase : m.startup with
    | none =>
      rw [see_self]
      exact h
    | some phase =>
      refine h.restore (a := .startup) hphase reply fun hheartbeat hdisposed hok hclosed => ?_
      subst hheartbeat
      cases reply with
      | failed => exact absurd rfl hok
      | ok row => exact hpunctual row rfl hphase hdisposed hclosed
  | tick reply =>
    unfold step DurableAdmission.next
    dsimp only
    cases htick : m.tick with
    | none =>
      rw [see_self]
      exact h
    | some tick =>
      have hadmission : (heartbeatSucceeded m).durableAdmission = m.durableAdmission := by
        unfold heartbeatSucceeded
        split_ifs <;> rfl
      cases tick with
      | heartbeat =>
        cases reply with
        | failed => exact h.tickFailed
        | ok row =>
          cases row with
          | true =>
            dsimp only [runHeartbeatTick]
            rw [hadmission, see_self]
            exact h.tickSucceeded
          | false =>
            dsimp only [runHeartbeatTick]
            rw [see_self]
            refine h.quiet rfl rfl rfl rfl fun a phase _ ha => ?_
            cases a with
            | startup => exact ha
            | recovery => cases ha
      | registerInstance =>
        cases reply with
        | failed => exact h.tickFailed
        | ok row =>
          dsimp only [runHeartbeatTick]
          rw [hadmission, see_self]
          exact h.registered.tickSucceeded
      | restore phase =>
        have ha : m.attempt .recovery = some phase := by rw [AsyncJobManager.attempt, htick]
        refine h.restore ha reply fun hheartbeat _ _ hclosed => ?_
        subst hheartbeat
        exact h.reregistered ha hclosed

/-- A step that leads to a safe state is punctual. -/
theorem punctual_of_safe {s : State} (h : Inv s) {e : Event} (hnext : Safe (step s e).1) : Punctual s e := by
  obtain ⟨m, w⟩ := s
  rintro row rfl hphase hdisposed hclosed
  dsimp only at hphase hdisposed hclosed
  have hopen : m.durableAdmission = false := (h.closed hclosed).1
  have hearly := hnext.recovered
  simp only [step, DurableAdmission.next, hphase, restoreDurableAdmission, hdisposed, Bool.false_eq_true, if_false, hopen,
    Watch.see, Watch.hear, List.foldl_cons, List.foldl_nil] at hearly
  have hboth : w.early = false ∧ w.reregistered = true := by simpa [hclosed] using hearly
  exact hboth.2

/-- **When the admission is safe**: all along a run exactly if the attempt of the start is punctual. -/
theorem admission_safe_iff (store : Bool) (es : List Event) :
    Throughout step Safe (start store) es ↔ Along step Punctual (start store) es :=
  throughout_iff_of_invariant (P := Inv) (fun _ h => h.safe) (fun _ _ hpunctual h => h.next hpunctual)
    (fun _ _ h hnext => punctual_of_safe h hnext) (inv_start store) es

/-- A heartbeat tick whose heartbeat settles so. -/
def beat (reply : Reply) : List Event := [.heartbeatTimer, .tick reply]

/-- While the constructor waits for its registration, three ticks succeed and the recovery opens the admission; three ticks fail;
then the registration and the heartbeat of the constructor succeed. -/
def lateStart : List Event :=
  beat (.ok true) ++ beat (.ok true) ++ beat (.ok true) ++ List.replicate 4 (.tick (.ok true)) ++ beat .failed ++ beat .failed ++
    beat .failed ++ [.startup (.ok true), .startup (.ok true)]

/-- The admission is open again, without a single heartbeat tick that succeeded. -/
theorem lateStart_reopens :
    ¬(∀ (store : Bool) (es : List Event), Throughout step Safe (start store) es) ∧
      (final step (start true) lateStart).manager.durableAdmission = true ∧ (final step (start true) lateStart).watch.wins = 0 := by
  refine ⟨fun h => ?_, by decide +kernel, by decide +kernel⟩
  have hend := throughout_iff.1 (h true lateStart) _ [] (List.append_nil _).symm
  exact absurd hend.recovered (by decide +kernel)

end LlmGateway.Manager.DurableAdmission
