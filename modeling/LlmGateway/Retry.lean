import Mathlib.Data.Rat.Floor
import Mathlib.Tactic.Linarith
import LlmGateway.Lib.Run

/-!
# Retries behind a circuit breaker

`withRetry`, called any number of times with one `CircuitBreaker`.

* `State`, `Event`, `step` — a call runs up to its next `await`, a clock advances;
* `Sound` — what the breaker promises of a step;
* `protocol_along_iff` — the runs all of whose steps are sound; `not_protocol_along` is one that is not.

Of an attempt that is in flight, and of the failures since the last success, the state also keeps what only the statements
read: `startedIn` and `sinceSuccess`.
-/

namespace LlmGateway.Retry

open LlmGateway.Lib

inductive CircuitBreakerState where
  | closed
  | opened
  | halfOpen
deriving DecidableEq

structure CircuitBreaker where
  state : CircuitBreakerState
  failures : ℕ
  lastFailureTime : Option ℕ
deriving DecidableEq

/-- The fields of a breaker that do not change. -/
structure Config where
  resetTimeout : ℕ
  failureThreshold : ℕ

/-- `createCircuitBreaker`, without options. -/
def Config.default : Config := ⟨60000, 5⟩

def createCircuitBreaker : CircuitBreaker := ⟨.closed, 0, none⟩

structure RetryOptions (ε : Type) where
  initialDelay : ℚ
  maxDelay : ℚ
  factor : ℚ
  isTransient : ε → Bool

/-- The `code` of an error. -/
inductive Code where
  | number (n : ℤ)
  | name (s : String)
deriving DecidableEq

def isDefaultTransient (error : Option Code) : Bool :=
  match error with
  | none => false
  | some code =>
    if code = .number 124 then true
    else if code = .name "ENOENT" then false
    else code ∈ [.name "ECONNRESET", .name "ETIMEDOUT", .name "ECONNREFUSED", .name "EPIPE"]

def RetryOptions.default : RetryOptions (Option Code) := ⟨1000, 30000, 2, isDefaultTransient⟩

variable {ε : Type}

/-- The `delay` behind a failed attempt. -/
def RetryOptions.delay (options : RetryOptions ε) (attempt : ℕ) : ℚ :=
  min (options.initialDelay * options.factor ^ (attempt - 1)) options.maxDelay

/-- The milliseconds that `setTimeout` makes of a delay. -/
def timeout (delay : ℚ) : ℕ := if 1 ≤ delay ∧ delay ≤ 2147483647 then ⌊delay⌋.toNat else 1

/-! ## What a call does to the breaker -/

section Breaker

variable (cfg : Config) (now : ℕ) (breaker : CircuitBreaker)

/-- The breaker and its calls of `onStateChange` behind the check in front of the loop, if the call does not fail fast. -/
def enter : Option (CircuitBreaker × List CircuitBreakerState) :=
  if breaker.state = .opened then
    if now - breaker.lastFailureTime.getD 0 > cfg.resetTimeout then
      some ({ breaker with state := .halfOpen }, [.halfOpen])
    else none
  else some (breaker, [])

def onSuccess : CircuitBreaker × List CircuitBreakerState :=
  if breaker.failures > 0 ∨ breaker.state = .halfOpen then
    (⟨.closed, 0, none⟩, if breaker.state ≠ .closed then [.closed] else [])
  else (breaker, [])

/-- What a transient failure of an attempt leads to; `again` if it is the delay and another attempt. -/
structure Failed where
  breaker : CircuitBreaker
  reports : List CircuitBreakerState
  again : Bool

def onTransient (attempt : ℕ) : Failed :=
  let breaker := { breaker with failures := breaker.failures + 1, lastFailureTime := some now }
  if breaker.state = .halfOpen then ⟨{ breaker with state := .opened }, [.opened], false⟩
  else if breaker.failures ≥ cfg.failureThreshold then
    ⟨{ breaker with state := .opened }, if breaker.state = .closed then [.opened] else [], false⟩
  else ⟨breaker, [], attempt ≠ cfg.failureThreshold⟩

end Breaker

/-! ## The calls -/

/-- Where a call is: it awaits its operation or its delay, or is over. -/
inductive Phase where
  | inFlight (attempt : ℕ) (startedIn : CircuitBreakerState)
  | sleeping (attempt : ℕ) (ready : ℕ)
  | over

structure Call (ε : Type) where
  options : RetryOptions ε
  phase : Phase

structure State (ε : Type) where
  breaker : CircuitBreaker
  calls : List (Call ε)
  now : ℕ
  /-- the transient failures since the last success -/
  sinceSuccess : ℕ

inductive Event (ε : Type) where
  | call (options : RetryOptions ε)
  /-- the operation of a call resolves, or rejects with an error -/
  | settle (i : ℕ) (error : Option ε)
  /-- the delay of a call is over -/
  | wake (i : ℕ)
  | tick (ms : ℕ)

/-- What a step shows: whether it started an attempt, and its calls of `onStateChange`. -/
structure Effect where
  started : Bool
  reports : List CircuitBreakerState

def Effect.none : Effect := ⟨false, []⟩

namespace State

variable (cfg : Config) (s : State ε)

def setPhase (i : ℕ) (c : Call ε) (phase : Phase) : State ε :=
  { s with calls := s.calls.set i { c with phase := phase } }

def call (options : RetryOptions ε) : State ε × Effect :=
  match enter cfg s.now s.breaker with
  | none => ({ s with calls := s.calls ++ [⟨options, .over⟩] }, .none)
  | some (breaker, reports) =>
    if 1 ≤ cfg.failureThreshold then
      ({ s with breaker := breaker, calls := s.calls ++ [⟨options, .inFlight 1 breaker.state⟩] }, ⟨true, reports⟩)
    else ({ s with breaker := breaker, calls := s.calls ++ [⟨options, .over⟩] }, ⟨false, reports⟩)

/-- An attempt of the call `c` has settled. -/
def settled (i : ℕ) (c : Call ε) (attempt : ℕ) : Option ε → State ε × Effect
  | none =>
    let r := onSuccess s.breaker
    ({ s with breaker := r.1, sinceSuccess := 0 }.setPhase i c .over, ⟨false, r.2⟩)
  | some error =>
    if c.options.isTransient error then
      let r := onTransient cfg s.now s.breaker attempt
      let phase := if r.again then .sleeping attempt (s.now + timeout (c.options.delay attempt)) else .over
      ({ s with breaker := r.breaker, sinceSuccess := s.sinceSuccess + 1 }.setPhase i c phase, ⟨false, r.reports⟩)
    else (s.setPhase i c .over, .none)

def settle (i : ℕ) (error : Option ε) : State ε × Effect :=
  match s.calls[i]? with
  | some c =>
    match c.phase with
    | .inFlight attempt _ => s.settled cfg i c attempt error
    | _ => (s, .none)
  | none => (s, .none)

def wake (i : ℕ) : State ε × Effect :=
  match s.calls[i]? with
  | some c =>
    match c.phase with
    | .sleeping attempt ready =>
      if ready ≤ s.now then (s.setPhase i c (.inFlight (attempt + 1) s.breaker.state), ⟨true, []⟩) else (s, .none)
    | _ => (s, .none)
  | none => (s, .none)

end State

def step (cfg : Config) (s : State ε) : Event ε → State ε × Effect
  | .call options => s.call cfg options
  | .settle i error => s.settle cfg i error
  | .wake i => s.wake i
  | .tick ms => ({ s with now := s.now + ms }, .none)

def init : State ε := ⟨createCircuitBreaker, [], 0, 0⟩

/-! ## What the breaker promises -/

/-- An attempt in flight that was started while the breaker was half open. -/
def Call.trial (c : Call ε) : Bool :=
  match c.phase with
  | .inFlight _ startedIn => startedIn = .halfOpen
  | _ => false

def State.trials (s : State ε) : ℕ := s.calls.countP Call.trial

/-- The breaker is open, and at most its reset timeout has passed since the last failure. -/
def State.shut (cfg : Config) (s : State ε) : Bool :=
  s.breaker.state = .opened && s.now - s.breaker.lastFailureTime.getD 0 ≤ cfg.resetTimeout

/-- **The protocol of the breaker**, in a step to `s'`. -/
structure Sound (cfg : Config) (s : State ε) (e : Event ε) (s' : State ε) (r : Effect) : Prop where
  /-- no attempt starts behind a breaker that is shut, -/
  shut : r.started = true → s'.shut cfg = false
  /-- one trial at most is in flight, -/
  single : s'.trials ≤ 1
  /-- a trial that settles leaves the breaker closed or open, -/
  settles : ∀ (i : ℕ) (error : Option ε) (c : Call ε), e = .settle i error → s.calls[i]? = some c → c.trial = true →
    s'.breaker.state ≠ .halfOpen
  /-- so that a half-open breaker waits for one, -/
  waits : s'.breaker.state = .halfOpen → 0 < s'.trials
  /-- the breaker opens behind as many transient failures as its threshold says, with no success between them, -/
  opens : s.breaker.state = .closed → s'.breaker.state = .opened → cfg.failureThreshold ≤ s'.sinceSuccess
  /-- and each change of its state is reported once, and nothing else -/
  reports : r.reports = if s'.breaker.state = s.breaker.state then [] else [s'.breaker.state]

/-- What must not happen in a state: a call or the end of a delay at a half-open breaker, the end of a delay at one that is
shut, a call that opens it half while a trial is in flight, a trial that fails for good and is the one that was waited for. -/
def Meets (cfg : Config) (s : State ε) : Event ε → Prop
  | .call _ => s.breaker.state ≠ .halfOpen ∧ (s.breaker.state = .opened → s.shut cfg = false → s.trials = 0)
  | .settle i error => ∀ (c : Call ε) (e : ε), s.calls[i]? = some c → c.trial = true → error = some e →
      c.options.isTransient e = false → s.breaker.state ≠ .halfOpen
  | .wake i => ∀ (c : Call ε) (attempt ready : ℕ), s.calls[i]? = some c → c.phase = .sleeping attempt ready →
      ready ≤ s.now → s.breaker.state ≠ .halfOpen ∧ s.shut cfg = false
  | .tick _ => True

/-! ## The steps -/

variable {cfg : Config} {s s' : State ε} {e : Event ε} {r : Effect}

/-- The call that a call of `withRetry` becomes behind the check. -/
def Call.first (cfg : Config) (options : RetryOptions ε) (state : CircuitBreakerState) : Call ε :=
  ⟨options, if 1 ≤ cfg.failureThreshold then .inFlight 1 state else .over⟩

/-- What a step can do. -/
inductive Move (cfg : Config) (s : State ε) : Event ε → State ε → Effect → Prop
  | tick (ms : ℕ) : Move cfg s (.tick ms) { s with now := s.now + ms } .none
  | failsFast (options : RetryOptions ε) (h : s.shut cfg = true) :
    Move cfg s (.call options) { s with calls := s.calls ++ [⟨options, .over⟩] } .none
  | probes (options : RetryOptions ε) (ho : s.breaker.state = .opened) (h : s.shut cfg = false) :
    Move cfg s (.call options)
      { s with
        breaker := { s.breaker with state := .halfOpen }
        calls := s.calls ++ [.first cfg options .halfOpen] }
      ⟨1 ≤ cfg.failureThreshold, [.halfOpen]⟩
  | passes (options : RetryOptions ε) (h : s.breaker.state ≠ .opened) :
    Move cfg s (.call options) { s with calls := s.calls ++ [.first cfg options s.breaker.state] }
      ⟨1 ≤ cfg.failureThreshold, []⟩
  | succeeds (i : ℕ) (c : Call ε) (attempt : ℕ) (startedIn : CircuitBreakerState) (hc : s.calls[i]? = some c)
    (hp : c.phase = .inFlight attempt startedIn) :
    Move cfg s (.settle i none) ({ s with breaker := (onSuccess s.breaker).1, sinceSuccess := 0 }.setPhase i c .over)
      ⟨false, (onSuccess s.breaker).2⟩
  | failsForGood (i : ℕ) (c : Call ε) (attempt : ℕ) (startedIn : CircuitBreakerState) (error : ε) (hc : s.calls[i]? = some c)
    (hp : c.phase = .inFlight attempt startedIn) (ht : c.options.isTransient error = false) :
    Move cfg s (.settle i (some error)) (s.setPhase i c .over) .none
  | fails (i : ℕ) (c : Call ε) (attempt : ℕ) (startedIn : CircuitBreakerState) (error : ε) (phase : Phase)
    (hc : s.calls[i]? = some c) (hp : c.phase = .inFlight attempt startedIn) (ht : c.options.isTransient error = true)
    (hnext : phase = .over ∨ ∃ ready, phase = .sleeping attempt ready) :
    Move cfg s (.settle i (some error))
      ({ s with
        breaker := (onTransient cfg s.now s.breaker attempt).breaker
        sinceSuccess := s.sinceSuccess + 1 }.setPhase i c phase)
      ⟨false, (onTransient cfg s.now s.breaker attempt).reports⟩
  | settled (i : ℕ) (error : Option ε) (h : ∀ c, s.calls[i]? = some c → c.trial = false) : Move cfg s (.settle i error) s .none
  | wakes (i : ℕ) (c : Call ε) (attempt ready : ℕ) (hc : s.calls[i]? = some c) (hp : c.phase = .sleeping attempt ready)
    (hr : ready ≤ s.now) : Move cfg s (.wake i) (s.setPhase i c (.inFlight (attempt + 1) s.breaker.state)) ⟨true, []⟩
  | sleepsOn (i : ℕ) (h : ∀ c attempt ready, s.calls[i]? = some c → c.phase = .sleeping attempt ready → ¬ready ≤ s.now) :
    Move cfg s (.wake i) s .none

theorem shut_iff : s.shut cfg = true ↔
    s.breaker.state = .opened ∧ s.now - s.breaker.lastFailureTime.getD 0 ≤ cfg.resetTimeout := by
  simp [State.shut]

theorem call_move (options : RetryOptions ε) : Move cfg s (.call options) (s.call cfg options).1 (s.call cfg options).2 := by
  unfold State.call enter
  by_cases ho : s.breaker.state = .opened
  · rw [if_pos ho]
    by_cases ht : s.now - s.breaker.lastFailureTime.getD 0 > cfg.resetTimeout
    · have hshut : s.shut cfg = false := by
        rw [Bool.eq_false_iff, ne_eq, shut_iff]
        omega
      have hmove : Move cfg s _ _ _ := .probes options ho hshut
      rw [if_pos ht]
      unfold Call.first at hmove
      dsimp only
      split <;> simp_all
    · rw [if_neg ht]
      exact .failsFast options (shut_iff.2 ⟨ho, Nat.le_of_not_lt ht⟩)
  · have hmove : Move cfg s _ _ _ := .passes options ho
    rw [if_neg ho]
    unfold Call.first at hmove
    dsimp only
    split <;> simp_all

theorem settle_move (i : ℕ) (error : Option ε) :
    Move cfg s (.settle i error) (s.settle cfg i error).1 (s.settle cfg i error).2 := by
  unfold State.settle
  split
  · rename_i c hc
    split
    · rename_i attempt startedIn hp
      cases error with
      | none => exact .succeeds i c attempt startedIn hc hp
      | some error =>
        simp only [State.settled]
        split
        · rename_i ht
          refine .fails i c attempt startedIn error _ hc hp ht ?_
          split
          · exact .inr ⟨_, rfl⟩
          · exact .inl rfl
        · rename_i ht
          exact .failsForGood i c attempt startedIn error hc hp (by simpa using ht)
    · rename_i hp
      refine .settled i error fun c' hc' => ?_
      obtain rfl := Option.some.inj (hc.symm.trans hc')
      unfold Call.trial
      split
      · rename_i attempt startedIn hp'
        exact absurd hp' (hp attempt startedIn)
      · rfl
  · rename_i hc
    refine .settled i error fun c hc' => ?_
    rw [hc] at hc'
    cases hc'

theorem wake_move (i : ℕ) : Move cfg s (.wake i) (s.wake i).1 (s.wake i).2 := by
  unfold State.wake
  split
  · rename_i c hc
    split
    · rename_i attempt ready hp
      split
      · rename_i hr
        exact .wakes i c attempt ready hc hp hr
      · rename_i hr
        refine .sleepsOn i fun c' attempt' ready' hc' hp' => ?_
        obtain rfl := Option.some.inj (hc.symm.trans hc')
        obtain ⟨-, rfl⟩ := Phase.sleeping.inj (hp.symm.trans hp')
        exact hr
    · rename_i hp
      refine .sleepsOn i fun c' attempt ready hc' hp' => ?_
      obtain rfl := Option.some.inj (hc.symm.trans hc')
      exact absurd hp' (hp attempt ready)
  · rename_i hc
    refine .sleepsOn i fun c attempt ready hc' => ?_
    rw [hc] at hc'
    cases hc'

theorem step_move (e : Event ε) : Move cfg s e (step cfg s e).1 (step cfg s e).2 := by
  cases e with
  | call options => exact call_move options
  | settle i error => exact settle_move i error
  | wake i => exact wake_move i
  | tick ms => exact .tick ms

/-! ## Trials -/

theorem trials_append (s : State ε) (b : CircuitBreaker) (c : Call ε) :
    ({ s with breaker := b, calls := s.calls ++ [c] } : State ε).trials = s.trials + if c.trial then 1 else 0 := by
  simp [State.trials, List.countP_append, List.countP_singleton]

theorem trials_setPhase {i : ℕ} {c : Call ε} (hc : s.calls[i]? = some c) (b : CircuitBreaker) (n : ℕ) (phase : Phase) :
    ({ s with breaker := b, sinceSuccess := n }.setPhase i c phase : State ε).trials + (if c.trial then 1 else 0) =
      s.trials + if ({ c with phase := phase } : Call ε).trial then 1 else 0 := by
  obtain ⟨hlt, hget⟩ := List.getElem?_eq_some_iff.1 hc
  have hpos : c.trial = true → 0 < s.calls.countP Call.trial := fun ht =>
    List.countP_pos_iff.2 ⟨c, List.mem_of_getElem? hc, ht⟩
  simp only [State.trials, State.setPhase, List.countP_set hlt, hget]
  cases ht : c.trial with
  | true =>
    have := hpos ht
    simp only [if_true]
    omega
  | false => simp

/-- A call that goes on, and is no trial there. -/
theorem trials_leave {i : ℕ} {c : Call ε} (hc : s.calls[i]? = some c) (b : CircuitBreaker) (n : ℕ) (phase : Phase)
    (hphase : ({ c with phase := phase } : Call ε).trial = false) :
    ({ s with breaker := b, sinceSuccess := n }.setPhase i c phase : State ε).trials + (if c.trial then 1 else 0) = s.trials := by
  have htrials := trials_setPhase hc b n phase
  rwa [hphase] at htrials

theorem trial_of_inFlight {c : Call ε} {attempt : ℕ} {startedIn : CircuitBreakerState}
    (hp : c.phase = .inFlight attempt startedIn) : c.trial = true ↔ startedIn = .halfOpen := by
  simp [Call.trial, hp]

theorem trial_first (options : RetryOptions ε) (state : CircuitBreakerState) :
    (Call.first cfg options state).trial = true ↔ 1 ≤ cfg.failureThreshold ∧ state = .halfOpen := by
  unfold Call.first
  by_cases h : 1 ≤ cfg.failureThreshold
  · simp [Call.trial, h]
  · simp [Call.trial, h]

theorem trial_sleeping {c : Call ε} {attempt ready : ℕ} (hp : c.phase = .sleeping attempt ready) : c.trial = false := by
  simp [Call.trial, hp]

/-- A call that will attempt again, or is at it. -/
def Call.live (c : Call ε) : Prop := c.phase ≠ .over

/-- What holds as long as the steps have met the condition. -/
structure Inv (cfg : Config) (s : State ε) : Prop where
  failures : s.breaker.failures = s.sinceSuccess
  single : s.trials ≤ 1
  waits : s.breaker.state = .halfOpen → 0 < s.trials
  /-- without attempts there are no failures -/
  live : ∀ c ∈ s.calls, c.live → 1 ≤ cfg.failureThreshold
  tripped : s.breaker.state ≠ .closed → 1 ≤ cfg.failureThreshold

theorem inv_init : Inv cfg (init : State ε) where
  failures := rfl
  single := Nat.zero_le 1
  waits h := by cases h
  live c hc := by cases hc
  tripped h := absurd rfl h

/-! ## What an attempt does to the breaker -/

section Breaker

variable (now attempt : ℕ) (breaker : CircuitBreaker)

theorem failures_onSuccess : (onSuccess breaker).1.failures = 0 := by
  unfold onSuccess
  split
  · rfl
  · rename_i h
    simp only [not_or, Nat.not_lt, Nat.le_zero] at h
    exact h.1

theorem state_onSuccess : (onSuccess breaker).1.state = .closed ∨
    (onSuccess breaker).1.state = .opened ∧ breaker.state = .opened := by
  unfold onSuccess
  split
  · exact .inl rfl
  · rename_i h
    cases hs : breaker.state with
    | closed => exact .inl rfl
    | opened => exact .inr ⟨rfl, rfl⟩
    | halfOpen => exact absurd (.inr hs) h

theorem reports_onSuccess : (onSuccess breaker).2 =
    if (onSuccess breaker).1.state = breaker.state then [] else [(onSuccess breaker).1.state] := by
  unfold onSuccess
  split
  · by_cases hs : breaker.state = .closed
    · simp [hs]
    · simp [hs, Ne.symm hs]
  · simp

variable (cfg)

theorem failures_onTransient : (onTransient cfg now breaker attempt).breaker.failures = breaker.failures + 1 := by
  unfold onTransient
  dsimp only
  split
  · rfl
  · split <;> rfl

theorem state_onTransient : (onTransient cfg now breaker attempt).breaker.state = .opened ∨
    (onTransient cfg now breaker attempt).breaker.state = breaker.state ∧ breaker.state ≠ .halfOpen := by
  unfold onTransient
  dsimp only
  split
  · exact .inl rfl
  · rename_i hs
    split
    · exact .inl rfl
    · exact .inr ⟨rfl, hs⟩

theorem opens_onTransient (hc : breaker.state = .closed)
    (ho : (onTransient cfg now breaker attempt).breaker.state = .opened) : cfg.failureThreshold ≤ breaker.failures + 1 := by
  by_contra hlt
  have hstays : (onTransient cfg now breaker attempt).breaker.state = .closed := by simp [onTransient, hc, hlt]
  rw [hstays] at ho
  cases ho

theorem reports_onTransient : (onTransient cfg now breaker attempt).reports =
    if (onTransient cfg now breaker attempt).breaker.state = breaker.state then []
    else [(onTransient cfg now breaker attempt).breaker.state] := by
  unfold onTransient
  dsimp only
  split
  · rename_i hs
    simp [hs]
  · rename_i hs
    split
    · cases hc : breaker.state with
      | closed => rfl
      | opened => rfl
      | halfOpen => exact absurd hc hs
    · simp

end Breaker

/-! ## The condition is exact -/

theorem inv_move (h : Inv cfg s) (hm : Move cfg s e s' r) (hC : Meets cfg s e) : Inv cfg s' := by
  -- a call that is set to another phase was live before
  have hlive : ∀ {i : ℕ} {c : Call ε} {phase : Phase}, s.calls[i]? = some c → c.live →
      ∀ a ∈ s.calls.set i { c with phase := phase }, a.live → 1 ≤ cfg.failureThreshold := by
    intro i c phase hc hl a ha hla
    rcases List.mem_or_eq_of_mem_set ha with ha | rfl
    · exact h.live a ha hla
    · exact h.live c (List.mem_of_getElem? hc) hl
  have happend : ∀ {a : Call ε}, (a.live → 1 ≤ cfg.failureThreshold) →
      ∀ c ∈ s.calls ++ [a], c.live → 1 ≤ cfg.failureThreshold := by
    intro a ha c hc hl
    rcases List.mem_append.1 hc with hc | hc
    · exact h.live c hc hl
    · rw [List.mem_singleton.1 hc] at hl
      exact ha hl
  have hfirst : ∀ {options : RetryOptions ε} {state : CircuitBreakerState},
      (Call.first cfg options state).live → 1 ≤ cfg.failureThreshold := by
    intro options state hl
    by_contra hn
    exact hl (by simp [Call.first, hn])
  cases hm with
  | tick ms => exact { h with }
  | failsFast options hs =>
    have htrials := trials_append s s.breaker (⟨options, .over⟩ : Call ε)
    exact { h with
      single := by rw [htrials]; exact h.single
      waits := fun hb => by rw [htrials]; exact h.waits hb
      live := happend fun hl => absurd rfl hl }
  | probes options ho hs =>
    have hnone : s.trials = 0 := hC.2 ho hs
    have htripped : 1 ≤ cfg.failureThreshold := h.tripped (by rw [ho]; simp)
    have htrial : (Call.first cfg options .halfOpen).trial = true := (trial_first options _).2 ⟨htripped, rfl⟩
    have htrials := trials_append s { s.breaker with state := .halfOpen } (.first cfg options .halfOpen)
    rw [hnone, htrial] at htrials
    exact
      { failures := h.failures
        single := Nat.le_of_eq htrials
        waits := fun _ => Nat.lt_of_lt_of_eq Nat.one_pos htrials.symm
        live := happend hfirst
        tripped := fun _ => htripped }
  | passes options hs =>
    have htrial : (Call.first cfg options s.breaker.state).trial = false := by
      rw [Bool.eq_false_iff, ne_eq, trial_first]
      exact fun ht => hC.1 ht.2
    have htrials := trials_append s s.breaker (.first cfg options s.breaker.state)
    rw [htrial] at htrials
    exact { h with
      single := Nat.le_trans (Nat.le_of_eq htrials) h.single
      waits := fun hb => absurd hb hC.1
      live := happend hfirst }
  | succeeds i c attempt startedIn hc hp =>
    have hl : c.live := by rw [Call.live, hp]; simp
    have htrials := trials_leave hc (onSuccess s.breaker).1 0 .over rfl
    exact
      { failures := failures_onSuccess _
        single := (Nat.le_of_add_right_le (Nat.le_of_eq htrials)).trans h.single
        waits := fun hb => by
          rcases state_onSuccess s.breaker with hs | ⟨hs, -⟩
          · cases hb.symm.trans hs
          · cases hb.symm.trans hs
        live := hlive hc hl
        tripped := fun _ => h.live c (List.mem_of_getElem? hc) hl }
  | failsForGood i c attempt startedIn error hc hp ht =>
    have hl : c.live := by rw [Call.live, hp]; simp
    have htrials := trials_leave hc s.breaker s.sinceSuccess .over rfl
    exact { h with
      single := (Nat.le_of_add_right_le (Nat.le_of_eq htrials)).trans h.single
      waits := fun hb => by
        have hnot : c.trial = false := by
          by_contra hct
          exact hC c error hc (by simpa using hct) rfl ht hb
        rw [hnot] at htrials
        exact Nat.lt_of_lt_of_eq (h.waits hb) htrials.symm
      live := hlive hc hl }
  | fails i c attempt startedIn error phase hc hp ht hnext =>
    have hl : c.live := by rw [Call.live, hp]; simp
    have hphase : ({ c with phase := phase } : Call ε).trial = false := by
      rcases hnext with rfl | ⟨ready, rfl⟩ <;> rfl
    have htrials := trials_leave hc (onTransient cfg s.now s.breaker attempt).breaker (s.sinceSuccess + 1) phase hphase
    exact
      { failures := by
          rw [State.setPhase, failures_onTransient, h.failures]
        single := (Nat.le_of_add_right_le (Nat.le_of_eq htrials)).trans h.single
        waits := fun hb => by
          rcases state_onTransient cfg s.now attempt s.breaker with hs | ⟨hs, hn⟩
          · cases hb.symm.trans hs
          · exact absurd (hs.symm.trans hb) hn
        live := hlive hc hl
        tripped := fun _ => h.live c (List.mem_of_getElem? hc) hl }
  | settled i error hs => exact h
  | wakes i c attempt ready hc hp hr =>
    have hl : c.live := by rw [Call.live, hp]; simp
    obtain ⟨hhalf, -⟩ := hC c attempt ready hc hp hr
    have htrials := trials_setPhase hc s.breaker s.sinceSuccess (.inFlight (attempt + 1) s.breaker.state)
    have hnot : ({ c with phase := .inFlight (attempt + 1) s.breaker.state } : Call ε).trial = false := by
      rw [Bool.eq_false_iff, ne_eq, @trial_of_inFlight _ _ (attempt + 1) s.breaker.state rfl]
      exact hhalf
    rw [trial_sleeping hp, hnot] at htrials
    exact { h with
      single := Nat.le_trans (Nat.le_of_eq htrials) h.single
      waits := fun hb => absurd hb hhalf
      live := hlive hc hl }
  | sleepsOn i hs => exact h

theorem sound_move (h : Inv cfg s) (hm : Move cfg s e s' r) (hC : Meets cfg s e) : Sound cfg s e s' r := by
  have hinv := inv_move h hm hC
  refine ⟨?_, hinv.single, ?_, hinv.waits, ?_, ?_⟩
  · intro hstarted
    cases hm with
    | tick ms | failsFast options hs => cases hstarted
    | probes options ho hs => rfl
    | passes options hs => simp [State.shut, hs]
    | succeeds | failsForGood | fails | settled => cases hstarted
    | wakes i c attempt ready hc hp hr => exact (hC c attempt ready hc hp hr).2
    | sleepsOn => cases hstarted
  · intro i error c he hc ht
    cases hm with
    | tick ms => cases he
    | failsFast => cases he
    | probes => cases he
    | passes => cases he
    | succeeds =>
      rcases state_onSuccess s.breaker with hs | ⟨hs, -⟩
      · exact fun hb => by cases hb.symm.trans hs
      · exact fun hb => by cases hb.symm.trans hs
    | failsForGood j c' attempt startedIn error' hc' hp hf =>
      obtain ⟨rfl, rfl⟩ := Event.settle.inj he
      obtain rfl := Option.some.inj (hc.symm.trans hc')
      exact hC c error' hc ht rfl hf
    | fails j c' attempt =>
      rcases state_onTransient cfg s.now attempt s.breaker with hs | ⟨hs, hn⟩
      · exact fun hb => by cases hb.symm.trans hs
      · exact fun hb => hn (hs.symm.trans hb)
    | settled j error' hs =>
      obtain ⟨rfl, rfl⟩ := Event.settle.inj he
      rw [hs c hc] at ht
      cases ht
    | wakes => cases he
    | sleepsOn => cases he
  · intro hclosed hopened
    cases hm with
    | succeeds =>
      rcases state_onSuccess s.breaker with hs | ⟨-, hs⟩
      · cases hopened.symm.trans hs
      · cases hclosed.symm.trans hs
    | fails i c attempt startedIn error phase =>
      have hcount := opens_onTransient cfg s.now attempt s.breaker hclosed hopened
      rwa [h.failures] at hcount
    | tick ms | failsFast => cases hclosed.symm.trans hopened
    | probes => cases hopened
    | passes | failsForGood | settled | wakes | sleepsOn => cases hclosed.symm.trans hopened
  · have hsame : ([] : List CircuitBreakerState) = if s.breaker.state = s.breaker.state then [] else [s.breaker.state] :=
      (if_pos rfl).symm
    cases hm with
    | succeeds => exact reports_onSuccess _
    | fails => exact reports_onTransient _ _ _ _
    | probes options ho hs =>
      rw [if_neg (by rw [ho]; simp)]
    | tick ms | failsFast | passes | failsForGood | settled | wakes | sleepsOn => exact hsame

theorem meets_of_sound (h : Inv cfg s) (hm : Move cfg s e s' r) (hs : Sound cfg s e s' r) : Meets cfg s e := by
  have hsingle := hs.single
  cases hm with
  | tick ms => trivial
  | failsFast options hshut =>
    obtain ⟨ho, -⟩ := shut_iff.1 hshut
    refine ⟨by rw [ho]; simp, fun _ hn => ?_⟩
    rw [hshut] at hn
    cases hn
  | probes options ho hshut =>
    refine ⟨by rw [ho]; simp, fun _ _ => ?_⟩
    have htripped : 1 ≤ cfg.failureThreshold := h.tripped (by rw [ho]; simp)
    rw [trials_append, (trial_first options _).2 ⟨htripped, rfl⟩, if_pos rfl] at hsingle
    omega
  | passes options ho =>
    refine ⟨fun hhalf => ?_, fun hopened => absurd hopened ho⟩
    have htripped : 1 ≤ cfg.failureThreshold := h.tripped (by rw [hhalf]; simp)
    have hone := h.waits hhalf
    have htrials := trials_append s s.breaker (.first cfg options s.breaker.state)
    rw [(trial_first options _).2 ⟨htripped, hhalf⟩, if_pos rfl] at htrials
    have hle : s.trials + 1 ≤ 1 := Nat.le_trans (Nat.le_of_eq htrials.symm) hsingle
    omega
  | succeeds =>
    intro _ _ _ _ he
    cases he
  | failsForGood i c attempt startedIn error hc hp hf => exact fun c' _ hc' ht _ _ => hs.settles i _ c' rfl hc' ht
  | fails i c attempt startedIn error phase hc hp ht hnext =>
    intro c' e' hc' _ he hf
    obtain rfl := Option.some.inj (hc.symm.trans hc')
    obtain rfl := Option.some.inj he
    rw [ht] at hf
    cases hf
  | settled i error hnone =>
    intro c _ hc ht
    rw [hnone c hc] at ht
    cases ht
  | wakes i c attempt ready hc hp hr =>
    intro c' attempt' ready' hc' hp' hr'
    refine ⟨fun hhalf => ?_, hs.shut rfl⟩
    have hone := h.waits hhalf
    have htrials := trials_setPhase hc s.breaker s.sinceSuccess (.inFlight (attempt + 1) s.breaker.state)
    rw [trial_sleeping hp, (@trial_of_inFlight _ _ (attempt + 1) s.breaker.state rfl).2 hhalf, if_pos rfl] at htrials
    have hle : s.trials + 1 ≤ 1 := Nat.le_trans (Nat.le_of_eq htrials.symm) hsingle
    omega
  | sleepsOn i hnot => exact fun c attempt ready hc hp hr => absurd hr (hnot c attempt ready hc hp)

/-- **The breaker keeps its protocol** in the runs whose steps all meet the condition, and in no others. -/
theorem protocol_along_iff (cfg : Config) (es : List (Event ε)) :
    Run.Along (step cfg) (fun s e => Sound cfg s e (step cfg s e).1 (step cfg s e).2) init es ↔
      Run.Along (step cfg) (Meets cfg) init es :=
  Run.along_iff_of_invariant (fun _ e hC h => inv_move h (step_move e) hC)
    (fun _ e h => ⟨meets_of_sound h (step_move e), sound_move h (step_move e)⟩) inv_init es

/-- The provider command times out five times; once the breaker lets a trial through, the command is gone. -/
def missingCommand : List (Event (Option Code)) :=
  [.call .default, .settle 0 (some (some (.number 124))), .tick 1000, .wake 0, .settle 0 (some (some (.number 124))), .tick 2000,
    .wake 0, .settle 0 (some (some (.number 124))), .tick 4000, .wake 0, .settle 0 (some (some (.number 124))), .tick 8000,
    .wake 0, .settle 0 (some (some (.number 124))), .tick 60001, .call .default,
    .settle 1 (some (some (.name "ENOENT")))]

/-- The breaker stays half open, with nothing in flight. -/
theorem not_protocol_along : ¬Run.Along (step .default)
    (fun s e => Sound .default s e (step .default s e).1 (step .default s e).2) init missingCommand := by
  intro h
  have hsplit : missingCommand = missingCommand.take 16 ++ [.settle 1 (some (some (.name "ENOENT")))] := rfl
  rw [hsplit, Run.along_append] at h
  have hlast := h.2.1.waits
  have hhalf : (Run.final (step .default) init (missingCommand.take 16 ++
      [.settle 1 (some (some (.name "ENOENT")))])).breaker.state = .halfOpen := by decide +kernel
  have hnone : (Run.final (step .default) init (missingCommand.take 16 ++
      [.settle 1 (some (some (.name "ENOENT")))])).trials = 0 := by decide +kernel
  rw [Run.final_concat] at hhalf hnone
  have hpos := hlast hhalf
  rw [hnone] at hpos
  exact Nat.lt_irrefl 0 hpos

end LlmGateway.Retry
