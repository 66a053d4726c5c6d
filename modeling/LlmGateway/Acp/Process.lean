import Mathlib.Data.Int.Notation
import Mathlib.Data.List.Basic
import LlmGateway.Lib.Run

/-!
# The ACP process manager

`acp/process-manager.ts`: the processes that a manager has started, each with its handshake, its two timers and the ownership of
its process group and working directory.

* `Process` — the fields of a `ManagedProcessImpl` that its callbacks change, and its history;
* `Manager`, `Event`, `step` — a callback of one process, a start, or a shutdown of all that are live;
* `Sound` — the life cycle of a process, in a step; `lifeCycle_along_iff` — the runs all of whose steps keep to it.
-/

namespace LlmGateway.Acp.Processes

open LlmGateway.Lib

inductive TerminationSignal where
  | SIGTERM
  | SIGKILL
  | SIGINT
  | SIGHUP
deriving DecidableEq

inductive AcpProcessState where
  | starting
  | running
  | exited
  | quarantined
deriving DecidableEq

/-- Neither starting nor running any more. -/
def AcpProcessState.terminal : AcpProcessState → Bool
  | .starting => false
  | .running => false
  | .exited => true
  | .quarantined => true

/-- The promise of `client.initialize()` and its continuation in `initialize`. -/
inductive Handshake where
  | pending
  | resolved
  | rejected
  | continued
deriving DecidableEq

inductive TerminalError where
  | exit (code : Option ℤ) (signal : Option TerminationSignal)
  | spawnError
  | transport
  | shutdown (signal : TerminationSignal)
deriving DecidableEq

structure Process where
  /-- the child has a `killProcessTree` -/
  tree : Bool
  /-- `idleTimeoutMs > 0` -/
  idles : Bool
  state : AcpProcessState
  exitCode : Option ℤ
  signal : Option TerminationSignal
  terminalError : Option TerminalError
  handshake : Handshake
  transportClosed : Bool
  idleTimer : Bool
  killTimer : Bool
  terminationPending : Bool
  /-- its group is registered, and its own working directory is there -/
  owned : Bool
  /-- the signals that were sent to it, the last one in front -/
  sent : List TerminationSignal
  /-- the calls of `onTerminal` -/
  terminals : ℕ
  initialized : Bool
  /-- an exit, a spawn error, a terminal transport or a shutdown has occurred -/
  ended : Bool
  exitSeen : Bool
  errorSeen : Bool
deriving DecidableEq

namespace Process

def new (tree idles : Bool) : Process where
  tree := tree
  idles := idles
  state := .starting
  exitCode := none
  signal := none
  terminalError := none
  handshake := .pending
  transportClosed := false
  idleTimer := false
  killTimer := false
  terminationPending := false
  owned := true
  sent := []
  terminals := 0
  initialized := false
  ended := false
  exitSeen := false
  errorSeen := false

variable (p : Process)

def isHealthy : Bool := p.state = .running

/-! ### Its timers and signals -/

def armIdleTimer : Process := { p with idleTimer := p.idles }

def touchIdle : Process := if p.state = .running then p.armIdleTimer else p

def clearIdleTimer : Process := { p with idleTimer := false }

def armKillTimer : Process := if p.killTimer then p else { p with terminationPending := true, killTimer := true }

def clearKillTimer : Process := { p with killTimer := false, terminationPending := false }

def releaseProcessOwnership : Process := { p with owned := false }

def killAcpProcessTree (signal : TerminationSignal) : Process := { p with sent := signal :: p.sent }

/-- The pending requests of the transport reject, that of the handshake among them. -/
def closeTransport : Process :=
  { p with transportClosed := true, handshake := if p.handshake = .pending then .rejected else p.handshake }

/-- The call of `onTerminal`. -/
def callOnTerminal : Process := { p with terminals := p.terminals + 1 }

/-! ### Its callbacks -/

/-- The answer to `initialize`, or its timeout. -/
def respond (ok : Bool) : Process :=
  if p.handshake = .pending then { p with handshake := if ok then .resolved else .rejected } else p

/-- `initialize` behind its `await`. -/
def initializeContinues : Process :=
  { p with handshake := .continued, state := .running, initialized := true }.armIdleTimer

def handleExit (code : Option ℤ) (signal : Option TerminationSignal) : Process :=
  let p := if !p.terminationPending || !p.tree then p.clearKillTimer.releaseProcessOwnership else p
  let p := { p with exitCode := code, signal := signal, exitSeen := true }
  if p.state.terminal then { p with ended := true }
  else
    ({ p with state := .exited, terminalError := some (.exit code signal), ended := true }.clearIdleTimer.closeTransport).callOnTerminal

def handleSpawnError : Process :=
  let p := if !p.terminationPending then p.releaseProcessOwnership else p
  let p := { p with errorSeen := true, ended := true }
  if p.state.terminal then p
  else
    ({ p with state := .quarantined, terminalError := some .spawnError }.clearIdleTimer.closeTransport).callOnTerminal

/-- The transport, which was open, has closed one of its channels. -/
def handleTransportTerminal : Process :=
  if p.transportClosed then p
  else
    let p := { p.closeTransport with ended := true }
    if p.state.terminal then p
    else
      ({ p with state := .quarantined, terminalError := some .transport }.clearIdleTimer.armKillTimer.killAcpProcessTree
        .SIGTERM).callOnTerminal

def shutdown (signal : TerminationSignal) : Process :=
  if p.state.terminal then p
  else
    let p := { p.clearIdleTimer with
      state := .quarantined
      terminalError := p.terminalError <|> some (TerminalError.shutdown signal)
      ended := true }.closeTransport
    let p := if signal ≠ .SIGKILL then p.armKillTimer else p
    (p.killAcpProcessTree signal).callOnTerminal

/-- The idle timer expires, with requests in flight or not. -/
def idleExpires (inFlight : Bool) : Process :=
  if p.idleTimer then
    let p := { p with idleTimer := false }
    if inFlight then p.armIdleTimer else p.shutdown .SIGTERM
  else p

def killExpires : Process :=
  if p.killTimer then
    { { p with killTimer := false }.killAcpProcessTree .SIGKILL with terminationPending := false }.releaseProcessOwnership
  else p

/-- What happens to a process. -/
inductive Event where
  | respond (ok : Bool)
  | proceed
  | exit (code : Option ℤ) (signal : Option TerminationSignal)
  | spawnError
  | transportTerminal
  | activity
  | idleExpires (inFlight : Bool)
  | killExpires
  | shutdown (signal : TerminationSignal)

/-- Where `start` awaits `initialize`: the process runs, or `start` kills it. -/
def proceed : Process :=
  match p.handshake with
  | .resolved => p.initializeContinues
  | .rejected => { p with handshake := .continued }.shutdown .SIGKILL
  | _ => p

def step (p : Process) : Event → Process
  | .respond ok => p.respond ok
  | .proceed => p.proceed
  | .exit code signal => p.handleExit code signal
  | .spawnError => p.handleSpawnError
  | .transportTerminal => p.handleTransportTerminal
  | .activity => p.touchIdle
  | .idleExpires inFlight => p.idleExpires inFlight
  | .killExpires => p.killExpires
  | .shutdown signal => p.shutdown signal

end Process

/-! ## The manager -/

structure Manager where
  processes : List Process
  live : List ℕ

inductive Event where
  | start (tree idles : Bool)
  | process (i : ℕ) (e : Process.Event)
  | shutdownAll (signal : TerminationSignal)

namespace Manager

variable (m : Manager)

/-- The `catch` block of `start` takes the process out of `live` also where `onTerminal` has done so. -/
def failsToStart (p : Process) : Process.Event → Bool
  | .proceed => p.handshake = .rejected
  | _ => false

def process (i : ℕ) (e : Process.Event) : Manager :=
  match m.processes[i]? with
  | none => m
  | some p =>
    { processes := m.processes.set i (p.step e)
      live := if p.terminals < (p.step e).terminals || failsToStart p e then m.live.filter (· ≠ i) else m.live }

/-- `shutdown` of every process in `live`. -/
def shutdownAll (signal : TerminationSignal) : Manager where
  processes := m.processes.mapIdx fun i p => if i ∈ m.live then p.shutdown signal else p
  live := []

def step : Event → Manager
  | .start tree idles => ⟨m.processes ++ [.new tree idles], m.live ++ [m.processes.length]⟩
  | .process i e => m.process i e
  | .shutdownAll signal => m.shutdownAll signal

end Manager

def init : Manager := ⟨[], []⟩

/-! ## The life cycle -/

/-- What holds of a process in a state. -/
structure Process.Lives (p : Process) : Prop where
  healthy : p.isHealthy = true → p.initialized = true ∧ p.ended = false
  once : p.terminals = if p.ended then 1 else 0
  /-- behind a signal that can be ignored, the kill timer runs, or a single process has exited -/
  escalates : ∀ signal, p.sent.head? = some signal → signal ≠ .SIGKILL → p.killTimer = true ∨ p.tree = false ∧ p.exitSeen = true
  released : p.owned = false → p.exitSeen = true ∨ p.errorSeen = true ∨ .SIGKILL ∈ p.sent

/-- What holds of a step of a process. -/
structure Process.Steps (p p' : Process) : Prop where
  absorbing : p.state.terminal = true → p'.state = p.state
  quiet : p.owned = false → p'.sent = p.sent
  /-- the kill timer is stopped by the exit of a single process, or it kills -/
  kills : p.killTimer = true → p'.killTimer = true ∨ p'.sent = .SIGKILL :: p.sent ∨ p'.tree = false ∧ p'.exitSeen = true

/-- **The life cycle of the processes**, in a step. -/
structure Sound (m m' : Manager) : Prop where
  steps : ∀ (i : ℕ) (p : Process), m.processes[i]? = some p → ∃ p', m'.processes[i]? = some p' ∧ p.Steps p'
  lives : ∀ (i : ℕ) (p : Process), m'.processes[i]? = some p → p.Lives
  live : ∀ i, i ∈ m'.live ↔ ∃ p, m'.processes[i]? = some p ∧ p.state.terminal = false

/-- `initialize` does not go on with a process that has ended while its continuation was waiting. -/
def Meets (m : Manager) : Event → Prop
  | .process i .proceed => ∀ p, m.processes[i]? = some p → p.handshake = .resolved → p.state.terminal = false
  | _ => True

/-! ## One process -/

namespace Process

variable {p p' : Process}

/-- What holds of a process as long as it has not been continued behind its end. -/
structure Inv (p : Process) : Prop where
  ended : p.ended = p.state.terminal
  initialized : p.state = .running → p.initialized = true
  once : p.terminals = if p.ended then 1 else 0
  /-- nothing has been sent to a process that has not ended, and nobody has given it up -/
  fresh : p.state.terminal = false → p.owned = true ∧ p.killTimer = false ∧ p.sent = []
  pending : p.terminationPending = p.killTimer
  escalates : ∀ signal, p.sent.head? = some signal → signal ≠ .SIGKILL → p.killTimer = true ∨ p.tree = false ∧ p.exitSeen = true
  released : p.owned = false → p.killTimer = false ∧ (p.exitSeen = true ∨ p.errorSeen = true ∨ .SIGKILL ∈ p.sent)

theorem inv_new (tree idles : Bool) : (new tree idles).Inv where
  ended := rfl
  initialized h := by cases h
  once := rfl
  fresh _ := ⟨rfl, rfl, rfl⟩
  pending := rfl
  escalates _ h := by cases h
  released h := by cases h

theorem Inv.lives (h : p.Inv) : p.Lives where
  healthy hh := by
    have hr : p.state = .running := by simpa [isHealthy] using hh
    exact ⟨h.initialized hr, by rw [h.ended, hr]; rfl⟩
  once := h.once
  escalates := h.escalates
  released ho := (h.released ho).2

@[simp] theorem armKillTimer_killTimer : p.armKillTimer.killTimer = true := by
  unfold armKillTimer
  split
  · rename_i hk
    exact hk
  · rfl

theorem armKillTimer_terminationPending (hk : p.killTimer = false) : p.armKillTimer.terminationPending = true := by
  simp [armKillTimer, hk]

/-- Arming the kill timer leaves the rest alone. -/
@[simp] theorem armKillTimer_rest : p.armKillTimer.state = p.state ∧ p.armKillTimer.sent = p.sent ∧
    p.armKillTimer.ended = p.ended ∧ p.armKillTimer.terminals = p.terminals ∧ p.armKillTimer.owned = p.owned := by
  unfold armKillTimer
  split <;> exact ⟨rfl, rfl, rfl, rfl, rfl⟩

/-- What a callback keeps, and when it calls `onTerminal`. -/
structure Kept (p p' : Process) : Prop extends Inv p', Steps p p' where
  called : p.terminals < p'.terminals ↔ p.state.terminal = false ∧ p'.state.terminal = true

/-- A callback that touches neither the state nor what has to do with its signals. -/
theorem Inv.same (h : p.Inv) (hs : p'.state = p.state) (hi : p'.initialized = p.initialized) (ht : p'.terminals = p.terminals)
    (he : p'.ended = p.ended) (ho : p'.owned = p.owned) (hk : p'.killTimer = p.killTimer)
    (hp : p'.terminationPending = p.terminationPending) (hsent : p'.sent = p.sent) (htree : p'.tree = p.tree)
    (hx : p'.exitSeen = p.exitSeen) (herr : p'.errorSeen = p.errorSeen) : Kept p p' where
  ended := by rw [he, hs, h.ended]
  initialized hr := by rw [hi, h.initialized (hs.symm.trans hr)]
  once := by rw [ht, he, h.once]
  fresh hn := by
    rw [ho, hk, hsent]
    exact h.fresh (by rwa [← hs])
  pending := by rw [hp, hk, h.pending]
  escalates := by rw [hsent, hk, htree, hx]; exact h.escalates
  released := by rw [ho, hk, hx, herr, hsent]; exact h.released
  absorbing _ := hs
  quiet _ := hsent
  kills hk' := .inl (hk.trans hk')
  called := by
    rw [ht, hs]
    constructor
    · intro hlt
      exact absurd hlt (Nat.lt_irrefl _)
    · rintro ⟨hn, hy⟩
      rw [hn] at hy
      cases hy

/-- A callback that ends the process. -/
theorem Inv.ends (h : p.Inv) (hn : p.state.terminal = false) (hy : p'.state.terminal = true) (he : p'.ended = true)
    (ht : p'.terminals = p.terminals + 1) (hp : p'.terminationPending = p'.killTimer)
    (hesc : ∀ signal, p'.sent.head? = some signal → signal ≠ .SIGKILL → p'.killTimer = true)
    (hrel : p'.owned = false → p'.killTimer = false ∧ (p'.exitSeen = true ∨ p'.errorSeen = true ∨ .SIGKILL ∈ p'.sent)) :
    Kept p p' where
  ended := by rw [he, hy]
  initialized hr := by
    rw [hr] at hy
    cases hy
  once := by
    have hzero : p.terminals = 0 := by rw [h.once, h.ended, hn]; rfl
    rw [ht, hzero, he]
    rfl
  fresh hn' := by
    rw [hy] at hn'
    cases hn'
  pending := hp
  escalates signal hs hne := .inl (hesc signal hs hne)
  released := hrel
  absorbing hy' := by
    rw [hn] at hy'
    cases hy'
  quiet ho := by
    rw [(h.fresh hn).1] at ho
    cases ho
  kills hk := by
    rw [(h.fresh hn).2.1] at hk
    cases hk
  called := iff_of_true (by omega) ⟨hn, hy⟩

/-- A callback of a process that has ended. -/
theorem Inv.stays (h : p.Inv) (hy : p.state.terminal = true) (hs : p'.state = p.state) (he : p'.ended = true)
    (ht : p'.terminals = p.terminals) (hp : p'.terminationPending = p'.killTimer)
    (hesc : ∀ signal, p'.sent.head? = some signal → signal ≠ .SIGKILL →
      p'.killTimer = true ∨ p'.tree = false ∧ p'.exitSeen = true)
    (hrel : p'.owned = false → p'.killTimer = false ∧ (p'.exitSeen = true ∨ p'.errorSeen = true ∨ .SIGKILL ∈ p'.sent))
    (hquiet : p.owned = false → p'.sent = p.sent)
    (hkills : p.killTimer = true →
      p'.killTimer = true ∨ p'.sent = .SIGKILL :: p.sent ∨ p'.tree = false ∧ p'.exitSeen = true) : Kept p p' where
  ended := by rw [he, hs, hy]
  initialized hr := by
    rw [← hs, hr] at hy
    cases hy
  once := by rw [ht, h.once, h.ended, hy, he]
  fresh hn := by
    rw [hs, hy] at hn
    cases hn
  pending := hp
  escalates := hesc
  released := hrel
  absorbing _ := hs
  quiet := hquiet
  kills := hkills
  called := by
    rw [ht, hs, hy]
    exact iff_of_false (Nat.lt_irrefl _) fun hc => by cases hc.1

theorem Inv.refl (h : p.Inv) : Kept p p := h.same rfl rfl rfl rfl rfl rfl rfl rfl rfl rfl rfl

theorem Inv.shutdown (h : p.Inv) (signal : TerminationSignal) : Kept p (p.shutdown signal) := by
  unfold Process.shutdown
  split
  · exact h.refl
  · rename_i hn
    have hn : p.state.terminal = false := by simpa using hn
    obtain ⟨ho, hk, hsent⟩ := h.fresh hn
    have hp : p.terminationPending = false := h.pending.trans hk
    by_cases hsig : signal = .SIGKILL
    · subst hsig
      refine h.ends hn rfl rfl rfl h.pending (fun signal hs hne => ?_) (fun hf => ?_)
      · obtain rfl := Option.some.inj hs
        exact absurd rfl hne
      · have hf' : p.owned = false := hf
        rw [ho] at hf'
        cases hf'
    · dsimp only
      rw [if_pos hsig]
      refine h.ends hn ?_ ?_ ?_ ?_ (fun _ _ _ => ?_) (fun hf => ?_)
      · simp [killAcpProcessTree, callOnTerminal, closeTransport, AcpProcessState.terminal]
      · simp [killAcpProcessTree, callOnTerminal, closeTransport]
      · simp [killAcpProcessTree, callOnTerminal, closeTransport, clearIdleTimer]
      · simp [killAcpProcessTree, callOnTerminal, closeTransport, clearIdleTimer, hk, armKillTimer_terminationPending]
      · simp [killAcpProcessTree, callOnTerminal]
      · simp [killAcpProcessTree, callOnTerminal, closeTransport, clearIdleTimer, ho] at hf

/-- `initialize` goes on with a process that has not ended. -/
theorem Inv.initializeContinues (h : p.Inv) (hn : p.state.terminal = false) : Kept p p.initializeContinues := by
  obtain ⟨ho, hk, hsent⟩ := h.fresh hn
  have hz : p.ended = false := h.ended.trans hn
  exact
    { ended := hz
      initialized := fun _ => rfl
      once := h.once
      fresh := fun _ => ⟨ho, hk, hsent⟩
      pending := h.pending
      escalates := h.escalates
      released := h.released
      absorbing := fun hy => by
        rw [hn] at hy
        cases hy
      quiet := fun _ => rfl
      kills := fun hk' => .inl hk'
      called := iff_of_false (Nat.lt_irrefl _) fun hc => by cases hc.2 }

theorem Inv.proceed (h : p.Inv) (hC : p.handshake = .resolved → p.state.terminal = false) : Kept p p.proceed := by
  unfold Process.proceed
  split
  · rename_i hr
    exact h.initializeContinues (hC hr)
  · have hc : ({ p with handshake := .continued } : Process).Inv := { h with }
    exact { hc.shutdown .SIGKILL with }
  · exact h.refl

theorem Inv.handleExit (h : p.Inv) (code : Option ℤ) (signal : Option TerminationSignal) :
    Kept p (p.handleExit code signal) := by
  unfold Process.handleExit
  by_cases hy : p.state.terminal = true
  · by_cases hrel : (!p.terminationPending || !p.tree) = true
    · simp only [hrel, if_true]
      rw [if_pos (show p.clearKillTimer.releaseProcessOwnership.state.terminal = true from hy)]
      refine h.stays hy rfl rfl rfl rfl (fun s hs hne => ?_) (fun _ => ⟨rfl, .inl rfl⟩) (fun _ => rfl) (fun hk => ?_)
      · -- the timer of a process tree is not stopped here
        rcases h.escalates s hs hne with hk | ⟨ht, -⟩
        · rw [h.pending, hk] at hrel
          have ht : p.tree = false := by simpa using hrel
          exact .inr ⟨ht, rfl⟩
        · exact .inr ⟨ht, rfl⟩
      · rw [h.pending, hk] at hrel
        have ht : p.tree = false := by simpa using hrel
        exact .inr (.inr ⟨ht, rfl⟩)
    · simp only [hrel, Bool.false_eq_true, if_false]
      rw [if_pos hy]
      refine h.stays hy rfl rfl rfl h.pending (fun s hs hne => ?_) (fun ho => ?_) (fun _ => rfl) (fun hk => .inl hk)
      · exact (h.escalates s hs hne).imp id fun ht => ⟨ht.1, rfl⟩
      · exact ⟨(h.released ho).1, .inl rfl⟩
  · have hn : p.state.terminal = false := by simpa using hy
    obtain ⟨-, hk, hsent⟩ := h.fresh hn
    have hrel : (!p.terminationPending || !p.tree) = true := by simp [h.pending, hk]
    simp only [hrel, if_true]
    rw [if_neg (show ¬p.clearKillTimer.releaseProcessOwnership.state.terminal = true from hy)]
    refine h.ends hn rfl rfl rfl rfl (fun s hs => ?_) (fun _ => ⟨rfl, .inl rfl⟩)
    have hs' : p.sent.head? = some s := hs
    rw [hsent] at hs'
    cases hs'

theorem Inv.handleSpawnError (h : p.Inv) : Kept p p.handleSpawnError := by
  unfold Process.handleSpawnError
  by_cases hpend : p.terminationPending = true
  · have hk : p.killTimer = true := h.pending.symm.trans hpend
    have hy : p.state.terminal = true := by
      by_contra hn
      rw [(h.fresh (by simpa using hn)).2.1] at hk
      cases hk
    simp only [hpend, Bool.not_true, Bool.false_eq_true, if_false]
    rw [if_pos hy]
    refine h.stays hy rfl rfl rfl ?_ h.escalates (fun ho => ?_) (fun _ => rfl) (fun hk => .inl hk)
    · exact hpend.symm.trans h.pending
    · exact ⟨(h.released ho).1, .inr (.inl rfl)⟩
  · have hk : p.killTimer = false := by
      rw [← h.pending]
      simpa using hpend
    have hpf : p.terminationPending = false := by simpa using hpend
    simp only [hpf, Bool.not_false, if_true]
    by_cases hy : p.state.terminal = true
    · rw [if_pos (show p.releaseProcessOwnership.state.terminal = true from hy)]
      exact h.stays hy rfl rfl rfl h.pending h.escalates (fun _ => ⟨hk, .inr (.inl rfl)⟩) (fun _ => rfl)
        (fun hk => .inl hk)
    · have hn : p.state.terminal = false := by simpa using hy
      rw [if_neg (show ¬p.releaseProcessOwnership.state.terminal = true from hy)]
      refine h.ends hn rfl rfl rfl h.pending (fun s hs => ?_) (fun _ => ⟨hk, .inr (.inl rfl)⟩)
      have hs' : p.sent.head? = some s := hs
      rw [(h.fresh hn).2.2] at hs'
      cases hs'

theorem Inv.handleTransportTerminal (h : p.Inv) : Kept p p.handleTransportTerminal := by
  unfold Process.handleTransportTerminal
  split
  · exact h.refl
  · by_cases hy : p.state.terminal = true
    · rw [if_pos (show p.closeTransport.state.terminal = true from hy)]
      exact h.stays hy rfl rfl rfl h.pending h.escalates h.released (fun _ => rfl) (fun hk => .inl hk)
    · have hn : p.state.terminal = false := by simpa using hy
      obtain ⟨ho, hk, -⟩ := h.fresh hn
      rw [if_neg (show ¬p.closeTransport.state.terminal = true from hy)]
      refine h.ends hn ?_ ?_ ?_ ?_ (fun _ _ _ => ?_) (fun hf => ?_)
      · simp [killAcpProcessTree, callOnTerminal, clearIdleTimer, AcpProcessState.terminal]
      · simp [killAcpProcessTree, callOnTerminal, clearIdleTimer]
      · simp [killAcpProcessTree, callOnTerminal, closeTransport, clearIdleTimer]
      · simp [killAcpProcessTree, callOnTerminal, closeTransport, clearIdleTimer, hk, armKillTimer_terminationPending]
      · simp [killAcpProcessTree, callOnTerminal]
      · simp [killAcpProcessTree, callOnTerminal, closeTransport, clearIdleTimer, ho] at hf

theorem Inv.killExpires (h : p.Inv) : Kept p p.killExpires := by
  unfold Process.killExpires
  split
  · rename_i hk
    have hy : p.state.terminal = true := by
      by_contra hn
      rw [(h.fresh (by simpa using hn)).2.1] at hk
      cases hk
    refine h.stays hy rfl (h.ended.trans hy) rfl rfl (fun s hs hne => ?_)
      (fun _ => ⟨rfl, .inr (.inr List.mem_cons_self)⟩) (fun ho => ?_) (fun _ => .inr (.inl rfl))
    · obtain rfl := Option.some.inj hs
      exact absurd rfl hne
    · rw [(h.released ho).1] at hk
      cases hk
  · exact h.refl

theorem Inv.idleExpires (h : p.Inv) (inFlight : Bool) : Kept p (p.idleExpires inFlight) := by
  unfold Process.idleExpires
  split
  · cases inFlight with
    | true => exact h.same rfl rfl rfl rfl rfl rfl rfl rfl rfl rfl rfl
    | false =>
      have hc : ({ p with idleTimer := false } : Process).Inv := { h with }
      exact { hc.shutdown .SIGTERM with }
  · exact h.refl

/-- The condition of a callback, of one process. -/
def Meets (p : Process) (e : Event) : Prop := e = .proceed → p.handshake = .resolved → p.state.terminal = false

theorem Inv.step (h : p.Inv) {e : Event} (hC : p.Meets e) : Kept p (p.step e) := by
  cases e with
  | respond ok =>
    simp only [Process.step, Process.respond]
    split
    · exact h.same rfl rfl rfl rfl rfl rfl rfl rfl rfl rfl rfl
    · exact h.refl
  | proceed => exact h.proceed (hC rfl)
  | exit code signal => exact h.handleExit code signal
  | spawnError => exact h.handleSpawnError
  | transportTerminal => exact h.handleTransportTerminal
  | activity =>
    simp only [Process.step, Process.touchIdle]
    split
    · exact h.same rfl rfl rfl rfl rfl rfl rfl rfl rfl rfl rfl
    · exact h.refl
  | idleExpires inFlight => exact h.idleExpires inFlight
  | killExpires => exact h.killExpires
  | shutdown signal => exact h.shutdown signal

end Process

/-! ## All processes -/

variable {m : Manager} {p p' : Process} {i : ℕ}

structure Inv (m : Manager) : Prop where
  each : ∀ (i : ℕ) (p : Process), m.processes[i]? = some p → p.Inv
  live : ∀ i, i ∈ m.live ↔ ∃ p, m.processes[i]? = some p ∧ p.state.terminal = false

theorem inv_init : Inv init where
  each i p hp := by cases hp
  live i := by
    constructor
    · intro hi
      cases hi
    · rintro ⟨p, hp, -⟩
      cases hp

/-- A process whose start fails is not left running. -/
theorem terminal_of_failsToStart {e : Process.Event} (hf : Manager.failsToStart p e = true) :
    (p.step e).state.terminal = true := by
  cases e with
  | proceed =>
    have hr : p.handshake = .rejected := by simpa [Manager.failsToStart] using hf
    simp only [Process.step, Process.proceed, hr, Process.shutdown]
    split
    · rename_i hy
      exact hy
    · rfl
  | respond | exit | spawnError | transportTerminal | activity | idleExpires | killExpires | shutdown => cases hf

theorem terminal_of_called (h : p.Kept p') (hc : ¬p.terminals < p'.terminals) :
    p'.state.terminal = p.state.terminal := by
  cases hy : p.state.terminal with
  | true => rw [h.absorbing hy, hy]
  | false =>
    rw [h.called, not_and, Bool.not_eq_true] at hc
    exact hc hy

theorem Process.Kept.steps (h : p.Kept p') : p.Steps p' := h.toSteps

/-- What all processes keep, the manager keeps. -/
theorem Inv.process {e : Process.Event} (h : Inv m) (hp : m.processes[i]? = some p) (hk : p.Kept (p.step e)) :
    Inv (m.process i e) ∧
      ∀ (j : ℕ) (q : Process), m.processes[j]? = some q → ∃ q', (m.process i e).processes[j]? = some q' ∧ q.Steps q' := by
  have hlt := (List.getElem?_eq_some_iff.1 hp).1
  have hproc : m.process i e = ⟨m.processes.set i (p.step e),
      if p.terminals < (p.step e).terminals || Manager.failsToStart p e then m.live.filter (· ≠ i) else m.live⟩ := by
    simp [Manager.process, hp]
  rw [hproc]
  -- a process of the new list is the one that was called, or an old one
  have hnew : ∀ (j : ℕ) (q : Process), (m.processes.set i (p.step e))[j]? = some q →
      j = i ∧ q = p.step e ∨ j ≠ i ∧ m.processes[j]? = some q := by
    intro j q hj
    by_cases hne : j = i
    · subst hne
      rw [List.getElem?_set_self hlt] at hj
      exact .inl ⟨rfl, (Option.some.inj hj).symm⟩
    · rw [List.getElem?_set_ne (Ne.symm hne)] at hj
      exact .inr ⟨hne, hj⟩
  have hother : ∀ j, j ≠ i → ((∃ q, (m.processes.set i (p.step e))[j]? = some q ∧ q.state.terminal = false) ↔
      ∃ q, m.processes[j]? = some q ∧ q.state.terminal = false) := by
    intro j hne
    rw [List.getElem?_set_ne (Ne.symm hne)]
  have hself : (∃ q, (m.processes.set i (p.step e))[i]? = some q ∧ q.state.terminal = false) ↔
      (p.step e).state.terminal = false := by
    rw [List.getElem?_set_self hlt]
    simp
  have hold : (∃ q, m.processes[i]? = some q ∧ q.state.terminal = false) ↔ p.state.terminal = false := by
    rw [hp]
    simp
  refine ⟨⟨fun j q hj => ?_, fun j => ?_⟩, fun j q hj => ?_⟩
  · rcases hnew j q hj with ⟨-, rfl⟩ | ⟨-, hq⟩
    · exact hk.toInv
    · exact h.each j q hq
  · by_cases hcalled : (p.terminals < (p.step e).terminals || Manager.failsToStart p e) = true
    · have hy : (p.step e).state.terminal = true := by
        rcases Bool.or_eq_true_iff.1 hcalled with hc | hf
        · exact (hk.called.1 (of_decide_eq_true hc)).2
        · exact terminal_of_failsToStart hf
      rw [if_pos hcalled]
      by_cases hne : j = i
      · subst hne
        rw [hself, hy]
        simp
      · rw [hother j hne, ← h.live j]
        simp [hne]
    · rw [if_neg hcalled]
      rw [Bool.or_eq_true, not_or, decide_eq_true_eq] at hcalled
      by_cases hne : j = i
      · subst hne
        rw [hself, terminal_of_called hk hcalled.1, h.live, hold]
      · rw [hother j hne, h.live]
  · by_cases hne : j = i
    · subst hne
      obtain rfl := Option.some.inj (hp.symm.trans hj)
      exact ⟨p.step e, List.getElem?_set_self hlt, hk.toSteps⟩
    · exact ⟨q, (List.getElem?_set_ne (Ne.symm hne)).trans hj, (h.each j q hj).refl.toSteps⟩

theorem Inv.shutdownAll (h : Inv m) (signal : TerminationSignal) : Inv (m.shutdownAll signal) ∧
    ∀ (j : ℕ) (q : Process), m.processes[j]? = some q →
      ∃ q', (m.shutdownAll signal).processes[j]? = some q' ∧ q.Steps q' := by
  have hget : ∀ (j : ℕ) (q : Process), m.processes[j]? = some q →
      (m.shutdownAll signal).processes[j]? = some (if j ∈ m.live then q.shutdown signal else q) := by
    intro j q hj
    simp [Manager.shutdownAll, hj]
  have hkept : ∀ (j : ℕ) (q : Process), m.processes[j]? = some q →
      q.Kept (if j ∈ m.live then q.shutdown signal else q) ∧
        (if j ∈ m.live then q.shutdown signal else q).state.terminal = true := by
    intro j q hj
    by_cases hl : j ∈ m.live
    · rw [if_pos hl]
      refine ⟨(h.each j q hj).shutdown signal, ?_⟩
      unfold Process.shutdown
      split
      · rename_i hy
        exact hy
      · dsimp only
        split <;> simp [Process.killAcpProcessTree, Process.callOnTerminal, Process.closeTransport, AcpProcessState.terminal]
    · rw [if_neg hl]
      refine ⟨(h.each j q hj).refl, ?_⟩
      by_contra hn
      exact hl ((h.live j).2 ⟨q, hj, by simpa using hn⟩)
  have hall : ∀ (j : ℕ) (q : Process), (m.shutdownAll signal).processes[j]? = some q → q.Inv ∧ q.state.terminal = true := by
    intro j q hj
    cases hq : m.processes[j]? with
    | none => simp [Manager.shutdownAll, hq] at hj
    | some a =>
      rw [hget j a hq] at hj
      obtain rfl := Option.some.inj hj
      exact ⟨(hkept j a hq).1.toInv, (hkept j a hq).2⟩
  refine ⟨⟨fun j q hj => (hall j q hj).1, fun j => ?_⟩, fun j q hj => ⟨_, hget j q hj, (hkept j q hj).1.toSteps⟩⟩
  constructor
  · intro hj
    cases hj
  · rintro ⟨q, hq, hn⟩
    rw [(hall j q hq).2] at hn
    cases hn

theorem Inv.start (h : Inv m) (tree idles : Bool) : Inv (m.step (.start tree idles)) ∧
    ∀ (j : ℕ) (q : Process), m.processes[j]? = some q →
      ∃ q', (m.step (.start tree idles)).processes[j]? = some q' ∧ q.Steps q' := by
  have hold : ∀ (j : ℕ) (q : Process), m.processes[j]? = some q →
      (m.processes ++ [Process.new tree idles])[j]? = some q := by
    intro j q hj
    rw [List.getElem?_append_left (List.getElem?_eq_some_iff.1 hj).1, hj]
  have hnew : ∀ (j : ℕ) (q : Process), (m.processes ++ [Process.new tree idles])[j]? = some q →
      m.processes[j]? = some q ∨ j = m.processes.length ∧ q = .new tree idles := by
    intro j q hj
    rcases Nat.lt_or_ge j m.processes.length with hlt | hge
    · rw [List.getElem?_append_left hlt] at hj
      exact .inl hj
    · rw [List.getElem?_append_right hge, List.getElem?_singleton] at hj
      split at hj
      · rename_i hz
        exact .inr ⟨by omega, (Option.some.inj hj).symm⟩
      · cases hj
  refine ⟨⟨fun j q hj => ?_, fun j => ?_⟩, fun j q hj => ⟨q, hold j q hj, (h.each j q hj).refl.toSteps⟩⟩
  · rcases hnew j q hj with hq | ⟨-, rfl⟩
    · exact h.each j q hq
    · exact Process.inv_new tree idles
  · have hlast : (m.processes ++ [Process.new tree idles])[m.processes.length]? = some (.new tree idles) := by simp
    constructor
    · intro hj
      rcases List.mem_append.1 hj with hj | hj
      · obtain ⟨q, hq, hn⟩ := (h.live j).1 hj
        exact ⟨q, hold j q hq, hn⟩
      · obtain rfl := List.mem_singleton.1 hj
        exact ⟨_, hlast, rfl⟩
    · rintro ⟨q, hq, hn⟩
      rcases hnew j q hq with hq | ⟨rfl, -⟩
      · exact List.mem_append_left _ ((h.live j).2 ⟨q, hq, hn⟩)
      · exact List.mem_append_right _ (List.mem_singleton.2 rfl)

theorem Inv.step (h : Inv m) {e : Event} (hC : Meets m e) : Inv (m.step e) ∧
    ∀ (j : ℕ) (q : Process), m.processes[j]? = some q → ∃ q', (m.step e).processes[j]? = some q' ∧ q.Steps q' := by
  cases e with
  | start tree idles => exact h.start tree idles
  | shutdownAll signal => exact h.shutdownAll signal
  | process i e =>
    cases hp : m.processes[i]? with
    | none =>
      have hsame : m.step (.process i e) = m := by simp [Manager.step, Manager.process, hp]
      rw [hsame]
      exact ⟨h, fun j q hj => ⟨q, hj, (h.each j q hj).refl.toSteps⟩⟩
    | some p =>
      refine h.process hp ((h.each i p hp).step ?_)
      rintro rfl hr
      exact hC p hp hr

theorem sound_iff (h : Inv m) (e : Event) : Sound m (m.step e) ↔ Meets m e := by
  constructor
  · intro hs
    cases e with
    | start => trivial
    | shutdownAll => trivial
    | process i e =>
      cases e with
      | proceed =>
        intro p hp hr
        by_contra hy
        have hy : p.state.terminal = true := by simpa using hy
        obtain ⟨p', hp', hsteps⟩ := hs.steps i p hp
        have hget : (m.step (.process i .proceed)).processes[i]? = some p.initializeContinues := by
          have hcont : p.step .proceed = p.initializeContinues := by simp [Process.step, Process.proceed, hr]
          simp only [Manager.step, Manager.process, hp, hcont]
          exact List.getElem?_set_self (List.getElem?_eq_some_iff.1 hp).1
        obtain rfl := Option.some.inj (hget.symm.trans hp')
        rw [← hsteps.absorbing hy] at hy
        cases hy
      | respond => trivial
      | exit => trivial
      | spawnError => trivial
      | transportTerminal => trivial
      | activity => trivial
      | idleExpires => trivial
      | killExpires => trivial
      | shutdown => trivial
  · intro hC
    obtain ⟨hinv, hsteps⟩ := h.step hC
    exact ⟨hsteps, fun i p hp => (hinv.each i p hp).lives, hinv.live⟩

/-- **The processes keep to their life cycle** in the runs in which no `initialize` goes on behind the end of its process, and in
no others. -/
theorem lifeCycle_along_iff (es : List Event) :
    Run.Along (fun m e => (Manager.step m e, ())) (fun m e => Sound m (m.step e)) init es ↔
      Run.Along (fun m e => (Manager.step m e, ())) Meets init es :=
  @Run.along_iff_of_invariant _ _ _ _ Inv _ _ (fun _ _ hC h => (h.step hC).1) (fun _ e h => sound_iff h e) _ inv_init es

/-- The provider answers `initialize` and closes its input; the manager writes to it before the handshake has gone on. -/
def deafProvider : List Event :=
  [.start true true, .process 0 (.respond true), .process 0 .transportTerminal, .process 0 .proceed]

/-- A process that was quarantined runs again, and is not live. -/
theorem not_lifeCycle_along :
    ¬Run.Along (fun m e => (Manager.step m e, ())) (fun m e => Sound m (m.step e)) init deafProvider := by
  rintro ⟨-, -, -, hlast, -⟩
  obtain ⟨p', hp', hsteps⟩ := hlast.steps 0 _ rfl
  obtain rfl := Option.some.inj hp'
  cases hsteps.absorbing rfl

end LlmGateway.Acp.Processes
