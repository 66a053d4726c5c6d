import LlmGateway.Lib.Run
import LlmGateway.Lib.JsMap

/-!
# The job limiter

`JobLimiter` (async-job-manager.ts) as a machine that takes one step for each entry into its code.

* `State` — the fields of the class, with the released flag of each permit's closure and the call stack: which
  `pump` loops are suspended, each inside the `onGrant` callback it called or inside the `permit.release()` of its
  catch block;
* `tick` — one scan of the topmost `pump`: grant the first runnable entry and call it back, or return;
* `step` — the events: calls of `acquire`, `release` and `cancel`, from the top level or from inside a callback,
  the queue timer, a callback returning or throwing, and the ticks of a running `pump`.

A queue entry is known by the number of entries queued before it, a permit by the number of permits granted before it.
-/

namespace LlmGateway.Limiter

open LlmGateway.Lib

/-- The limits of the configuration that the limiter enforces. -/
structure Config where
  maxRunningJobs : ℕ
  maxRunningJobsPerProvider : ℕ
  maxQueuedJobs : ℕ
  one_le_running : 1 ≤ maxRunningJobs
  one_le_perProvider : 1 ≤ maxRunningJobsPerProvider

/-- A waiting caller. -/
structure LimiterQueueEntry where
  id : ℕ
  provider : String
  deriving DecidableEq

/-- A permit: the provider it was granted for, and the `released` flag of its closure. -/
structure LimiterPermit where
  provider : String
  released : Bool
  deriving DecidableEq

/-- Where a suspended `pump` loop is. -/
inductive Frame where
  /-- inside `entry.onGrant(permit)` -/
  | onGrant (permit : ℕ)
  /-- inside the `permit.release()` of the catch block -/
  | catchRelease
  deriving DecidableEq

structure State where
  runningGlobal : ℤ
  runningByProvider : JsMap String ℤ
  queue : List LimiterQueueEntry
  queuedByProvider : JsMap String ℤ
  rejectedCount : ℕ
  timedOutCount : ℕ
  permits : List LimiterPermit
  nextEntry : ℕ
  /-- A `pump` loop is running on top of the stack; otherwise the code of a caller is. -/
  pumping : Bool
  stack : List Frame

/-- What a step lets the outside see. -/
inductive Outcome where
  | granted (permit : ℕ)
  | queued (entry : LimiterQueueEntry)
  | rejected
  /-- `entry.onGrant(permit)` is called -/
  | fired (entry : LimiterQueueEntry) (permit : ℕ)
  /-- `onTimeout()` is called -/
  | timedOut (entry : LimiterQueueEntry)
  /-- `cancel()` returns true -/
  | cancelled (entry : LimiterQueueEntry)
  /-- `cancel()` returns false -/
  | notCancelled
  | silent
  deriving DecidableEq

def init : State where
  runningGlobal := 0
  runningByProvider := Table.empty
  queue := []
  queuedByProvider := Table.empty
  rejectedCount := 0
  timedOutCount := 0
  permits := []
  nextEntry := 0
  pumping := false
  stack := []

variable (cfg : Config)

/-! ## The methods -/

def canRunNow (s : State) (provider : String) : Bool :=
  !(decide (s.runningGlobal ≥ cfg.maxRunningJobs)) &&
    !(decide ((s.runningByProvider.get provider).getD 0 ≥ cfg.maxRunningJobsPerProvider))

def grant (s : State) (provider : String) : State :=
  { s with
    runningGlobal := s.runningGlobal + 1
    runningByProvider := s.runningByProvider.increment provider
    permits := s.permits ++ [⟨provider, false⟩] }

/-- `release` of a permit that was not released before, up to its call of `pump`. -/
def freeSlot (s : State) (k : ℕ) (provider : String) : State :=
  { s with
    runningGlobal := max 0 (s.runningGlobal - 1)
    runningByProvider := s.runningByProvider.decrement provider
    permits := s.permits.set k ⟨provider, true⟩
    pumping := true }

/-- `permit.release()`: nothing the second time. -/
def release (s : State) (k : ℕ) : State :=
  match s.permits[k]? with
  | some p => if p.released then s else freeSlot s k p.provider
  | none => s

/-- `removeEntry`, of an entry that is in the queue. -/
def removeEntry (s : State) (entry : LimiterQueueEntry) : State :=
  { s with
    queue := s.queue.erase entry
    queuedByProvider := s.queuedByProvider.decrement entry.provider }

def enqueue (s : State) (provider : String) : State :=
  { s with
    queue := s.queue ++ [⟨s.nextEntry, provider⟩]
    queuedByProvider := s.queuedByProvider.increment provider
    nextEntry := s.nextEntry + 1 }

def acquire (s : State) (provider : String) : State × Outcome :=
  if canRunNow cfg s provider then (grant s provider, .granted s.permits.length)
  else if s.queue.length ≥ cfg.maxQueuedJobs then
    ({ s with rejectedCount := s.rejectedCount + 1 }, .rejected)
  else (enqueue s provider, .queued ⟨s.nextEntry, provider⟩)

/-- The entry with a given number, while it is in the queue. -/
def queuedEntry (s : State) (id : ℕ) : Option LimiterQueueEntry := s.queue.find? fun e => e.id == id

def cancel (s : State) (id : ℕ) : State × Outcome :=
  match queuedEntry s id with
  | some entry => (removeEntry s entry, .cancelled entry)
  | none => (s, .notCancelled)

/-- The queue timer of an entry.  A timer whose entry has left the queue was cleared. -/
def timeout (s : State) (id : ℕ) : State × Outcome :=
  match queuedEntry s id with
  | some entry => ({ removeEntry s entry with timedOutCount := s.timedOutCount + 1 }, .timedOut entry)
  | none => (s, .silent)

/-! ## The pump -/

/-- A scan that finds nothing: `pump` returns to whoever called `release`, the catch block of an outer `pump`, which
then goes on scanning, or a caller. -/
def pumpReturn (s : State) : State :=
  match s.stack with
  | .catchRelease :: rest => { s with stack := rest }
  | _ => { s with pumping := false }

/-- The scan stops at `entry`: it leaves the queue, gets a permit, and its callback starts. -/
def pumpGrant (s : State) (entry : LimiterQueueEntry) : State :=
  { grant (removeEntry s entry) entry.provider with
    pumping := false
    stack := .onGrant s.permits.length :: s.stack }

/-- One scan of the topmost `pump`. -/
def tick (s : State) : State × Outcome :=
  match s.queue.find? fun e => canRunNow cfg s e.provider with
  | some entry => (pumpGrant s entry, .fired entry s.permits.length)
  | none => (pumpReturn s, .silent)

/-- The callback of the topmost `pump` returns, and the loop scans again. -/
def callbackReturn (s : State) : State :=
  match s.stack with
  | .onGrant _ :: rest => { s with pumping := true, stack := rest }
  | _ => s

/-- The callback of the topmost `pump` throws, and its catch block releases the permit. -/
def callbackThrow (s : State) : State :=
  match s.stack with
  | .onGrant k :: rest =>
    let s := { s with pumping := true, stack := rest }
    match s.permits[k]? with
    | some p => if p.released then s else { freeSlot s k p.provider with stack := .catchRelease :: rest }
    | none => s
  | _ => s

/-! ## The machine -/

inductive Event where
  | acquire (provider : String)
  | release (permit : ℕ)
  | cancel (entry : ℕ)
  | timeout (entry : ℕ)
  | callbackReturn
  | callbackThrow
  | tick
  deriving DecidableEq

/-- Timers fire between two tasks, when nothing is on the stack; callers act when no `pump` is running. -/
def enabled (s : State) : Event → Bool
  | .tick => s.pumping
  | .timeout _ => !s.pumping && s.stack.isEmpty
  | _ => !s.pumping

def perform (s : State) : Event → State × Outcome
  | .acquire provider => acquire cfg s provider
  | .release permit => (release s permit, .silent)
  | .cancel entry => cancel s entry
  | .timeout entry => timeout s entry
  | .callbackReturn => (callbackReturn s, .silent)
  | .callbackThrow => (callbackThrow s, .silent)
  | .tick => tick cfg s

/-- One step; an event that cannot happen here leaves the state as it is. -/
def step (s : State) (e : Event) : State × Outcome :=
  if enabled s e then perform cfg s e else (s, .silent)

/-- The state after a run from a new limiter. -/
def reached (es : List Event) : State := Run.final (step cfg) init es

/-- What a run from a new limiter lets the outside see. -/
def trace (es : List Event) : List Outcome := Run.outputs (step cfg) init es

/-- Between two top-level calls. -/
def Idle (s : State) : Prop := s.pumping = false ∧ s.stack = []

end LlmGateway.Limiter
