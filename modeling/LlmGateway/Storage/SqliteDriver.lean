import LlmGateway.Storage.SqliteEngine
import Mathlib.Logic.Function.Basic

/-!
# The SQLite driver

`storage/drivers/sqlite.ts`: the drivers of one process on one database file.  Writers wait for each other, in the queue of
their driver and in the queue of the file; `close` waits for the queue of its driver, for a bounded time, and shuts the handles.

* `Job` — a call of `transaction`, `bootstrap` or `readSnapshot` that was accepted, with what its body has written;
* `step` — what happens next in the process; `ω` are the writes that statements make.

The clock is `Date.now()`.  What the engine makes of a statement is an input, for a lock that another connection holds in
particular.
-/

namespace LlmGateway.Storage.Sqlite

variable {ω : Type*}

inductive StorageOperationClass where
  | write
  | transcript_read
  | analytics_read
  | retention
deriving DecidableEq

/-- `READ_ONLY_OPERATION_CLASSES`. -/
def StorageOperationClass.readOnly : StorageOperationClass → Bool
  | .transcript_read => true
  | .analytics_read => true
  | _ => false

/-- The options of a driver; 0 disables a bound. -/
structure Config where
  drainTimeoutMs : ℕ
  transactionDeadlineMs : ℕ
  readSnapshotDeadlineMs : ℕ

inductive Kind where
  | transaction
  | bootstrap
  | readSnapshot
deriving DecidableEq

/-- Which error a call rejects with. -/
inductive Failure where
  /-- the drain bound elapsed, or the driver is closed -/
  | abandoned
  /-- BEGIN failed -/
  | begin
  /-- `StorageTransactionDeadlineError` -/
  | deadline
  /-- an error with `duplicate column name` in its message -/
  | duplicateColumn
  /-- an error of the body -/
  | body
  /-- COMMIT failed -/
  | commit
deriving DecidableEq

inductive Result where
  | resolved
  | rejected (error : Failure)
deriving DecidableEq

inductive Phase where
  /-- `started` waits for its predecessors; a read snapshot, for its PRAGMA -/
  | waiting
  | body
  | rollingBack (error : Failure)
  | settled (result : Result)
deriving DecidableEq

/-- A call that was accepted. -/
structure Job (ω : Type*) where
  driver : ℕ
  kind : Kind
  /-- the calls that `started` waits for -/
  after : List ℕ
  /-- `close()` had been called before it -/
  late : Bool
  phase : Phase
  expiresAt : Option ℕ
  /-- how often `bootstrap` has run its body again -/
  attempt : ℕ
  /-- what the body has written, by the answers it got -/
  writes : Writes (ℕ × ω)
  /-- a COMMIT on its connection has succeeded -/
  committed : Bool

/-- A `SqliteStorageDriver`. -/
structure Driver (ω : Type*) where
  closing : Bool
  closed : Bool
  drainDeadline : Option ℕ
  /-- the last call of `queue` -/
  queue : Option ℕ
  /-- `close()` waits for this call, or for its timer -/
  draining : Option (Option ℕ)
  /-- the transaction in progress on each handle -/
  writable : Option (OpenTx ω)
  readable : Option (OpenTx ω)

/-- The process. -/
structure State (ω : Type*) where
  clock : ℕ
  next : ℕ
  job : ℕ → Option (Job ω)
  driver : ℕ → Driver ω
  /-- the tail of the file in `writeQueues` -/
  writeQueue : Option ℕ
  durable : List (ℕ × ω)

inductive Event (ω : Type*) where
  | tick (ms : ℕ)
  /-- `nested` is `inTransactionOn(this)` -/
  | transaction (d : ℕ) (operation : StorageOperationClass) (nested : Bool)
  | bootstrap (d : ℕ) (nested : Bool)
  | readSnapshot (d : ℕ) (operation : StorageOperationClass) (nested : Bool)
  | start (j : ℕ) (o : Outcome)
  /-- the body calls its connection, with a script of statements -/
  | issue (j : ℕ) (call : List (Statement ω × Outcome))
  | returns (j : ℕ) (o : Outcome)
  | throws (j : ℕ) (error : Failure)
  | rollback (j : ℕ) (o : Outcome)
  /-- the settled tail of the file leaves `writeQueues` -/
  | forget
  | close (d : ℕ)
  /-- the wait of `close()` ends, by the queue or by the timer -/
  | drained (d : ℕ) (timer : Bool)

/-- Why a call is refused when it is made. -/
inductive Refusal where
  | readClass
  | writeClass
  | nested
  | closing
deriving DecidableEq

namespace Job

variable (x : Job ω)

/-- The call goes through the write queue. -/
def queued : Bool := x.kind ≠ .readSnapshot

def settled : Bool :=
  match x.phase with
  | .settled _ => true
  | _ => false

def note (j : ℕ) (s : Statement ω) (answer : Bool) : Job ω :=
  { x with
    writes := x.writes.note j s answer
    committed := x.committed || (answer && match s with | .COMMIT => true | _ => false) }

/-- A read-only connection refuses to write. -/
def outcome (o : Outcome) (st : Statement ω) : Outcome :=
  match x.kind, st with
  | .readSnapshot, .write _ => .fails
  | _, _ => o

/-- Its deadline has passed. -/
def expired (clock : ℕ) : Bool :=
  match x.expiresAt with
  | none => false
  | some t => t ≤ clock

end Job

namespace State

/-- A process with its drivers open; `durable` is what it makes durable from now on. -/
def init : State ω where
  clock := 0
  next := 0
  job := fun _ => none
  driver := fun _ => ⟨false, false, none, none, none, none, none⟩
  writeQueue := none
  durable := []

variable (s : State ω)

def setJob (j : ℕ) (x : Job ω) : State ω := { s with job := Function.update s.job j (some x) }

def setDriver (d : ℕ) (x : Driver ω) : State ω := { s with driver := Function.update s.driver d x }

def settledAt (j : ℕ) : Bool :=
  match s.job j with
  | some x => x.settled
  | none => false

/-- A call that is accepted now. -/
def newJob (d : ℕ) (kind : Kind) (after : List ℕ) (expiresAt : Option ℕ) : Job ω where
  driver := d
  kind := kind
  after := after
  late := (s.driver d).closing
  phase := .waiting
  expiresAt := expiresAt
  attempt := 0
  writes := .empty
  committed := false

/-- It waits for the queue of its driver and for the queue of the file, and becomes the tail of both. -/
def enqueueWrite (d : ℕ) (kind : Kind) : State ω :=
  { (s.setJob s.next (s.newJob d kind ((s.driver d).queue.toList ++ s.writeQueue.toList) none)).setDriver d
      { s.driver d with queue := some s.next } with
    next := s.next + 1
    writeQueue := some s.next }

/-- The deadline of a call, from now on. -/
def deadline (ms : ℕ) : Option ℕ := if ms = 0 then none else some (s.clock + ms)

/-! ### Statements -/

/-- The file as the handle of a call sees it. -/
def db (x : Job ω) : Db ω where
  tx := if x.kind = .readSnapshot then (s.driver x.driver).readable else (s.driver x.driver).writable
  durable := s.durable

/-- A statement of the call `j` on its handle, and the answer. -/
def exec (j : ℕ) (x : Job ω) (o : Outcome) (st : Statement ω) : State ω × Bool :=
  if (s.driver x.driver).closed then (s, false)
  else
    let r := (s.db x).exec j (x.outcome o st) st
    let d := s.driver x.driver
    if x.kind = .readSnapshot then
      ((s.setDriver x.driver { d with readable := r.1.tx }).setJob j (x.note j st r.2), r.2)
    else
      ({ (s.setDriver x.driver { d with writable := r.1.tx }).setJob j (x.note j st r.2) with durable := r.1.durable }, r.2)

/-- A script stops at the statement that fails. -/
def script (j : ℕ) : State ω → List (Statement ω × Outcome) → State ω
  | s, [] => s
  | s, (st, o) :: rest =>
    match s.job j with
    | none => s
    | some x => if (s.exec j x o st).2 then script j (s.exec j x o st).1 rest else (s.exec j x o st).1

def setPhase (j : ℕ) (p : Phase) : State ω :=
  match s.job j with
  | none => s
  | some x => s.setJob j { x with phase := p }

/-! ### The parts of a call -/

variable (cfg : ℕ → Config)

/-- The body may begin after a BEGIN that succeeds. -/
def begin (j : ℕ) (x : Job ω) (o : Outcome) : State ω :=
  let r := s.exec j x o .BEGIN
  if r.2 then r.1.setPhase j .body else r.1.setPhase j (.settled (.rejected .begin))

/-- What a call waits for has settled. -/
def ready (x : Job ω) : Bool := x.after.all s.settledAt

/-- `run`, up to its body. -/
def start (j : ℕ) (x : Job ω) (o : Outcome) : State ω :=
  let d := s.driver x.driver
  match x.kind with
  | .transaction =>
    if d.closed || d.drainDeadline.any (· ≤ s.clock) then s.setPhase j (.settled (.rejected .abandoned))
    else
      -- the deadline is armed at the front of the queue
      let x := { x with expiresAt := s.deadline (cfg x.driver).transactionDeadlineMs }
      (s.setJob j x).begin j x o
  | .bootstrap => s.setPhase j (if d.closed then .settled (.rejected .abandoned) else .body)
  | .readSnapshot => s.begin j x o

/-- The deadline refuses what is not transaction control. -/
def refuses (x : Job ω) (call : List (Statement ω × Outcome)) : Bool :=
  x.expired s.clock && !call.head?.any (·.1.control)

/-- The body calls its connection. -/
def issue (j : ℕ) (x : Job ω) (call : List (Statement ω × Outcome)) : State ω :=
  if s.refuses x call then s else s.script j call

/-- The body has returned. -/
def returns (j : ℕ) (x : Job ω) (o : Outcome) : State ω :=
  if x.kind = .bootstrap then s.setPhase j (.settled .resolved)
  else if x.expired s.clock then s.setPhase j (.rollingBack .deadline)
  else
    let r := s.exec j x o .COMMIT
    r.1.setPhase j (if r.2 then .settled .resolved else .rollingBack .commit)

/-- The body has thrown. -/
def throws (j : ℕ) (x : Job ω) (error : Failure) : State ω :=
  if x.kind = .bootstrap then
    if error ≠ .duplicateColumn ∨ 63 ≤ x.attempt then s.setPhase j (.settled (.rejected error))
    -- `connectionFor` of the next attempt
    else if (s.driver x.driver).closed then s.setPhase j (.settled (.rejected .abandoned))
    else s.setJob j { x with attempt := x.attempt + 1 }
  else s.setPhase j (.rollingBack error)

/-- The ROLLBACK of the `catch` block: its own failure is dropped. -/
def rollback (j : ℕ) (x : Job ω) (error : Failure) (o : Outcome) : State ω :=
  (s.exec j x o .ROLLBACK).1.setPhase j (.settled (.rejected error))

/-! ### Closing -/

/-- The handles are shut; SQLite rolls back what was in progress on them. -/
def shut (d : ℕ) : State ω :=
  s.setDriver d { s.driver d with closed := true, draining := none, writable := none, readable := none }

def close (d : ℕ) : State ω :=
  let x := s.driver d
  if x.closing then s
  else if (cfg d).drainTimeoutMs = 0 then (s.setDriver d { x with closing := true }).shut d
  else s.setDriver d { x with closing := true, drainDeadline := some (s.clock + (cfg d).drainTimeoutMs), draining := some x.queue }

def drained (d : ℕ) (timer : Bool) : State ω :=
  match (s.driver d).draining with
  | none => s
  | some q => if timer || q.all s.settledAt then s.shut d else s

end State

open State

/-- What happens next, and the refusal of a call that is made. -/
def step (cfg : ℕ → Config) (s : State ω) : Event ω → State ω × Option Refusal
  | .tick ms => ({ s with clock := s.clock + ms }, none)
  | .transaction d operation nested =>
    if operation.readOnly then (s, some .readClass)
    else if nested then (s, some .nested)
    else if (s.driver d).closing && !(s.driver d).closed then (s, some .closing)
    else (s.enqueueWrite d .transaction, none)
  | .bootstrap d nested =>
    if (s.driver d).closing && !(s.driver d).closed then (s, some .closing)
    else if nested then (s, some .nested)
    else (s.enqueueWrite d .bootstrap, none)
  | .readSnapshot d operation nested =>
    if !operation.readOnly then (s, some .writeClass)
    else if (s.driver d).closing || (s.driver d).closed then (s, some .closing)
    else if nested then (s, some .nested)
    else
      ({ s.setJob s.next (s.newJob d .readSnapshot [] (s.deadline (cfg d).readSnapshotDeadlineMs)) with next := s.next + 1 },
        none)
  | .start j o =>
    match s.job j with
    | none => (s, none)
    | some x => (if x.phase = .waiting ∧ s.ready x then s.start cfg j x o else s, none)
  | .issue j call =>
    match s.job j with
    | none => (s, none)
    | some x => (if x.phase = .body then s.issue j x call else s, none)
  | .returns j o =>
    match s.job j with
    | none => (s, none)
    | some x => (if x.phase = .body then s.returns j x o else s, none)
  | .throws j error =>
    match s.job j with
    | none => (s, none)
    | some x => (if x.phase = .body then s.throws j x error else s, none)
  | .rollback j o =>
    match s.job j with
    | none => (s, none)
    | some x =>
      (match x.phase with
      | .rollingBack error => s.rollback j x error o
      | _ => s, none)
  | .forget => ({ s with writeQueue := s.writeQueue.filter fun j => !s.settledAt j }, none)
  | .close d => (s.close cfg d, none)
  | .drained d timer => (s.drained d timer, none)

end LlmGateway.Storage.Sqlite
