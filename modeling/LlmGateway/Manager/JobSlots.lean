import LlmGateway.Limiter.Accounting

/-!
# Jobs and their running slots

`AsyncJobManager` as far as it admits, launches and ends jobs, over the model of its `JobLimiter`.

* `Job` — the fields of an `AsyncJobRecord` that decide about its slot, with the variables that the closures of its
  start call share (`acq`, `launchReleased`, `heldPermit`) and the places where its start call and its launch wait;
* the functions of the source, each from a job to the job and the calls it makes at the limiter: `launch`,
  `grantOrHold`, `recordStartOrFailClosed`, `resume`, `failQueuedJob`, `cancelJob`, `fireOnComplete`, …;
* `State`, `Event`, `next` — a task of the event loop runs up to its next `await`.  Where it releases a permit, the
  limiter pumps before anything else runs: `pump` is one step of that.

A job is known by its place in `jobs`.  What a task does behind a release concerns its own job only, and stands here
in front of it.
-/

namespace LlmGateway.Manager.JobSlots

open LlmGateway.Lib

inductive Transport where
  | process
  | http
deriving DecidableEq

inductive Status where
  | queued
  | running
  | completed
  | failed
  | canceled
deriving DecidableEq

/-- Not queued and not running any more. -/
def Status.terminal : Status → Bool
  | queued => false
  | running => false
  | completed => true
  | failed => true
  | canceled => true

/-- The result of `acquire`, which the start call keeps: a permit, or an entry of the queue that `cancel` removes. -/
inductive Acquired where
  | granted (permit : ℕ)
  | queued (entry : ℕ)
deriving DecidableEq

/-- Where `startJobWithDedup` or `startHttpJob` is: `recording` awaits `recordStart`, `recorded` the writes behind it. -/
inductive StartCall where
  | recording
  | recorded
  | returned
  | threw
deriving DecidableEq

/-- Where `launch` is: `starting` awaits `emitProgress`, `marking` awaits `markRunningDurable`; then the child has its
handlers, or the request is out. -/
inductive LaunchPoint where
  | none
  | starting
  | marking
  | attached
  | ended
deriving DecidableEq

/-- A spawned child.  Without a pid the spawn failed, as its `error` event tells; `gone` says that its `close` event
was emitted. -/
structure Child where
  hasPid : Bool
  gone : Bool
deriving DecidableEq

structure Job where
  provider : String
  transport : Transport
  deferLaunch : Bool
  /-- it has a `kitExecution` -/
  kit : Bool
  status : Status
  canceled : Bool
  terminationRequested : Bool
  exited : Bool
  closeObserved : Bool
  process : Option Child
  /-- the signal of the abort controller: the request is not to be sent, or to be given up -/
  aborted : Bool
  limiterPermit : Option ℕ
  queueCancel : Option ℕ
  acq : Acquired
  launchReleased : Bool
  heldPermit : Option ℕ
  start : StartCall
  launchPoint : LaunchPoint
  terminalPersistenceAcknowledged : Bool
  /-- calls of `fireOnComplete` that wait for the terminal write, or for the timer that writes it again -/
  fires : ℕ
  /-- `recordStartOrFailClosed` deleted it from `jobs` -/
  dropped : Bool
  /-- the permit that the limiter has granted for it, in `acquire` or in its callback -/
  grant : Option ℕ
  /-- a child was spawned for it, or its request sent -/
  launched : Bool

/-- What a task calls at the limiter: an entry that it removes from the queue, and then a permit that it releases. -/
structure Calls where
  cancel : Option ℕ
  release : Option ℕ

/-- The task does not call the limiter. -/
def Calls.none : Calls := ⟨.none, .none⟩

/-! ## The functions of a job -/

namespace Job

/-- A job as its start call makes it. -/
def new (provider : String) (transport : Transport) (deferLaunch kit : Bool) (acq : Acquired) : Job where
  provider := provider
  transport := transport
  deferLaunch := deferLaunch
  kit := kit
  status := .queued
  canceled := false
  terminationRequested := false
  exited := false
  closeObserved := false
  process := .none
  aborted := false
  limiterPermit := none
  queueCancel := none
  acq := acq
  launchReleased := !deferLaunch
  heldPermit := none
  start := .recording
  launchPoint := .none
  terminalPersistenceAcknowledged := !kit
  fires := 0
  dropped := false
  grant := match acq with
    | .granted k => some k
    | .queued _ => none
  launched := false

/-- A terminal transition: its `fireOnComplete` waits for the terminal write. -/
def finish (job : Job) (status : Status) : Job := { job with status := status, fires := job.fires + 1 }

/-- The process, or what stood for it, is known to be gone. -/
def observeClose (job : Job) : Job := { job with exited := true, closeObserved := true }

def releaseJobPermit (job : Job) : Job × Calls :=
  ({ job with limiterPermit := none }, ⟨none, job.limiterPermit⟩)

def failQueuedJob (job : Job) : Job :=
  if job.status = .queued then ({ job with queueCancel := none }.finish .failed).observeClose else job

/-- `launch`, up to its first `await`. -/
def launch (disposed : Bool) (permit : ℕ) (job : Job) : Job × Calls :=
  let job := { job with limiterPermit := some permit, queueCancel := none }
  if disposed && job.status = .queued then (job.failQueuedJob, .none)
  else if job.status ≠ .queued then job.releaseJobPermit
  else ({ job with status := .running, launchPoint := .starting }, .none)

/-- The job has left the queue with a permit. -/
def accept (permit : ℕ) (job : Job) : Job := { job with queueCancel := none, grant := some permit }

/-- The limiter calls back with a permit. -/
def grantOrHold (disposed : Bool) (permit : ℕ) (job : Job) : Job × Calls :=
  let job := job.accept permit
  if job.launchReleased then job.launch disposed permit
  else ({ job with heldPermit := some permit, limiterPermit := some permit }, .none)

/-- `recordStart` resolves, or rejects: then the slot or the entry goes back and the start call throws. -/
def recordStartOrFailClosed (ok : Bool) (job : Job) : Job × Calls :=
  if job.start = .recording then
    if ok then ({ job with start := .recorded }, .none)
    else
      ({ job with start := .threw, dropped := true },
        match job.acq with
        | .granted k => ⟨none, some k⟩
        | .queued e => ⟨some e, none⟩)
  else (job, .none)

/-- The rest of the start call, behind the writes that follow `recordStart`. -/
def resume (disposed : Bool) (job : Job) : Job × Calls :=
  if job.start = .recorded then
    let job := { job with start := .returned }
    match job.acq with
    | .granted k =>
      if job.deferLaunch then ({ job with heldPermit := some k, limiterPermit := some k }, .none)
      else job.launch disposed k
    | .queued e => ({ job with queueCancel := some e }, .none)
  else (job, .none)

/-- What `spawnCliProcess` does. -/
inductive Spawn where
  | throws
  | noPid
  | child

/-- The catch block of a process launch. -/
def launchFailed (job : Job) : Job := ({ job with launchPoint := .ended }.finish .failed).observeClose

/-- `launch` behind `emitProgress`: `launchProcessJob` up to `markRunningDurable`, of a process. -/
def spawn (disposed : Bool) (result : Spawn) (job : Job) : Job :=
  if job.launchPoint = .starting then
    match job.transport with
    | .http => { job with launchPoint := .marking }
    | .process =>
      if disposed || job.terminationRequested || job.status ≠ .running then job.launchFailed
      else
        match result with
        | .throws => job.launchFailed
        | .noPid => { job with process := some ⟨false, false⟩, launchPoint := .marking, launched := true }
        | .child => { job with process := some ⟨true, false⟩, launchPoint := .marking, launched := true }
  else job

/-- `launch` behind `markRunningDurable`.  An aborted request is given up before it is sent. -/
def attach (ok : Bool) (job : Job) : Job :=
  if job.launchPoint = .marking then
    match job.transport with
    | .http => { job with launchPoint := .attached, launched := job.launched || !job.aborted }
    | .process =>
      { job with launchPoint := .attached, terminationRequested := job.terminationRequested || !ok }
  else job

/-- `launch` has begun. -/
def begun (job : Job) : Bool := job.launchPoint ≠ .none || job.launched

/-- The handlers of the child are attached. -/
def listening (job : Job) : Bool := job.transport = .process && job.launchPoint = .attached

/-- The idle timer, and the output cap: a Kit job waits for `close`. -/
def requestTermination (job : Job) : Job :=
  let job := { job with terminationRequested := true }
  if job.kit then job else job.finish .failed

def idleTimeout (job : Job) : Job :=
  if job.listening && job.status = .running && !job.terminationRequested then job.requestTermination else job

def outputOverflow (job : Job) : Job :=
  if job.listening && job.status = .running then job.requestTermination else job

/-- `failStdinWrite`: the close handler ends the job. -/
def stdinFailure (job : Job) : Job :=
  if job.listening && !job.exited && !job.canceled && !job.terminationRequested then
    { job with terminationRequested := true }
  else job

/-- The `error` event of a child.  Without a listener, or for a child with a pid, it changes nothing. -/
def childError (job : Job) : Job :=
  match job.process with
  | some ⟨false, _⟩ =>
    if job.listening then
      let job := job.observeClose
      if job.status = .running then job.finish (if job.canceled then .canceled else .failed) else job
    else job
  | _ => job

/-- The `close` event of a child; `clean` says that it exited with 0 after reading its input. -/
def childClose (clean : Bool) (job : Job) : Job :=
  match job.process with
  | some ⟨hasPid, false⟩ =>
    let listening := job.listening
    let job := { job with process := some ⟨hasPid, true⟩ }
    if listening then
      let job := job.observeClose
      if job.status ≠ .running then { job with fires := job.fires + 1 }
      else if job.canceled then job.finish .canceled
      else if job.terminationRequested then job.finish .failed
      else if clean then job.finish .completed
      else job.finish .failed
    else job
  | _ => job

/-- `finalizeHttpJob`. -/
def finalizeHttpJob (ok : Bool) (job : Job) : Job :=
  if job.transport = .http && job.launchPoint = .attached then
    let job := { job with launchPoint := .ended }
    if job.status = .canceled then job.observeClose
    else if job.status ≠ .running then job
    else if job.terminationRequested then (job.finish .failed).observeClose
    else if ok then (job.finish .completed).observeClose
    else (job.finish .failed).observeClose
  else job

/-- `evictCompletedJobs` finds that the process of a running job does not exist. -/
def deadProcess (job : Job) : Job :=
  match job.process with
  | some ⟨true, _⟩ =>
    if job.status = .running && !job.dropped then { job.finish .failed with exited := true } else job
  | _ => job

/-- `evictCompletedJobs` finds a running job that has exited. -/
def exitedMismatch (job : Job) : Job :=
  if job.status = .running && job.exited && !job.dropped then job.finish .failed else job

def cancelJob (job : Job) : Job × Calls :=
  if job.dropped then (job, .none)
  else if job.status = .queued then
    (({ job with queueCancel := none, limiterPermit := none, canceled := true }.finish .canceled).observeClose,
      ⟨job.queueCancel, job.limiterPermit⟩)
  else if job.status ≠ .running then (job, .none)
  else
    match job.transport with
    | .http => (({ job with canceled := true, aborted := true }).finish .canceled, .none)
    | .process =>
      if job.process.isNone then (job, .none)
      else
        let job := { job with canceled := true, terminationRequested := job.kit }
        (if job.kit then job else job.finish .canceled, .none)

/-- `release` of a deferred launch. -/
def deferredRelease (disposed : Bool) (job : Job) : Job × Calls :=
  if job.deferLaunch && job.start = .returned && !job.launchReleased then
    let job := { job with launchReleased := true }
    if job.status ≠ .queued then (job, .none)
    else
      match job.heldPermit with
      | some k => { job with heldPermit := none }.launch disposed k
      | none => (job, .none)
  else (job, .none)

/-- `cancel` of a deferred launch, up to its call of `cancelJob`, which waits at the startup barrier first. -/
def deferredCancel (job : Job) : Job :=
  if job.deferLaunch && job.start = .returned && !job.launchReleased then
    { job with launchReleased := true, heldPermit := none }
  else job

/-- `dispose`, at a queued job. -/
def shutdownQueued (disposed : Bool) (job : Job) : Job × Calls :=
  if disposed && job.status = .queued && !job.dropped then (job.failQueuedJob, ⟨job.queueCancel, none⟩)
  else (job, .none)

/-- `dispose`, at a running job. -/
def shutdownRunning (disposed : Bool) (job : Job) : Job :=
  if disposed && job.status = .running && !job.dropped then
    { job with terminationRequested := true, aborted := job.aborted || job.transport = .http }
  else job

/-- The process may still be running. -/
def mayStillRead (job : Job) : Bool := job.transport = .process && job.process.isSome && !job.closeObserved

/-- `fireOnComplete`, behind a terminal write that the store has acknowledged or not. -/
def fireOnComplete (acknowledged : Bool) (job : Job) : Job × Calls :=
  if job.status.terminal then
    let job := { job with
      terminalPersistenceAcknowledged := job.terminalPersistenceAcknowledged || acknowledged
      fires := job.fires - 1 }
    if job.kit && job.mayStillRead then (job, .none)
    else if job.kit && !job.terminalPersistenceAcknowledged then ({ job with fires := job.fires + 1 }, .none)
    else job.releaseJobPermit
  else (job, .none)

/-- What happens to a job. -/
inductive Event where
  | recordStart (ok : Bool)
  | resume
  | spawn (result : Spawn)
  | attach (ok : Bool)
  | idleTimeout
  | outputOverflow
  | stdinFailure
  | childError
  | childClose (clean : Bool)
  | settle (ok : Bool)
  | deadProcess
  | exitedMismatch
  | cancelJob
  | deferredRelease
  | deferredCancel
  | shutdownQueued
  | shutdownRunning
  | fireOnComplete (acknowledged : Bool)

/-- A task of a job. -/
def step (disposed : Bool) (job : Job) : Event → Job × Calls
  | .recordStart ok => job.recordStartOrFailClosed ok
  | .resume => job.resume disposed
  | .spawn result => (job.spawn disposed result, .none)
  | .attach ok => (job.attach ok, .none)
  | .idleTimeout => (job.idleTimeout, .none)
  | .outputOverflow => (job.outputOverflow, .none)
  | .stdinFailure => (job.stdinFailure, .none)
  | .childError => (job.childError, .none)
  | .childClose clean => (job.childClose clean, .none)
  | .settle ok => (job.finalizeHttpJob ok, .none)
  | .deadProcess => (job.deadProcess, .none)
  | .exitedMismatch => (job.exitedMismatch, .none)
  | .cancelJob => job.cancelJob
  | .deferredRelease => job.deferredRelease disposed
  | .deferredCancel => (job.deferredCancel, .none)
  | .shutdownQueued => job.shutdownQueued disposed
  | .shutdownRunning => (job.shutdownRunning disposed, .none)
  | .fireOnComplete acknowledged => job.fireOnComplete acknowledged

end Job

/-! ## The manager -/

structure State where
  limiter : Limiter.State
  jobs : List Job
  disposed : Bool

inductive Event where
  /-- a start call, up to its call of `recordStart` -/
  | start (provider : String) (transport : Transport) (deferLaunch kit : Bool)
  | job (j : ℕ) (e : Job.Event)
  | queueTimeout (entry : ℕ)
  | dispose
  /-- `acquireProcessSlot`, of a run that has no job -/
  | acquireSlot (provider : String)
  | releaseSlot (permit : ℕ)
  /-- a step of the running `pump` of the limiter -/
  | pump

variable (cfg : Limiter.Config)

def calls (l : Limiter.State) (c : Calls) : Limiter.State :=
  let l := match c.cancel with
    | some e => (Limiter.step cfg l (.cancel e)).1
    | none => l
  match c.release with
  | some k => (Limiter.step cfg l (.release k)).1
  | none => l

namespace State

/-- A task of the job at `j`. -/
def act (s : State) (j : ℕ) (f : Job → Job × Calls) : State :=
  match s.jobs[j]? with
  | none => s
  | some job => { s with limiter := calls cfg s.limiter (f job).2, jobs := s.jobs.set j (f job).1 }

/-- The job that waits with an entry. -/
def waiter (s : State) (entry : ℕ) : Option ℕ := s.jobs.findIdx? fun job => job.acq = .queued entry

/-- The callback of an entry: that of its job, or that of `acquireProcessSlot`. -/
def onGrant (s : State) (entry permit : ℕ) : State :=
  match s.waiter entry with
  | some j => s.act cfg j (Job.grantOrHold s.disposed permit)
  | none => if s.disposed then { s with limiter := (Limiter.step cfg s.limiter (.release permit)).1 } else s

/-- The timer of an entry: the job that waits with it fails. -/
def onTimeout (s : State) (entry : ℕ) : State :=
  match s.waiter entry with
  | some j => s.act cfg j fun job => (job.failQueuedJob, .none)
  | none => s

def pump (s : State) : State :=
  if s.limiter.pumping then
    let r := Limiter.step cfg s.limiter .tick
    match r.2 with
    | .fired entry permit => { s with limiter := r.1 }.onGrant cfg entry.id permit
    | _ => { s with limiter := r.1 }
  else { s with limiter := (Limiter.step cfg s.limiter .callbackReturn).1 }

def queueTimeout (s : State) (entry : ℕ) : State :=
  let r := Limiter.step cfg s.limiter (.timeout entry)
  match r.2 with
  | .timedOut entry => { s with limiter := r.1 }.onTimeout cfg entry.id
  | _ => { s with limiter := r.1 }

def start (s : State) (provider : String) (transport : Transport) (deferLaunch kit : Bool) : State :=
  let r := Limiter.step cfg s.limiter (.acquire provider)
  match r.2 with
  | .granted permit =>
    { s with limiter := r.1, jobs := s.jobs ++ [.new provider transport deferLaunch kit (.granted permit)] }
  | .queued entry =>
    { s with limiter := r.1, jobs := s.jobs ++ [.new provider transport deferLaunch kit (.queued entry.id)] }
  | _ => { s with limiter := r.1 }

/-- No `pump` is running. -/
def idle (s : State) : Bool := !s.limiter.pumping && s.limiter.stack.isEmpty

/-- A task of the event loop. -/
def task (s : State) : Event → State
  | .start provider transport deferLaunch kit => s.start cfg provider transport deferLaunch kit
  | .job j e => s.act cfg j fun job => job.step s.disposed e
  | .queueTimeout entry => s.queueTimeout cfg entry
  | .dispose => { s with disposed := true }
  | .acquireSlot provider => { s with limiter := (Limiter.step cfg s.limiter (.acquire provider)).1 }
  | .releaseSlot permit =>
    -- a run without a job has only the permits that no job has
    if s.jobs.all fun job => job.grant ≠ some permit then
      { s with limiter := (Limiter.step cfg s.limiter (.release permit)).1 }
    else s
  | .pump => s

end State

/-- The next step: while a `pump` is running, nothing else is. -/
def next (s : State) (e : Event) : State :=
  if s.idle then s.task cfg e
  else
    match e with
    | .pump => s.pump cfg
    | _ => s

def init : State := ⟨Limiter.init, [], false⟩

/-- The state after the events, from a new manager. -/
def reached (es : List Event) : State := Run.final (fun s e => (next cfg s e, ())) init es

end LlmGateway.Manager.JobSlots
