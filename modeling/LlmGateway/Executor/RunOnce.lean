import LlmGateway.Lib.History
import LlmGateway.Lib.Numeral
import LlmGateway.Lib.Run
import LlmGateway.Lib.Utf8

/-!
# One run of a provider CLI

`runOnce` of `executeCli` and `createProcessGroupTerminationFence` (executor.ts), with `writeAndCloseChildStdin` (child-stdin.ts).

* `Run` — the variables of a run, with the bytes that the child has written so far and the code that it has closed with;
* `Event`, `step` — a chunk of output, a timer that fires, the end of the delivery of stdin, and the events of the child.

A timer fires only while it is set; behind `close` the streams give no more data, and the callback of a write comes once.  A
timeout of `none` is one that is not a positive number.
-/

namespace LlmGateway.Executor

open LlmGateway.Lib LlmGateway.Lib.Utf16

/-! ## The fence -/

inductive Signal where
  | SIGTERM
  | SIGKILL
deriving DecidableEq

/-- What is done with the process group. -/
inductive GroupAction where
  | signal (s : Signal)
  | unregister
deriving DecidableEq

/-- `spawned` says that the child has a pid. -/
structure Fence where
  spawned : Bool
  groupCleaned : Bool
  terminationPending : Bool
  escalationTimer : Bool
  log : List GroupAction
deriving DecidableEq

def PROCESS_GROUP_KILL_GRACE_MS : ℕ := 5000

namespace Fence

def killProcessGroup (f : Fence) (s : Signal) : Fence := if f.spawned then { f with log := f.log ++ [.signal s] } else f

def cleanupProcessGroup (f : Fence) : Fence :=
  if f.groupCleaned then f
  else { f with groupCleaned := true, log := if f.spawned then f.log ++ [.unregister] else f.log }

def forceKillAndCleanup (f : Fence) : Fence :=
  let f := { f with escalationTimer := false }
  let f := f.killProcessGroup .SIGKILL
  let f := { f with terminationPending := false }
  f.cleanupProcessGroup

def request (f : Fence) (s : Signal) (graceMs : ℕ) : Fence :=
  let f := { f with terminationPending := true }
  let f := f.killProcessGroup s
  if s = .SIGKILL ∨ graceMs = 0 then f.forceKillAndCleanup
  else { f with escalationTimer := true }

/-- `request()` -/
def terminate (f : Fence) : Fence := f.request .SIGTERM PROCESS_GROUP_KILL_GRACE_MS

def cleanupAfterLeaderExit (f : Fence) : Fence := if f.terminationPending then f else f.cleanupProcessGroup

end Fence

/-! ## Stdin -/

inductive StdinError where
  | ChildStdinIncompleteError
  | ChildStdinWriteFailedError
deriving DecidableEq

/-- An error with this code. -/
def normalizeChildStdinDeliveryError (code : String) : StdinError :=
  if code = "ERR_CHILD_STDIN_INCOMPLETE" ∨ code = "EPIPE" ∨ code = "ERR_STREAM_DESTROYED" ∨ code = "ECONNRESET" then
    .ChildStdinIncompleteError
  else .ChildStdinWriteFailedError

inductive DeliveryState where
  | pending
  | succeeded
  | failed
deriving DecidableEq

/-- `called` says that the callback of the write has come. -/
structure ChildStdinDelivery where
  state : DeliveryState
  reported : Bool
  cleaned : Bool
  called : Bool
deriving DecidableEq

def isChildStdinDeliveryIncomplete (d : Option ChildStdinDelivery) : Bool := d.any fun d => d.state != .succeeded

/-- What there is to deliver: nothing, something without a pipe, or something that is written, unless `write` throws. -/
inductive Stdin where
  | absent
  | noPipe
  | payload (thrown : Option String)
deriving DecidableEq

/-! ## The run -/

structure Options where
  command : Text
  spawned : Bool
  timeoutMs : Option ℕ
  idleMs : Option ℕ
  stdin : Stdin

structure ExecuteResult where
  stdout : Text
  stderr : Text
  code : ℤ
deriving DecidableEq

inductive RunError where
  | overflow
  | exited (message : Text) (result : ExecuteResult)
  | stdin (error : StdinError)
  | child (message : Text)
deriving DecidableEq

inductive Outcome where
  | resolved (result : ExecuteResult)
  | rejected (error : RunError)
deriving DecidableEq

inductive Stream where
  | stdout
  | stderr
deriving DecidableEq

def MAX_OUTPUT_SIZE : ℕ := 50 * 1024 * 1024

/-- `written` are the bytes of the streams so far, `closed` the code of the `close` event. -/
structure Run where
  stdout : Text
  stderr : Text
  written : Stream → List UInt8
  outputSize : ℕ
  timedOut : Bool
  idledOut : Bool
  exited : Bool
  settled : Bool
  stdinFailure : Option StdinError
  stdinDelivery : Option ChildStdinDelivery
  fence : Fence
  timeoutId : Bool
  idleTimerId : Bool
  closed : Option (Option ℤ)
  promise : Option Outcome

inductive Event where
  | data (stream : Stream) (chunk : List UInt8)
  | timeout
  | idleTimeout
  | escalation
  | stdinWritten (error : Option String)
  | stdinError (code : String)
  | stdinClose
  | close (code : Option ℤ)
  | error (message : Text)

namespace Run

/-- `resolve` or `reject`: the first one settles the promise. -/
def settle (r : Run) (o : Outcome) : Run := { r with promise := r.promise.or (some o) }

def terminate (r : Run) : Run := { r with fence := r.fence.terminate }

def finalizeReject (r : Run) (error : RunError) : Run :=
  if r.settled then r
  else { r with settled := true, timeoutId := false, idleTimerId := false }.settle (.rejected error)

def append (r : Run) (stream : Stream) (text : Text) : Run :=
  match stream with
  | .stdout => { r with stdout := r.stdout ++ text }
  | .stderr => { r with stderr := r.stderr ++ text }

def handleOutputChunk (o : Options) (r : Run) (stream : Stream) (chunk : List UInt8) : Run :=
  let r := { r with outputSize := r.outputSize + chunk.length }
  if MAX_OUTPUT_SIZE < r.outputSize then r.terminate.finalizeReject .overflow
  else { r with idleTimerId := o.idleMs.isSome }.append stream (Utf8.decode chunk)

def data (o : Options) (r : Run) (stream : Stream) (chunk : List UInt8) : Run :=
  if r.closed.isSome then r
  else
    let r := { r with written := Function.update r.written stream (r.written stream ++ chunk) }
    if r.settled then r else r.handleOutputChunk o stream chunk

def timeout (r : Run) : Run := if r.timeoutId then { r with timeoutId := false, timedOut := true }.terminate else r

def idleTimeout (r : Run) : Run :=
  if r.idleTimerId then { r with idleTimerId := false, idledOut := true, timeoutId := false }.terminate else r

def escalation (r : Run) : Run := if r.fence.escalationTimer then { r with fence := r.fence.forceKillAndCleanup } else r

/-- The `onError` of the delivery. -/
def stdinFailed (r : Run) (error : StdinError) : Run :=
  if r.exited || r.settled then r
  else
    match error with
    | .ChildStdinIncompleteError => { r with stdinFailure := r.stdinFailure.or (some .ChildStdinIncompleteError) }
    | .ChildStdinWriteFailedError => { r with stdinFailure := some .ChildStdinWriteFailedError }.terminate

/-- `handleError` of the delivery `d`. -/
def handleError (r : Run) (d : ChildStdinDelivery) (code : String) : Run :=
  let r := { r with stdinDelivery := some { d with state := .failed, reported := true } }
  if d.reported then r else r.stdinFailed (normalizeChildStdinDeliveryError code)

def stdinWritten (r : Run) (error : Option String) : Run :=
  match r.stdinDelivery with
  | some d =>
    if d.called then r
    else
      let d := { d with called := true }
      match error with
      | some code => r.handleError d code
      | none => { r with stdinDelivery := some (if d.state = .pending then { d with state := .succeeded } else d) }
  | none => r

def stdinError (r : Run) (code : String) : Run :=
  match r.stdinDelivery with
  | some d => if d.cleaned then r else r.handleError d code
  | none => r

def cleanupDelivery (r : Run) : Run := { r with stdinDelivery := r.stdinDelivery.map fun d => { d with cleaned := true } }

/-- What `close` and `error` do first. -/
def exit (r : Run) : Run :=
  { r.cleanupDelivery with exited := true, idleTimerId := false, fence := r.fence.cleanupAfterLeaderExit }

def rejectWith (r : Run) (message : Text) (result : ExecuteResult) : Run := r.settle (.rejected (.exited message result))

/-- The result of a child that nothing has ended. -/
def exitResult (o : Options) (r : Run) (code : Option ℤ) : ExecuteResult :=
  if code = some (-4058) ∧ r.stdout = [] ∧ r.stderr = [] then
    ⟨[], text "The '" ++ o.command ++ text "' command was not found. Install the " ++ o.command ++
      text " CLI and make sure it is on PATH.", 127⟩
  else ⟨r.stdout, r.stderr, code.getD 0⟩

def integerText (n : ℤ) : Text := text (toString n)

/-- What `close` does with a run that has not been settled; `incomplete` is that stdin has not been delivered. -/
def conclude (o : Options) (r : Run) (code : Option ℤ) (incomplete : Bool) : Run :=
  let r := { r with timeoutId := false }
  if r.timedOut then
    let stderr := r.stderr ++ text "\nProcess timed out after " ++ numeral (o.timeoutMs.getD 0) ++ text "ms"
    r.rejectWith stderr ⟨r.stdout, stderr, 124⟩
  else if r.idledOut then
    let stderr := r.stderr ++ text "\nProcess killed after " ++ numeral (o.idleMs.getD 0) ++ text "ms of inactivity"
    r.rejectWith stderr ⟨r.stdout, stderr, 125⟩
  else
    let result := r.exitResult o code
    if result.code ≠ 0 then r.rejectWith (text "Process exited with code " ++ integerText result.code) result
    else
      match r.stdinFailure with
      | some error => r.finalizeReject (.stdin error)
      | none => if incomplete then r.finalizeReject (.stdin .ChildStdinIncompleteError) else r.settle (.resolved result)

def close (o : Options) (r : Run) (code : Option ℤ) : Run :=
  if r.closed.isSome then r
  else
    let incomplete := isChildStdinDeliveryIncomplete r.stdinDelivery
    let r := { r.exit with closed := some code }
    if r.settled then r else r.conclude o code incomplete

def error (r : Run) (message : Text) : Run :=
  let r := r.exit
  if r.settled then r else { r with timeoutId := false, settled := true }.settle (.rejected (.child message))

end Run

/-- A run behind its spawn. -/
def Run.spawned (o : Options) : Run where
  stdout := []
  stderr := []
  written _ := []
  outputSize := 0
  timedOut := false
  idledOut := false
  exited := false
  settled := false
  stdinFailure := none
  stdinDelivery := none
  fence := ⟨o.spawned, false, false, false, []⟩
  timeoutId := o.timeoutMs.isSome
  idleTimerId := o.idleMs.isSome
  closed := none
  promise := none

/-- A run whose stdin has been handed over. -/
def Run.start (o : Options) : Run :=
  let r := Run.spawned o
  match o.stdin with
  | .absent => r
  | .noPipe => { r with stdinFailure := some .ChildStdinWriteFailedError }.terminate
  | .payload none => { r with stdinDelivery := some ⟨.pending, false, false, false⟩ }
  | .payload (some code) => r.handleError ⟨.pending, false, false, false⟩ code

def step (o : Options) (r : Run) : Event → Run × Unit
  | .data stream chunk => (r.data o stream chunk, ())
  | .timeout => (r.timeout, ())
  | .idleTimeout => (r.idleTimeout, ())
  | .escalation => (r.escalation, ())
  | .stdinWritten error => (r.stdinWritten error, ())
  | .stdinError code => (r.stdinError code, ())
  | .stdinClose => (r.cleanupDelivery, ())
  | .close code => (r.close o code, ())
  | .error message => (r.error message, ())

end LlmGateway.Executor
