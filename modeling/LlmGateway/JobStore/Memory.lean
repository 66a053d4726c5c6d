import LlmGateway.Lib.JsMap
import LlmGateway.JobStore.JobRows

/-!
# The in-memory job store

`MemoryJobStore` (job-store.ts): the methods on its two maps, each as the code runs it.  There is no transaction: what
a method did before it threw stays done.

* `updateRow` — the shape of the methods that look a row up, check it and rewrite it in place;
* `recordStart`, `fenceUnadmittedKitAttempt`, `markRunning`, … — the methods.
-/

namespace LlmGateway.JobStore

open LlmGateway.Lib LlmGateway.Lib.IsoTime

structure MemoryJobStore where
  rows : JsMap String JobRecord
  kitAttemptFences : JsMap String KitAttemptFence

namespace MemoryJobStore

def empty : MemoryJobStore := ⟨Table.empty, Table.empty⟩

section Methods

variable (cfg : Config) (now : Clock) (mem : MemoryJobStore)

/-- Look a row up, and rewrite it when it passes the check; whether it did. -/
def updateRow (id : String) (q : JobRecord → Bool) (f : JobRecord → JobRecord) : Bool × MemoryJobStore :=
  match mem.rows.get id with
  | none => (false, mem)
  | some row => if q row then (true, { mem with rows := mem.rows.set id (f row) }) else (false, mem)

/-! ## Admission -/

/-- The row `recordStart` sets. -/
def startRow (input : JobStartInput) : JobRecord :=
  let kit := input.kitExecution.isSome
  { id := input.id
    correlationId := input.correlationId
    requestKey := if kit then personalKitJobRequestKey input.id else input.requestKey
    cli := input.cli
    argsJson := if kit then PERSONAL_KIT_REDACTED_ARGS_JSON else input.args
    outputFormat := input.outputFormat
    compressResponse := input.compressResponse
    status := .queued
    exitCode := none
    stdout := ""
    stderr := ""
    outputTruncated := false
    error := none
    errorCategory := none
    retryable := none
    startedAt := input.startedAt
    finishedAt := none
    pid := input.pid
    expiresAt := FAR_FUTURE_ISO
    ownerPrincipal := input.ownerPrincipal
    transport := input.transport.getD .process
    httpStatus := none
    payloadJson := if kit then none else input.payloadJson
    ownerInstance := input.ownerInstance
    ownerHostname := input.ownerHostname
    mcpArtifactPath := if kit then none else input.mcpArtifactPath
    mcpArtifactScope := if kit then none else input.mcpArtifactScope
    mcpArtifactCleanupPending :=
      !kit && ((truthyText input.mcpArtifactPath).isSome && (truthyText input.mcpArtifactScope).isSome)
    leaseDeadline := some (now.date + cfg.leaseTtlMs)
    kitExecution := input.kitExecution
    kitSessionId := input.kitSessionId
    cwdScope := if kit then none else input.cwd.map JobCwdRecord.scope
    cwdPath := if kit then none else input.cwd.bind JobCwdRecord.path
    workspaceAlias := if kit then none else input.cwd.bind JobCwdRecord.workspaceAlias
    kitTerminalFinalized := false
    kitTerminalFinalizedAt := none
    progressJson := none
    replayContext := if kit then none else input.replayContext
    captureFormat := if kit then none else input.captureFormat
    capture := ⟨none, 0, none, 0, false, 0, none⟩ }

/-- Whether the fence was inserted; an id that has one is answered before the reference is looked at. -/
def insertKitAttemptFence (input : KitAttemptFenceInput) (state : FenceState) : Except String (Bool × MemoryJobStore) :=
  if (mem.kitAttemptFences.get input.attemptId).isSome then .ok (false, mem)
  else
    match cloneKitExecutionRef input.kitExecution with
    | .error e => .error e
    | .ok kitExecution =>
      .ok (true, { mem with
        kitAttemptFences := mem.kitAttemptFences.set input.attemptId
          ⟨input.attemptId, state, input.cli, kitExecution, input.kitSessionId, input.ownerPrincipal, input.fencedAt⟩ })

/-- The Kit half of `recordStart`. -/
def admitKitAttempt (input : JobStartInput) (kitExecution : KitExecutionRef) : Except String MemoryJobStore :=
  let kitSessionId := JsText.trim (input.kitSessionId.getD "")
  if kitSessionId = "" then .error "Kit job admission requires a gateway kitSessionId"
  else
    match mem.insertKitAttemptFence ⟨input.id, input.cli, kitExecution, kitSessionId, input.ownerPrincipal,
      input.startedAt⟩ .admitted with
    | .error e => .error e
    | .ok (false, _) => .error ("Kit job id " ++ input.id ++ " is already admitted or permanently recovered")
    | .ok (true, mem) => .ok mem

/-- The rest of it. -/
def setStartRow (input : JobStartInput) : Except String Unit × MemoryJobStore :=
  if input.validationAdmission.isSome then
    (.error "Validation job admission requires a durable validation-run store", mem)
  else
    match input.kitExecution.map cloneKitExecutionRef with
    | some (.error e) => (.error e, mem)
    | _ => (.ok (), { mem with rows := mem.rows.set input.id (startRow cfg now input) })

def recordStart (input : JobStartInput) : Except String Unit × MemoryJobStore :=
  match assertMcpArtifactAdmissionInvariant input with
  | .error e => (.error e, mem)
  | .ok () =>
    match input.kitExecution with
    | none => setStartRow cfg now mem input
    | some kitExecution =>
      match mem.admitKitAttempt input kitExecution with
      | .error e => (.error e, mem)
      | .ok mem => setStartRow cfg now mem input

def fenceUnadmittedKitAttempt (input : KitAttemptFenceInput) : Except String (KitAttemptFenceResult × MemoryJobStore) :=
  match mem.insertKitAttemptFence input .recovered with
  | .error e => .error e
  | .ok (true, mem) => .ok (.reserved, mem)
  | .ok (false, mem) =>
    match (mem.kitAttemptFences.get input.attemptId).filter fun existing => existing.state == .recovered &&
        existing.cli == input.cli && existing.kitSessionId == input.kitSessionId &&
        recoveredFenceOwnerMatches existing.ownerPrincipal input.ownerPrincipal with
    | none => .ok (.conflict, mem)
    | some existing =>
      match sameKitExecutionRef existing.kitExecution input.kitExecution with
      | .error e => .error e
      | .ok true => .ok (.already_recovered, mem)
      | .ok false => .ok (.conflict, mem)

/-! ## Leases -/

def runRow (pid : Option ℤ) (row : JobRecord) : JobRecord :=
  { row with status := .running, pid := pid, leaseDeadline := some (now.date + cfg.leaseTtlMs) }

def markRunning (id : String) (pid : Option ℤ) : Bool × MemoryJobStore :=
  mem.updateRow id (fun row => row.status == .queued) (runRow cfg now pid)

/-- An open row of the instance. -/
def ownedBy (instanceId : String) (row : JobRecord) : Bool :=
  row.ownerInstance == some instanceId && (row.status == .queued || row.status == .running)

def heartbeat (instanceId : String) : HeartbeatOutcome × MemoryJobStore :=
  let deadline : ℤ := now.date + cfg.leaseTtlMs
  (⟨true, mem.rows.countWhere (ownedBy instanceId)⟩,
    { mem with
      rows := mem.rows.updateWhere (ownedBy instanceId) fun row => { row with leaseDeadline := some deadline } })

/-! ## Output, progress and completion -/

def outputRow (stdout stderr : String) (outputTruncated : Bool) (row : JobRecord) : JobRecord :=
  { row with
    stdout := if row.kitExecution.isSome then "" else stdout
    stderr := if row.kitExecution.isSome then "" else stderr
    outputTruncated := outputTruncated }

def recordOutput (id stdout stderr : String) (outputTruncated : Bool) (expectedStatuses : List JobStoreStatus) :
    Bool × MemoryJobStore :=
  mem.updateRow id (fun row => expectedStatuses.contains row.status) (outputRow stdout stderr outputTruncated)

def progressRow (progressJson : String) (row : JobRecord) : JobRecord := { row with progressJson := some progressJson }

def recordProgress (id progressJson : String) : MemoryJobStore :=
  (mem.updateRow id (fun _ => true) (progressRow progressJson)).2

def recordProgressIfStatus (id : String) (status : JobStoreStatus) (progressJson : String) : Bool × MemoryJobStore :=
  mem.updateRow id (fun row => row.status == status) (progressRow progressJson)

def captureRow (capture : CaptureInput) (row : JobRecord) : JobRecord :=
  { row with
    capture :=
      { captureStatus := some capture.captureStatus
        outputDroppedBytes := capture.outputDroppedBytes
        nativeTranscript := capture.nativeTranscript
        nativeTranscriptBytes := capture.nativeTranscriptBytes
        nativeTranscriptTruncated := capture.nativeTranscriptTruncated
        nativeTranscriptDroppedBytes := capture.nativeTranscriptDroppedBytes
        captureError := capture.captureError } }

def recordCapture (input : JobCaptureInput) : Bool × MemoryJobStore :=
  mem.updateRow input.id
    (fun row => !(row.ownerInstance != some input.ownerInstance ||
      (row.capture.captureStatus.isSome && !(row.capture.captureStatus == some .not_captured &&
        row.capture.captureError == some CAPTURE_ACCOUNTING_RECOVERY_ERROR)) ||
      row.kitExecution.isSome || row.status == .queued || row.status == .running || row.status == .orphaned))
    (captureRow input.capture)

/-- The assignments of `recordComplete` before the expiry is computed. -/
def finishRow (input : JobCompletionInput) (row : JobRecord) : JobRecord :=
  { row with
    status := input.status.toStatus
    exitCode := input.exitCode
    stdout := if row.kitExecution.isSome then "" else input.stdout
    stderr := if row.kitExecution.isSome then "" else input.stderr
    outputTruncated := input.outputTruncated
    error :=
      if row.kitExecution.isSome then (if input.status = .completed then none else some PERSONAL_KIT_FAILURE_WITHHELD)
      else input.error
    errorCategory := input.errorCategory
    retryable := input.retryable
    finishedAt := some input.finishedAt }

/-- The assignments after it. -/
def settleRow (input : JobCompletionInput) (expiresAt : String) (row : JobRecord) : JobRecord :=
  { row with
    expiresAt := expiresAt
    leaseDeadline := none
    httpStatus := match input.httpStatus with
      | some httpStatus => httpStatus
      | none => row.httpStatus
    progressJson := match input.progressJson with
      | some progressJson => some progressJson
      | none => row.progressJson
    capture :=
      match input.capture with
      | some capture =>
        if row.kitExecution.isNone && row.capture.captureStatus.isNone then capture.toCapture else row.capture
      | none => row.capture }

/-- The expiry is computed half way: when it cannot be written, the first half stays. -/
def recordComplete (input : JobCompletionInput) : Except String Bool × MemoryJobStore :=
  match mem.rows.get input.id with
  | none => (.ok false, mem)
  | some row =>
    if row.status != .queued && row.status != .running && row.status != .orphaned then (.ok false, mem)
    else
      let row := finishRow input row
      match retentionExpiryIso cfg input.finishedAt with
      | .error e => (.error e, { mem with rows := mem.rows.set input.id row })
      | .ok expiresAt => (.ok true, { mem with rows := mem.rows.set input.id (settleRow input expiresAt row) })

def finalizeRow (row : JobRecord) : JobRecord :=
  if row.kitTerminalFinalized then row
  else { row with kitTerminalFinalized := true, kitTerminalFinalizedAt := some now.nowIso }

def markKitTerminalFinalized (id kitSessionId : String) : Bool × MemoryJobStore :=
  mem.updateRow id
    (fun row => !(row.status == .queued || row.status == .running || row.status == .orphaned ||
      row.kitExecution.isNone || row.kitSessionId != some kitSessionId))
    (finalizeRow now)

def acknowledgeRow (row : JobRecord) : JobRecord := { row with mcpArtifactCleanupPending := false }

def acknowledgeMcpArtifactCleanup (id hostname artifactScope artifactPath : String) : Bool × MemoryJobStore :=
  mem.updateRow id
    (fun row => !(row.ownerHostname != some hostname || row.mcpArtifactScope != some artifactScope ||
      row.mcpArtifactPath != some artifactPath || !row.mcpArtifactCleanupPending ||
      (row.status != .completed && row.status != .failed && row.status != .canceled && row.status != .orphaned)))
    acknowledgeRow

def evictExpired : ℕ × MemoryJobStore :=
  match cfg.retentionMs with
  | none => (0, mem)
  | some _ =>
    let expired (row : JobRecord) : Bool := decide (row.expiresAt < now.nowIso) &&
      (row.kitExecution.isNone || row.kitTerminalFinalized) && !row.mcpArtifactCleanupPending
    (mem.rows.countWhere expired, { mem with rows := mem.rows.deleteWhere expired })

/-! ## Reads -/

def cloneJobRecord (record : JobRecord) : Except String JobRecord :=
  match record.kitExecution with
  | none => .ok record
  | some kitExecution => (cloneKitExecutionRef kitExecution).map fun kit => { record with kitExecution := some kit }

def cloneJobRecord? : Option JobRecord → Except String (Option JobRecord)
  | none => .ok none
  | some record => (cloneJobRecord record).map some

def getById (id : String) : Except String (Option JobRecord) := cloneJobRecord? (mem.rows.get id)

/-- The row may be reused: its key is the one asked for, it is not over, and it started within the window. -/
def reusable (requestKey : String) (row : JobRecord) : Bool :=
  row.requestKey == requestKey &&
    (row.status == .running || row.status == .completed ||
      (row.status == .queued && row.leaseDeadline.any fun d => decide (d ≥ (now.date : ℤ)))) &&
    !(cfg.dateParse.parse row.startedAt).any fun (started : ℤ) => decide ((started : ℚ) < now.date - cfg.dedupWindowMs)

/-- `Date.parse(a.startedAt) > Date.parse(b.startedAt)` -/
def startedAfter (a b : JobRecord) : Bool :=
  (cfg.dateParse.parse a.startedAt).any fun x => (cfg.dateParse.parse b.startedAt).any fun y => decide (x > y)

/-- The loop skips the rows that may not be reused. -/
def findByRequestKey (requestKey : String) : Except String (Option JobRecord) :=
  cloneJobRecord? (latest (startedAfter cfg) (mem.rows.values.filter (reusable cfg now requestKey)))

/-- The order of `getPendingKitFinalizations`. -/
def pendingOrder (localeCompare : String → String → Ordering) (a b : PendingKitFinalization) : Prop :=
  ((localeCompare a.finishedAt b.finishedAt).then (localeCompare a.jobId b.jobId)).isLE = true

instance (localeCompare : String → String → Ordering) : DecidableRel (pendingOrder localeCompare) :=
  fun _ _ => inferInstanceAs (Decidable (_ = true))

def getPendingKitFinalizations (localeCompare : String → String → Ordering) : List PendingKitFinalization :=
  (mem.rows.values.filterMap toPendingKitFinalization).insertionSort (pendingOrder localeCompare)

/-- The order of `getAcknowledgedKitAttemptReleases`. -/
def releaseOrder (localeCompare : String → String → Ordering) (a b : AcknowledgedKitAttemptRelease) : Prop :=
  (localeCompare a.jobId b.jobId).isLE = true

instance (localeCompare : String → String → Ordering) : DecidableRel (releaseOrder localeCompare) :=
  fun _ _ => inferInstanceAs (Decidable (_ = true))

def getAcknowledgedKitAttemptReleases (localeCompare : String → String → Ordering) :
    List AcknowledgedKitAttemptRelease :=
  (mem.rows.values.filterMap toAcknowledgedKitAttemptRelease).insertionSort (releaseOrder localeCompare)

def getPinnedKitReleaseIds : List String :=
  (mem.rows.values.filterMap fun row =>
    if row.status == .queued || row.status == .running || !row.kitTerminalFinalized then
      row.kitExecution.map KitExecutionRef.releaseId
    else none).dedup.insertionSort (· ≤ ·)

end Methods

/-! ## Calls -/

/-- A call of a method the store has: it keeps no validation runs. -/
abbrev MemoryCall := { call : Call // call.op.isValidation = false }

/-- The method, with the store it leaves. -/
def perform (cfg : Config) (now : Clock) (mem : MemoryJobStore) :
    (op : Op) → op.isValidation = false → Except String Ret × MemoryJobStore
  | .recordStart input, _ => let (result, mem) := recordStart cfg now mem input; (result.map fun _ => .unit, mem)
  | .fenceUnadmittedKitAttempt input, _ =>
    match mem.fenceUnadmittedKitAttempt input with
    | .error e => (.error e, mem)
    | .ok (result, mem) => (.ok (.fence result), mem)
  | .markRunning id pid, _ => let (b, mem) := markRunning cfg now mem id pid; (.ok (.bool b), mem)
  | .registerInstance _, _ => (.ok .unit, mem)
  | .heartbeat instanceId, _ => let (outcome, mem) := heartbeat cfg now mem instanceId; (.ok (.heartbeat outcome), mem)
  | .deregisterInstance _, _ => (.ok .unit, mem)
  | .recoverStaleJobs _ _ _, _ => (.ok (.snapshots []), mem)
  | .gcInstances _, _ => (.ok (.count 0), mem)
  | .recordOutput id stdout stderr truncated expected, _ =>
    let (b, mem) := mem.recordOutput id stdout stderr truncated expected; (.ok (.bool b), mem)
  | .recordProgress id progressJson, _ => (.ok .unit, mem.recordProgress id progressJson)
  | .recordProgressIfStatus id status progressJson, _ =>
    let (b, mem) := mem.recordProgressIfStatus id status progressJson; (.ok (.bool b), mem)
  | .recordCapture input, _ => let (b, mem) := mem.recordCapture input; (.ok (.bool b), mem)
  | .recordComplete input, _ => let (result, mem) := recordComplete cfg mem input; (result.map .bool, mem)
  | .markKitTerminalFinalized id session, _ =>
    let (b, mem) := markKitTerminalFinalized now mem id session; (.ok (.bool b), mem)
  | .acknowledgeMcpArtifactCleanup id hostname artifactScope artifactPath, _ =>
    let (b, mem) := mem.acknowledgeMcpArtifactCleanup id hostname artifactScope artifactPath; (.ok (.bool b), mem)
  | .evictExpired, _ => let (n, mem) := evictExpired cfg now mem; (.ok (.count n), mem)

def step (mem : MemoryJobStore) (call : MemoryCall) : MemoryJobStore × Except String Ret :=
  let (result, mem) := perform call.1.cfg call.1.now mem call.1.op call.2
  (mem, result)

end MemoryJobStore

end LlmGateway.JobStore
