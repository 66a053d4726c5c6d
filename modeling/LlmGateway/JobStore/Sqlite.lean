import Mathlib.Data.List.Sort
import LlmGateway.Lib.Latest
import LlmGateway.Lib.Run
import LlmGateway.JobStore.Types

/-!
# The SQLite job store

`SqliteJobStore` (job-store.ts): every SQL statement as a function on the tables, every operation as one transaction,
whose tables are kept only when it does not throw.

* `Db` — the tables;
* `updateJob`, `updateJobs` — an UPDATE of the row with a key, or of all rows, under a WHERE clause;
* `recordStart`, `recordValidationRun`, `getById`, … — the operations and the reads.
-/

namespace LlmGateway.JobStore

open LlmGateway.Lib LlmGateway.Lib.IsoTime

/-- The tables, each with its primary key. -/
structure Db where
  jobs : Table JobRecord.id
  gatewayInstances : Table GatewayInstance.instanceId
  kitAttemptFences : Table KitAttemptFence.attemptId
  validationRuns : Table ValidationRunRecord.validationId
  validationRunJobs : Table ValidationRunJob.jobId
  validationReceipts : Table ValidationReceiptRecord.validationId

def Db.empty : Db := ⟨Table.empty, Table.empty, Table.empty, Table.empty, Table.empty, Table.empty⟩

/-! ## UPDATE statements on jobs -/

/-- `UPDATE jobs SET f WHERE p`, and the number of rows it affected. -/
def updateJobs (db : Db) (p : JobRecord → Bool) (f : JobRecord → JobRecord) (hf : ∀ r, (f r).id = r.id) : Db × ℕ :=
  ({ db with jobs := db.jobs.update p f hf }, db.jobs.count p)

/-- `UPDATE jobs SET f WHERE id = @id AND q` -/
def updateJob (db : Db) (id : String) (q : JobRecord → Bool) (f : JobRecord → JobRecord)
    (hf : ∀ r, (f r).id = r.id) : Db × ℕ :=
  updateJobs db (fun r => r.id == id && q r) f hf

/-! ## Admission of jobs -/

section Admission

variable (cfg : Config) (now : Clock)

/-- The row of SQL_INSERT. -/
def startRow (input : JobStartInput) : JobRecord :=
  let kit := input.kitExecution.isSome
  { id := input.id
    correlationId := input.correlationId
    requestKey := if kit then personalKitJobRequestKey input.id else input.requestKey
    cli := input.cli
    argsJson := if kit then PERSONAL_KIT_REDACTED_ARGS_JSON else input.args
    outputFormat := input.outputFormat
    compressResponse := input.compressResponse
    status := .queued
    exitCode := none
    stdout := ""
    stderr := ""
    outputTruncated := false
    error := none
    errorCategory := none
    retryable := none
    startedAt := input.startedAt
    finishedAt := none
    pid := input.pid
    expiresAt := FAR_FUTURE_ISO
    ownerPrincipal := input.ownerPrincipal
    transport := input.transport.getD .process
    httpStatus := none
    payloadJson := if kit then none else input.payloadJson
    ownerInstance := input.ownerInstance
    ownerHostname := input.ownerHostname
    mcpArtifactPath := if kit then none else input.mcpArtifactPath
    mcpArtifactScope := if kit then none else input.mcpArtifactScope
    mcpArtifactCleanupPending :=
      !kit && (truthyText input.mcpArtifactPath).isSome && (truthyText input.mcpArtifactScope).isSome
    leaseDeadline := some (now.db + cfg.leaseTtlMs)
    kitExecution := input.kitExecution
    kitSessionId := input.kitSessionId
    kitTerminalFinalized := false
    kitTerminalFinalizedAt := none
    progressJson := none
    cwdScope := if kit then none else input.cwd.map JobCwdRecord.scope
    cwdPath := if kit then none else input.cwd.bind JobCwdRecord.path
    workspaceAlias := if kit then none else input.cwd.bind JobCwdRecord.workspaceAlias
    replayContext := if kit then none else input.replayContext
    captureFormat := if kit then none else input.captureFormat
    capture := ⟨none, 0, none, 0, false, 0, none⟩ }

/-- `insertJob`; a Kit reference is written as its validated copy. -/
def insertJob (db : Db) (input : JobStartInput) : Except String Db :=
  match input.kitExecution.map cloneKitExecutionRef with
  | some (.error e) => .error e
  | _ =>
    match db.jobs.insert (startRow cfg now input) with
    | some jobs => .ok { db with jobs := jobs }
    | none => .error "UNIQUE constraint failed: jobs.id"

/-- `insertKitAttemptFence`: whether the fence was inserted. -/
def insertKitAttemptFence (db : Db) (input : KitAttemptFenceInput) (state : FenceState) : Except String (Bool × Db) :=
  match cloneKitExecutionRef input.kitExecution with
  | .error e => .error e
  | .ok kitExecution =>
    match db.kitAttemptFences.insert ⟨input.attemptId, state, input.cli, kitExecution, input.kitSessionId,
      input.ownerPrincipal, input.fencedAt⟩ with
    | some fences => .ok (true, { db with kitAttemptFences := fences })
    | none => .ok (false, db)

/-- `assertReviewJudgeClaim` -/
def assertReviewJudgeClaim (row : ValidationRunRecord) (provider : String) : Except String Unit :=
  if row.intent ≠ "review" ∨ row.status ≠ .running then
    .error "Validation run is not an open admitted review"
  else if row.judgeLink.isSome then
    .error "Validation review judge is already claimed"
  else
    match Json.parse row.requestJson with
    | none => .error "Validation review request is invalid"
    | some request =>
      if !(request.isObject && (request.field "judgeProvider").any (Json.isText provider)) then
        .error ("Validation review does not authorize judge " ++ provider)
      else if !((request.field "reviewAuthorization").any fun authorization =>
          authorization.isObject && (authorization.field "judgeProvider").any (Json.isText provider)) then
        .error ("Validation review authorization does not permit judge " ++ provider)
      else .ok ()

/-- A plain INSERT into the reverse index. -/
def insertRunJob (db : Db) (row : ValidationRunJob) : Except String Db :=
  match db.validationRunJobs.insert row with
  | some rows => .ok { db with validationRunJobs := rows }
  | none => .error "UNIQUE constraint failed: validation_run_jobs.job_id"

def updateRun (db : Db) (validationId : String) (f : ValidationRunRecord → ValidationRunRecord)
    (hf : ∀ r, (f r).validationId = r.validationId) : Db :=
  { db with validationRuns := db.validationRuns.update (fun r => r.validationId == validationId) f hf }

def setJudgeLink (link : ValidationRunLink) (r : ValidationRunRecord) : ValidationRunRecord :=
  { r with judgeLink := some link }

theorem setJudgeLink_validationId (link : ValidationRunLink) (r : ValidationRunRecord) :
    (setJudgeLink link r).validationId = r.validationId := rfl

def setProviderLinks (links : List ValidationRunLink) (r : ValidationRunRecord) : ValidationRunRecord :=
  { r with providerLinks := links }

theorem setProviderLinks_validationId (links : List ValidationRunLink) (r : ValidationRunRecord) :
    (setProviderLinks links r).validationId = r.validationId := rfl

def setStatus (status : ValidationRunStatus) (r : ValidationRunRecord) : ValidationRunRecord :=
  { r with status := status }

theorem setStatus_validationId (status : ValidationRunStatus) (r : ValidationRunRecord) :
    (setStatus status r).validationId = r.validationId := rfl

/-- `appendValidationJobLink` -/
def appendValidationJobLink (db : Db) (admission : ValidationJobAdmission) (link : ValidationRunLink)
    (ownerPrincipal : Option String) : Except String Db :=
  match db.validationRuns.get admission.validationId with
  | none => .error "Validation run is missing or owned by another principal"
  | some row =>
    if some row.ownerPrincipal ≠ ownerPrincipal then
      .error "Validation run is missing or owned by another principal"
    else
      match admission.role.getD .provider with
      | .judge =>
        match assertReviewJudgeClaim row admission.provider with
        | .error e => .error e
        | .ok () =>
          insertRunJob (updateRun db admission.validationId (setJudgeLink link) (setJudgeLink_validationId link))
            ⟨link.jobId, admission.validationId, .judge⟩
      | .provider =>
        if row.intent ≠ "review" ∨ row.status ≠ .admitting then
          .error "Validation review run is not admitting provider jobs"
        else if row.providerLinks.any fun existing => existing.provider == admission.provider then
          .error ("Validation provider " ++ admission.provider ++ " is already admitted")
        else
          insertRunJob
            (updateRun db admission.validationId (setProviderLinks (row.providerLinks ++ [link]))
              (setProviderLinks_validationId (row.providerLinks ++ [link])))
            ⟨link.jobId, admission.validationId, .provider⟩

/-- A Kit admission: the fence and the job, or neither. -/
def recordKitStart (db : Db) (input : JobStartInput) (kitExecution : KitExecutionRef) : Except String Db :=
  let kitSessionId := JsText.trim (input.kitSessionId.getD "")
  if kitSessionId = "" then .error "Kit job admission requires a gateway kitSessionId"
  else
    match insertKitAttemptFence db ⟨input.id, input.cli, kitExecution, kitSessionId, input.ownerPrincipal,
      input.startedAt⟩ .admitted with
    | .error e => .error e
    | .ok (false, _) => .error ("Kit job id " ++ input.id ++ " is already admitted or permanently recovered")
    | .ok (true, db) => insertJob cfg now db input

/-- An admission to a validation run: the job and its link, or neither. -/
def recordValidationStart (db : Db) (input : JobStartInput) (admission : ValidationJobAdmission) : Except String Db :=
  match insertJob cfg now db input with
  | .error e => .error e
  | .ok db =>
    appendValidationJobLink db admission ⟨admission.provider, input.id, input.correlationId⟩ input.ownerPrincipal

def recordStart (db : Db) (input : JobStartInput) : Except String Db :=
  match assertMcpArtifactAdmissionInvariant input with
  | .error e => .error e
  | .ok () =>
    match input.validationAdmission, input.kitExecution with
    | none, none => insertJob cfg now db input
    | some _, some _ => .error "Validation job admission cannot be combined with a Kit execution"
    | some admission, none => recordValidationStart cfg now db input admission
    | none, some kitExecution => recordKitStart cfg now db input kitExecution

def fenceUnadmittedKitAttempt (db : Db) (input : KitAttemptFenceInput) : Except String (KitAttemptFenceResult × Db) :=
  match insertKitAttemptFence db input .recovered with
  | .error e => .error e
  | .ok (true, db) => .ok (.reserved, db)
  | .ok (false, db) =>
    match (db.kitAttemptFences.get input.attemptId).filter fun existing => existing.state == .recovered &&
        existing.cli == input.cli && existing.kitSessionId == input.kitSessionId &&
        recoveredFenceOwnerMatches existing.ownerPrincipal input.ownerPrincipal &&
        isKitExecutionRef existing.kitExecution with
    | none => .ok (.conflict, db)
    | some existing =>
      match sameKitExecutionRef existing.kitExecution input.kitExecution with
      | .error e => .error e
      | .ok true => .ok (.already_recovered, db)
      | .ok false => .ok (.conflict, db)

end Admission

/-! ## Leases and instances -/

section Leases

variable (cfg : Config) (now : Clock)

def setRunning (pid : Option ℤ) (lease : ℤ) (r : JobRecord) : JobRecord :=
  { r with status := .running, pid := pid, leaseDeadline := some lease }

theorem setRunning_id (pid : Option ℤ) (lease : ℤ) (r : JobRecord) : (setRunning pid lease r).id = r.id := rfl

/-- Whether a queued row was moved to running. -/
def markRunning (db : Db) (id : String) (pid : Option ℤ) : Bool × Db :=
  let (db, changes) := updateJob db id (fun r => r.status == .queued) (setRunning pid (now.db + cfg.leaseTtlMs))
    (setRunning_id pid (now.db + cfg.leaseTtlMs))
  (decide (changes > 0), db)

def registerInstance (db : Db) (info : GatewayInstanceMeta) : Db :=
  let startedAt := match db.gatewayInstances.get info.instanceId with
    | some existing => existing.startedAt
    | none => now.db
  { db with
    gatewayInstances := db.gatewayInstances.set ⟨info.instanceId, info.role, info.hostname, info.pid, startedAt, now.db⟩ }

def setHeartbeat (at' : ℤ) (g : GatewayInstance) : GatewayInstance := { g with lastHeartbeat := at' }

theorem setHeartbeat_id (at' : ℤ) (g : GatewayInstance) : (setHeartbeat at' g).instanceId = g.instanceId := rfl

def setLease (lease : ℤ) (r : JobRecord) : JobRecord := { r with leaseDeadline := some lease }

theorem setLease_id (lease : ℤ) (r : JobRecord) : (setLease lease r).id = r.id := rfl

def heartbeat (db : Db) (instanceId : String) : HeartbeatOutcome × Db :=
  let refreshed := db.gatewayInstances.count fun g => g.instanceId == instanceId
  let db := { db with
    gatewayInstances := db.gatewayInstances.update (fun g => g.instanceId == instanceId) (setHeartbeat now.db)
      (setHeartbeat_id now.db) }
  let (db, changes) := updateJobs db (fun r => r.ownerInstance == some instanceId && r.status.isOpen)
    (setLease (now.db + cfg.leaseTtlMs)) (setLease_id (now.db + cfg.leaseTtlMs))
  (⟨decide (refreshed > 0), changes⟩, db)

def deregisterInstance (db : Db) (instanceId : String) : Db :=
  { db with gatewayInstances := db.gatewayInstances.delete fun g => g.instanceId == instanceId }

/-- `strftime('%Y-%m-%dT%H:%M:%fZ', ms)`, NULL outside the years it can write. -/
def strftimeIso (ms : ℤ) : Option String := if Narrow ms then some (isoText ms) else none

def setAdvanced (lease : ℤ) (r : JobRecord) : JobRecord := { r with leaseDeadline := some lease, pid := none }

theorem setAdvanced_id (lease : ℤ) (r : JobRecord) : (setAdvanced lease r).id = r.id := rfl

/-- SQL_ADVANCE_LEASE, for the rows a probe found alive. -/
def advanceLease (db : Db) (leaseTtlMs : ℤ) (ids : List String) : Db :=
  (updateJobs db (fun r => r.status.isOpen && ids.contains r.id) (setAdvanced (now.db + leaseTtlMs))
    (setAdvanced_id (now.db + leaseTtlMs))).1

/-- The WHERE clause of SQL_ORPHAN_EXPIRED. -/
def orphanable (httpJobGraceMs : ℕ) (exclude : List String) (r : JobRecord) : Bool :=
  r.status.isOpen && r.leaseDeadline.all (fun d => decide (d < (now.db : ℤ))) &&
    (r.transport != .http || (strftimeIso (now.db - httpJobGraceMs)).any fun cutoff => decide (r.startedAt < cutoff)) &&
    !exclude.contains r.id

def setOrphaned (nowIso expiresIso : String) (r : JobRecord) : JobRecord :=
  let kit := r.kitExecution.isSome
  { r with
    status := .orphaned
    stdout := if kit then "" else r.stdout
    stderr := if kit then "" else r.stderr
    payloadJson := if kit then none else r.payloadJson
    error := if kit then some PERSONAL_KIT_FAILURE_WITHHELD
      else some (r.error.getD "owning gateway instance is no longer alive")
    finishedAt := some (r.finishedAt.getD nowIso)
    expiresAt := expiresIso
    leaseDeadline := none }

theorem setOrphaned_id (nowIso expiresIso : String) (r : JobRecord) : (setOrphaned nowIso expiresIso r).id = r.id := rfl

/-- The RETURNING clause of SQL_ORPHAN_EXPIRED. -/
def snapshot (r : JobRecord) : OrphanedJobSnapshot :=
  ⟨r.id, r.correlationId, r.startedAt, r.stdout, r.stderr, r.exitCode, r.transport, r.httpStatus, r.kitExecution.isSome⟩

def recoverStaleJobs (db : Db) (leaseTtlMs : ℤ) (httpJobGraceMs : ℕ) (liveConfirmedIds : List String) :
    Except String (List OrphanedJobSnapshot × Db) :=
  let db := if liveConfirmedIds.isEmpty then db else advanceLease now db leaseTtlMs liveConfirmedIds
  match retentionExpiryAt now.date cfg.retentionMs with
  | .error e => .error e
  | .ok expiresIso =>
    let p := orphanable now httpJobGraceMs liveConfirmedIds
    let f := setOrphaned now.nowIso expiresIso
    .ok ((db.jobs.select p).map (snapshot ∘ f), (updateJobs db p f (setOrphaned_id now.nowIso expiresIso)).1)

/-- The WHERE clause of SQL_RECONCILE_CAPTURE_ACCOUNTING. -/
def unaccounted (instances : Table GatewayInstance.instanceId) (r : JobRecord) : Bool :=
  !r.status.isOpen && r.kitExecution.isNone && r.capture.captureStatus.isNone &&
    r.ownerInstance.any fun owner => !instances.rows.any fun g => g.instanceId == owner

def setUnaccounted (r : JobRecord) : JobRecord :=
  { r with
    capture := { r.capture with
      captureStatus := some .not_captured
      captureError := some CAPTURE_ACCOUNTING_RECOVERY_ERROR } }

theorem setUnaccounted_id (r : JobRecord) : (setUnaccounted r).id = r.id := rfl

def gcInstances (db : Db) (instanceGcMs : ℤ) : ℕ × Db :=
  let stale (g : GatewayInstance) : Bool := decide (g.lastHeartbeat < now.db - instanceGcMs)
  let removed := db.gatewayInstances.count stale
  let db := { db with gatewayInstances := db.gatewayInstances.delete stale }
  (removed, (updateJobs db (unaccounted db.gatewayInstances) setUnaccounted setUnaccounted_id).1)

end Leases

/-! ## Output, progress and completion -/

section Completion

variable (cfg : Config) (now : Clock)

def setOutput (stdout stderr : String) (outputTruncated : Bool) (r : JobRecord) : JobRecord :=
  { r with
    stdout := if r.kitExecution.isNone then stdout else ""
    stderr := if r.kitExecution.isNone then stderr else ""
    outputTruncated := outputTruncated }

theorem setOutput_id (stdout stderr : String) (outputTruncated : Bool) (r : JobRecord) :
    (setOutput stdout stderr outputTruncated r).id = r.id := rfl

def recordOutput (db : Db) (id stdout stderr : String) (outputTruncated : Bool)
    (expectedStatuses : List JobStoreStatus) : Bool × Db :=
  let (db, changes) := updateJob db id (fun r => expectedStatuses.contains r.status)
    (setOutput stdout stderr outputTruncated) (setOutput_id stdout stderr outputTruncated)
  (decide (changes > 0), db)

def setProgress (progressJson : String) (r : JobRecord) : JobRecord := { r with progressJson := some progressJson }

theorem setProgress_id (progressJson : String) (r : JobRecord) : (setProgress progressJson r).id = r.id := rfl

def recordProgress (db : Db) (id progressJson : String) : Db :=
  (updateJob db id (fun _ => true) (setProgress progressJson) (setProgress_id progressJson)).1

def recordProgressIfStatus (db : Db) (id : String) (status : JobStoreStatus) (progressJson : String) : Bool × Db :=
  let (db, changes) := updateJob db id (fun r => r.status == status) (setProgress progressJson)
    (setProgress_id progressJson)
  (decide (changes = 1), db)

def CaptureInput.toCapture (c : CaptureInput) : JobCapture :=
  ⟨some c.captureStatus, c.outputDroppedBytes, c.nativeTranscript, c.nativeTranscriptBytes,
    c.nativeTranscriptTruncated, c.nativeTranscriptDroppedBytes, c.captureError⟩

/-- The WHERE clause of SQL_UPDATE_CAPTURE, its key apart. -/
def capturable (ownerInstance : String) (r : JobRecord) : Bool :=
  r.ownerInstance == some ownerInstance && r.kitExecution.isNone &&
    (r.capture.captureStatus.isNone ||
      (r.capture.captureStatus == some .not_captured &&
        r.capture.captureError == some CAPTURE_ACCOUNTING_RECOVERY_ERROR)) &&
    r.status.isSettled

def setCapture (c : CaptureInput) (r : JobRecord) : JobRecord :=
  let kit := r.kitExecution.isSome
  { r with
    capture :=
      { captureStatus := some c.captureStatus
        outputDroppedBytes := c.outputDroppedBytes
        nativeTranscript := if kit then none else c.nativeTranscript
        nativeTranscriptBytes := if kit then 0 else c.nativeTranscriptBytes
        nativeTranscriptTruncated := if kit then false else c.nativeTranscriptTruncated
        nativeTranscriptDroppedBytes := if kit then 0 else c.nativeTranscriptDroppedBytes
        captureError := c.captureError } }

theorem setCapture_id (c : CaptureInput) (r : JobRecord) : (setCapture c r).id = r.id := rfl

def recordCapture (db : Db) (input : JobCaptureInput) : Bool × Db :=
  let (db, changes) := updateJob db input.id (capturable input.ownerInstance) (setCapture input.capture)
    (setCapture_id input.capture)
  (decide (changes = 1), db)

def setComplete (input : JobCompletionInput) (expiresAt : String) (r : JobRecord) : JobRecord :=
  let kit := r.kitExecution.isSome
  { r with
    status := input.status.toStatus
    exitCode := input.exitCode
    stdout := if kit then "" else input.stdout
    stderr := if kit then "" else input.stderr
    outputTruncated := input.outputTruncated
    error := if kit then (if input.status = .completed then none else some PERSONAL_KIT_FAILURE_WITHHELD)
      else input.error
    errorCategory := input.errorCategory
    retryable := input.retryable
    finishedAt := some input.finishedAt
    expiresAt := expiresAt
    httpStatus := input.httpStatus.getD none
    leaseDeadline := none
    progressJson := input.progressJson.orElse fun _ => r.progressJson
    capture :=
      if !kit && r.capture.captureStatus.isNone then
        match input.capture with
        | some c => c.toCapture
        | none => r.capture
      else r.capture }

theorem setComplete_id (input : JobCompletionInput) (expiresAt : String) (r : JobRecord) :
    (setComplete input expiresAt r).id = r.id := rfl

/-- `status IN ('queued', 'running', 'orphaned')` -/
def completable (r : JobRecord) : Bool := !r.status.isSettled

/-- Whether the completion landed.  The expiry is computed before the statement runs. -/
def recordComplete (db : Db) (input : JobCompletionInput) : Except String (Bool × Db) :=
  match retentionExpiryIso cfg input.finishedAt with
  | .error e => .error e
  | .ok expiresAt =>
    let (db, changes) := updateJob db input.id completable (setComplete input expiresAt) (setComplete_id input expiresAt)
    .ok (decide (changes = 1), db)

/-- The WHERE clause of SQL_MARK_KIT_TERMINAL_FINALIZED, its key apart. -/
def finalizable (kitSessionId : String) (r : JobRecord) : Bool :=
  r.kitSessionId == some kitSessionId && r.kitExecution.isSome && r.status.isSettled

def setFinalized (nowIso : String) (r : JobRecord) : JobRecord :=
  { r with kitTerminalFinalized := true, kitTerminalFinalizedAt := some (r.kitTerminalFinalizedAt.getD nowIso) }

theorem setFinalized_id (nowIso : String) (r : JobRecord) : (setFinalized nowIso r).id = r.id := rfl

def markKitTerminalFinalized (db : Db) (id kitSessionId : String) : Bool × Db :=
  let (db, changes) := updateJob db id (finalizable kitSessionId) (setFinalized now.nowIso) (setFinalized_id now.nowIso)
  (decide (changes > 0), db)

/-- The WHERE clause of SQL_ACKNOWLEDGE_MCP_ARTIFACT_CLEANUP, its key apart. -/
def acknowledgeable (hostname artifactScope artifactPath : String) (r : JobRecord) : Bool :=
  r.ownerHostname == some hostname && r.mcpArtifactScope == some artifactScope &&
    r.mcpArtifactPath == some artifactPath && r.mcpArtifactCleanupPending && !r.status.isOpen

def setAcknowledged (r : JobRecord) : JobRecord := { r with mcpArtifactCleanupPending := false }

theorem setAcknowledged_id (r : JobRecord) : (setAcknowledged r).id = r.id := rfl

def acknowledgeMcpArtifactCleanup (db : Db) (id hostname artifactScope artifactPath : String) : Bool × Db :=
  let (db, changes) := updateJob db id (acknowledgeable hostname artifactScope artifactPath) setAcknowledged
    setAcknowledged_id
  (decide (changes = 1), db)

/-- The WHERE clause of SQL_DELETE_EXPIRED. -/
def expired (nowIso : String) (r : JobRecord) : Bool :=
  decide (r.expiresAt < nowIso) && (r.kitExecution.isNone || r.kitTerminalFinalized) && !r.mcpArtifactCleanupPending

def evictExpired (db : Db) : ℕ × Db :=
  match cfg.retentionMs with
  | none => (0, db)
  | some _ => (db.jobs.count (expired now.nowIso), { db with jobs := db.jobs.delete (expired now.nowIso) })

end Completion

/-! ## Validation runs and receipts -/

section Validation

/-- `linkRunJob`: INSERT OR IGNORE into the reverse index. -/
def linkRunJob (db : Db) (validationId jobId : String) (role : ValidationRole) : Db :=
  { db with validationRunJobs := db.validationRunJobs.insertOrIgnore ⟨jobId, validationId, role⟩ }

/-- The statements run one after the other; nothing in them throws. -/
def recordValidationRun (db : Db) (run : ValidationRunRecord) : Db :=
  run.providerLinks.foldl (fun db link => linkRunJob db run.validationId link.jobId .provider)
    { db with validationRuns := db.validationRuns.insertOrIgnore run }

/-- The INSERTs of `setValidationProviderLinks`. -/
def insertProviderLinks (db : Db) (validationId : String) : List ValidationRunLink → Except String Db
  | [] => .ok db
  | link :: links =>
    match insertRunJob db ⟨link.jobId, validationId, .provider⟩ with
    | .error e => .error e
    | .ok db => insertProviderLinks db validationId links

def setValidationProviderLinks (db : Db) (validationId : String) (providerLinks : List ValidationRunLink) :
    Except String Db :=
  match db.validationRuns.get validationId with
  | none => .error ("Unknown validation run: " ++ validationId)
  | some _ =>
    let db := updateRun db validationId (setProviderLinks providerLinks) (setProviderLinks_validationId providerLinks)
    let db := { db with
      validationRunJobs :=
        db.validationRunJobs.delete fun j => j.validationId == validationId && j.role == .provider }
    insertProviderLinks db validationId providerLinks

def setValidationJudgeLink (db : Db) (validationId : String) (judgeLink : ValidationRunLink) : Except String Db :=
  match (db.validationRuns.get validationId).filter fun r => r.status == .running && r.judgeLink.isNone &&
      (db.validationReceipts.get validationId).isNone with
  | none => .error "Validation judge link is not open for a one-shot claim"
  | some _ =>
    .ok (linkRunJob (updateRun db validationId (setJudgeLink judgeLink) (setJudgeLink_validationId judgeLink)) validationId
      judgeLink.jobId .judge)

def transitionValidationRunStatus (db : Db) (validationId ownerPrincipal : String)
    (expectedStatus status : ValidationRunStatus) : Bool × Db :=
  let p (r : ValidationRunRecord) : Bool :=
    r.validationId == validationId && (r.ownerPrincipal == ownerPrincipal && r.status == expectedStatus)
  (decide (db.validationRuns.count p = 1),
    { db with validationRuns := db.validationRuns.update p (setStatus status) (setStatus_validationId status) })

def skipValidationJudge (db : Db) (validationId provider ownerPrincipal : String) : Except String Db :=
  match db.validationRuns.get validationId with
  | none => .error "Validation run is missing or owned by another principal"
  | some row =>
    if row.ownerPrincipal ≠ ownerPrincipal then
      .error "Validation run is missing or owned by another principal"
    else
      match assertReviewJudgeClaim row provider with
      | .error e => .error e
      | .ok () => .ok (updateRun db validationId (setStatus .judge_skipped) (setStatus_validationId .judge_skipped))

def finalizeValidationReceipt (db : Db) (receipt : ValidationReceiptRecord) :
    Except String (ValidationReceiptRecord × Db) :=
  let db := { db with validationReceipts := db.validationReceipts.insertOrIgnore receipt }
  let p (r : ValidationRunRecord) : Bool :=
    r.validationId == receipt.validationId && r.ownerPrincipal == receipt.ownerPrincipal
  if db.validationRuns.count p ≠ 1 then
    .error ("Validation run " ++ receipt.validationId ++ " is missing or owned by another principal; " ++
      "the receipt was not minted")
  else
    let db := { db with
      validationRuns := db.validationRuns.update p (setStatus .finalized) (setStatus_validationId .finalized) }
    match db.validationReceipts.get receipt.validationId with
    | none => .error ("Validation receipt for " ++ receipt.validationId ++ " was not readable after its own insert")
    | some stored => .ok (stored, db)

/-- WHERE_WEDGED: an old run that is not finalized and of whose linked jobs none is left. -/
def wedged (db : Db) (createdBeforeIso : String) (r : ValidationRunRecord) : Bool :=
  r.status != .finalized && decide (r.createdAt < createdBeforeIso) &&
    !db.validationRunJobs.rows.any fun vrj =>
      vrj.validationId == r.validationId && db.jobs.rows.any fun j => j.id == vrj.jobId

/-- `LIMIT n`: a negative number is no limit. -/
def sqlLimit {α : Type} (n : ℤ) (rows : List α) : List α := if n < 0 then rows else rows.take n.toNat

/-- SQL_SELECT_WEDGED_VALIDATION_RUNS -/
def selectWedged (db : Db) (createdBeforeIso : String) (limit : ℤ) : List String :=
  (sqlLimit limit ((db.validationRuns.select (wedged db createdBeforeIso)).insertionSort
    fun a b => a.createdAt ≤ b.createdAt)).map ValidationRunRecord.validationId

def evictWedgedValidationRuns (db : Db) (createdBeforeIso : String) (limit : ℤ) : ℕ × Db :=
  let ids := selectWedged db createdBeforeIso limit
  (db.validationRuns.count fun r => ids.contains r.validationId,
    { db with
      validationRunJobs := db.validationRunJobs.delete fun j => ids.contains j.validationId
      validationRuns := db.validationRuns.delete fun r => ids.contains r.validationId })

end Validation

/-! ## Reads -/

section Reads

def parseKitSessionId (value : Option String) : Option String := truthyText (value.map JsText.trim)

/-- The record of a row: the columns that are decoded are checked again. -/
def rowToRecord (row : JobRecord) : JobRecord :=
  { row with
    kitExecution := row.kitExecution.filter isKitExecutionRef
    kitSessionId := parseKitSessionId row.kitSessionId
    replayContext := row.replayContext.bind parseJobReplayContext }

def getById (db : Db) (id : String) : Option JobRecord := (db.jobs.get id).map rowToRecord

/-- `ORDER BY started_at DESC LIMIT 1` -/
def latestStarted (rows : List JobRecord) : Option JobRecord :=
  latest (fun a b => decide (b.startedAt < a.startedAt)) rows

/-- The WHERE clause of SQL_FIND_BY_REQUEST_KEY. -/
def reusable (now : Clock) (requestKey cutoff : String) (r : JobRecord) : Bool :=
  r.requestKey == requestKey && decide (r.startedAt ≥ cutoff) &&
    (r.status == .running || r.status == .completed ||
      (r.status == .queued && r.leaseDeadline.any fun d => decide (d ≥ (now.db : ℤ))))

def findByRequestKey (cfg : Config) (now : Clock) (db : Db) (requestKey : String) : Except String (Option JobRecord) :=
  match dateIso (now.date - cfg.dedupWindowMs) with
  | .error e => .error e
  | .ok cutoff => .ok ((latestStarted (db.jobs.select (reusable now requestKey cutoff))).map rowToRecord)

/-- `ORDER BY finished_at ASC, id ASC`, NULL first. -/
def finishedOrder (a b : JobRecord) : Prop :=
  match a.finishedAt, b.finishedAt with
  | none, none => a.id ≤ b.id
  | none, some _ => True
  | some _, none => False
  | some x, some y => x < y ∨ x = y ∧ a.id ≤ b.id

instance (a b : JobRecord) : Decidable (finishedOrder a b) := by
  unfold finishedOrder
  split <;> infer_instance

/-- The WHERE clause the two Kit selections share. -/
def kitSettled (finalized : Bool) (r : JobRecord) : Bool :=
  r.kitExecution.isSome && r.kitSessionId.isSome && r.kitTerminalFinalized == finalized && r.status.isSettled

def getPendingKitFinalizations (db : Db) : List PendingKitFinalization :=
  ((db.jobs.select (kitSettled false)).insertionSort finishedOrder).filterMap (toPendingKitFinalization ∘ rowToRecord)

def getAcknowledgedKitAttemptReleases (db : Db) : List AcknowledgedKitAttemptRelease :=
  ((db.jobs.select (kitSettled true)).insertionSort finishedOrder).filterMap
    (toAcknowledgedKitAttemptRelease ∘ rowToRecord)

def getPinnedKitReleaseIds (db : Db) : List String :=
  ((db.jobs.select fun r => r.kitExecution.isSome && (r.status.isOpen || (!r.status.isOpen && !r.kitTerminalFinalized))
    ).filterMap fun r => (r.kitExecution.filter isKitExecutionRef).map KitExecutionRef.releaseId).dedup.insertionSort
      (· ≤ ·)

def getValidationRunIdByJobId (db : Db) (jobId : String) : Option String :=
  (db.validationRunJobs.get jobId).map ValidationRunJob.validationId

end Reads

/-! ## Runs -/

inductive Op where
  | recordStart (input : JobStartInput)
  | fenceUnadmittedKitAttempt (input : KitAttemptFenceInput)
  | markRunning (id : String) (pid : Option ℤ)
  | registerInstance (info : GatewayInstanceMeta)
  | heartbeat (instanceId : String)
  | deregisterInstance (instanceId : String)
  | recoverStaleJobs (leaseTtlMs : ℤ) (httpJobGraceMs : ℕ) (liveConfirmedIds : List String)
  | gcInstances (instanceGcMs : ℤ)
  | recordOutput (id stdout stderr : String) (outputTruncated : Bool) (expectedStatuses : List JobStoreStatus)
  | recordProgress (id progressJson : String)
  | recordProgressIfStatus (id : String) (status : JobStoreStatus) (progressJson : String)
  | recordCapture (input : JobCaptureInput)
  | recordComplete (input : JobCompletionInput)
  | markKitTerminalFinalized (id kitSessionId : String)
  | acknowledgeMcpArtifactCleanup (id hostname artifactScope artifactPath : String)
  | evictExpired
  | recordValidationRun (run : ValidationRunRecord)
  | setValidationProviderLinks (validationId : String) (providerLinks : List ValidationRunLink)
  | setValidationJudgeLink (validationId : String) (judgeLink : ValidationRunLink)
  | transitionValidationRunStatus (validationId ownerPrincipal : String) (expectedStatus status : ValidationRunStatus)
  | skipValidationJudge (validationId provider ownerPrincipal : String)
  | finalizeValidationReceipt (receipt : ValidationReceiptRecord)
  | evictWedgedValidationRuns (createdBeforeIso : String) (limit : ℤ)

/-- What an operation returns. -/
inductive Ret where
  | unit
  | bool (b : Bool)
  | count (n : ℕ)
  | heartbeat (outcome : HeartbeatOutcome)
  | snapshots (orphaned : List OrphanedJobSnapshot)
  | fence (result : KitAttemptFenceResult)
  | receipt (stored : ValidationReceiptRecord)
  deriving DecidableEq

/-- An operation of one of the store instances, at its clocks. -/
structure Call where
  cfg : Config
  now : Clock
  op : Op

/-- The operation, with the tables it leaves. -/
def perform (cfg : Config) (now : Clock) (db : Db) : Op → Except String (Ret × Db)
  | .recordStart input => (recordStart cfg now db input).map fun db => (.unit, db)
  | .fenceUnadmittedKitAttempt input =>
    (fenceUnadmittedKitAttempt db input).map fun (result, db) => (.fence result, db)
  | .markRunning id pid => let (b, db) := markRunning cfg now db id pid; .ok (.bool b, db)
  | .registerInstance info => .ok (.unit, registerInstance now db info)
  | .heartbeat instanceId => let (outcome, db) := heartbeat cfg now db instanceId; .ok (.heartbeat outcome, db)
  | .deregisterInstance instanceId => .ok (.unit, deregisterInstance db instanceId)
  | .recoverStaleJobs ttl grace live =>
    (recoverStaleJobs cfg now db ttl grace live).map fun (orphaned, db) => (.snapshots orphaned, db)
  | .gcInstances ms => let (n, db) := gcInstances now db ms; .ok (.count n, db)
  | .recordOutput id stdout stderr truncated expected =>
    let (b, db) := recordOutput db id stdout stderr truncated expected; .ok (.bool b, db)
  | .recordProgress id progressJson => .ok (.unit, recordProgress db id progressJson)
  | .recordProgressIfStatus id status progressJson =>
    let (b, db) := recordProgressIfStatus db id status progressJson; .ok (.bool b, db)
  | .recordCapture input => let (b, db) := recordCapture db input; .ok (.bool b, db)
  | .recordComplete input => (recordComplete cfg db input).map fun (b, db) => (.bool b, db)
  | .markKitTerminalFinalized id session =>
    let (b, db) := markKitTerminalFinalized now db id session; .ok (.bool b, db)
  | .acknowledgeMcpArtifactCleanup id hostname artifactScope artifactPath =>
    let (b, db) := acknowledgeMcpArtifactCleanup db id hostname artifactScope artifactPath; .ok (.bool b, db)
  | .evictExpired => let (n, db) := evictExpired cfg now db; .ok (.count n, db)
  | .recordValidationRun run => .ok (.unit, recordValidationRun db run)
  | .setValidationProviderLinks id links => (setValidationProviderLinks db id links).map fun db => (.unit, db)
  | .setValidationJudgeLink id link => (setValidationJudgeLink db id link).map fun db => (.unit, db)
  | .transitionValidationRunStatus id owner expected status =>
    let (b, db) := transitionValidationRunStatus db id owner expected status; .ok (.bool b, db)
  | .skipValidationJudge id provider owner => (skipValidationJudge db id provider owner).map fun db => (.unit, db)
  | .finalizeValidationReceipt receipt =>
    (finalizeValidationReceipt db receipt).map fun (stored, db) => (.receipt stored, db)
  | .evictWedgedValidationRuns before limit =>
    let (n, db) := evictWedgedValidationRuns db before limit; .ok (.count n, db)

/-- One transaction: committed, or rolled back when the operation throws. -/
def step (db : Db) (call : Call) : Db × Except String Ret :=
  match perform call.cfg call.now db call.op with
  | .ok (ret, db') => (db', .ok ret)
  | .error e => (db, .error e)

end LlmGateway.JobStore
