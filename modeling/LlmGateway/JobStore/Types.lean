import Mathlib.Algebra.Order.Ring.Rat
import LlmGateway.Lib.IsoTime
import LlmGateway.Lib.JsText
import LlmGateway.Lib.Json
import LlmGateway.Lib.Table

/-!
# The rows of the job store

The tables of job-store.ts, the values its operations take and return, and the pure functions they share.

* `JobRecord`, `KitAttemptFence`, `ValidationRunRecord`, … — the rows, their columns under the names the records have;
* `JobCapture` — the columns of capture accounting, which are written together.

A column that holds JSON is modelled by the value it encodes, the request of a validation run apart, which is a text
of the caller's.  The column kit_terminal_metadata_json is always NULL and left out.
-/

namespace LlmGateway.JobStore

open LlmGateway.Lib LlmGateway.Lib.IsoTime

/-! ## Enumerations -/

inductive JobStoreStatus where
  | queued
  | running
  | completed
  | failed
  | canceled
  | orphaned
  deriving DecidableEq

/-- `Exclude<JobStoreStatus, "queued" | "running">` -/
inductive TerminalJobStoreStatus where
  | completed
  | failed
  | canceled
  | orphaned
  deriving DecidableEq

def TerminalJobStoreStatus.toStatus : TerminalJobStoreStatus → JobStoreStatus
  | completed => .completed
  | failed => .failed
  | canceled => .canceled
  | orphaned => .orphaned

namespace JobStoreStatus

/-- `status IN ('queued', 'running')` -/
def isOpen : JobStoreStatus → Bool
  | queued | running => true
  | _ => false

/-- `status IN ('completed', 'failed', 'canceled')` -/
def isSettled : JobStoreStatus → Bool
  | completed | failed | canceled => true
  | _ => false

end JobStoreStatus

inductive JobTransport where
  | process
  | http
  deriving DecidableEq

inductive CaptureStatus where
  | captured_whole
  | captured_to_limit
  | not_captured
  deriving DecidableEq

inductive JobCwdScope where
  | caller
  | workspace
  | worktree
  | neutral
  | unknown
  deriving DecidableEq

structure JobCwdRecord where
  scope : JobCwdScope
  path : Option String
  workspaceAlias : Option String
  deriving DecidableEq

/-! ## Kit executions -/

/-- The immutable identity of a Kit execution; `version` is always 1. -/
structure KitExecutionRef where
  releaseId : String
  configStamp : String
  scopeRoot : Option String
  scopeHead : Option String
  contextIdentity : String
  deriving DecidableEq

def isNonEmptyString (s : String) : Bool := !JsText.isBlank s

def isKitExecutionRef (value : KitExecutionRef) : Bool :=
  isNonEmptyString value.releaseId && isNonEmptyString value.configStamp &&
    value.scopeRoot.all isNonEmptyString && value.scopeHead.all isNonEmptyString &&
    isNonEmptyString value.contextIdentity

def cloneKitExecutionRef (value : KitExecutionRef) : Except String KitExecutionRef :=
  if isKitExecutionRef value then .ok value
  else .error "Invalid Personal Agent Config Kit execution reference"

/-- Equality of the identities, each taken from a validated copy. -/
def sameKitExecutionRef (left right : KitExecutionRef) : Except String Bool := do
  let left ← cloneKitExecutionRef left
  let right ← cloneKitExecutionRef right
  return left == right

def personalKitJobRequestKey (jobId : String) : String := "kit:" ++ jobId

def PERSONAL_KIT_REDACTED_ARGS_JSON : List String := ["[personal-config-kit arguments redacted]"]

def PERSONAL_KIT_FAILURE_WITHHELD : String :=
  "Personal Agent Config Kit provider execution failed; detailed output is withheld"

def CAPTURE_ACCOUNTING_RECOVERY_ERROR : String := "Gateway stopped before capture accounting completed"

/-! ## Principals -/

def principalCanAccess (rowOwner : Option String) (caller : String) : Bool :=
  rowOwner == some caller || (rowOwner == none && caller == "local")

def recoveredFenceOwnerMatches (storedOwner callerOwner : Option String) : Bool :=
  match callerOwner with
  | some caller => principalCanAccess storedOwner caller
  | none => false

/-! ## Replay contexts -/

inductive InstructionDigestStatus where
  | captured
  | too_large
  | unreadable
  deriving DecidableEq

structure JobInstructionDigest where
  path : String
  sha256 : Option String
  sourceBytes : Option ℕ
  effectiveBytes : ℕ
  effectiveLimitBytes : Option ℕ
  truncated : Bool
  status : InstructionDigestStatus
  deriving DecidableEq

/-- The admission evidence of a job; `version` is always 1. -/
structure JobReplayContext where
  instructionFiles : List JobInstructionDigest
  repositoryHead : Option String
  deriving DecidableEq

def MAX_RULE_FILES : ℕ := 256
def MAX_REPLAY_PATH_CHARS : ℕ := 32 * 1024
def MAX_REPLAY_CONTEXT_CHARS : ℕ := 20 * 1024 * 1024

namespace JobReplayContext

/-- The width of an optional value: `null`, or the value's own. -/
def nullOr {α : Type} (width : α → ℕ) : Option α → ℕ
  | none => 4
  | some x => width x

def numberWidth (n : ℕ) : ℕ := (toString n).length

def statusWidth : InstructionDigestStatus → ℕ
  | .captured => "\"captured\"".length
  | .too_large => "\"too_large\"".length
  | .unreadable => "\"unreadable\"".length

/-- `JSON.stringify(digest).length` -/
def digestWidth (d : JobInstructionDigest) : ℕ :=
  "\x7b\"path\":,\"sha256\":,\"sourceBytes\":,\"effectiveBytes\":,\"effectiveLimitBytes\":,\"truncated\":,\"status\":\x7d".length +
    JsText.quotedLength d.path + nullOr JsText.quotedLength d.sha256 + nullOr numberWidth d.sourceBytes +
    numberWidth d.effectiveBytes + nullOr numberWidth d.effectiveLimitBytes + (if d.truncated then 4 else 5) +
    statusWidth d.status

/-- `JSON.stringify(context).length` -/
def width (c : JobReplayContext) : ℕ :=
  "\x7b\"version\":1,\"instructionFiles\":[],\"repositoryHead\":\x7d".length +
    (c.instructionFiles.map digestWidth).sum + (c.instructionFiles.length - 1) +
    nullOr JsText.quotedLength c.repositoryHead

end JobReplayContext

/-- `isAbsolute` of node:path, on POSIX. -/
def isAbsolute (path : String) : Bool := path.toList.head? == some '/'

/-- `parseJobReplayContext` of the text that encodes a context. -/
def parseJobReplayContext (c : JobReplayContext) : Option JobReplayContext :=
  if c.width ≤ MAX_REPLAY_CONTEXT_CHARS ∧ c.instructionFiles.length ≤ MAX_RULE_FILES ∧
      (c.repositoryHead.all fun h => decide (JsText.utf16Length h ≤ 256)) ∧
      c.instructionFiles.all fun d => decide (JsText.utf16Length d.path ≤ MAX_REPLAY_PATH_CHARS) && isAbsolute d.path then
    some c
  else none

/-! ## Rows -/

/-- The capture columns of a job. -/
structure JobCapture where
  captureStatus : Option CaptureStatus
  outputDroppedBytes : ℤ
  nativeTranscript : Option String
  nativeTranscriptBytes : ℤ
  nativeTranscriptTruncated : Bool
  nativeTranscriptDroppedBytes : ℤ
  captureError : Option String
  deriving DecidableEq

structure JobRecord where
  id : String
  correlationId : String
  requestKey : String
  cli : String
  argsJson : List String
  outputFormat : Option String
  compressResponse : Option Bool
  status : JobStoreStatus
  exitCode : Option ℤ
  stdout : String
  stderr : String
  outputTruncated : Bool
  error : Option String
  errorCategory : Option String
  retryable : Option Bool
  startedAt : String
  finishedAt : Option String
  pid : Option ℤ
  expiresAt : String
  ownerPrincipal : Option String
  transport : JobTransport
  httpStatus : Option ℤ
  payloadJson : Option String
  ownerInstance : Option String
  ownerHostname : Option String
  mcpArtifactPath : Option String
  mcpArtifactScope : Option String
  mcpArtifactCleanupPending : Bool
  leaseDeadline : Option ℤ
  kitExecution : Option KitExecutionRef
  kitSessionId : Option String
  kitTerminalFinalized : Bool
  kitTerminalFinalizedAt : Option String
  progressJson : Option String
  cwdScope : Option JobCwdScope
  cwdPath : Option String
  workspaceAlias : Option String
  replayContext : Option JobReplayContext
  captureFormat : Option String
  capture : JobCapture
  deriving DecidableEq

structure GatewayInstance where
  instanceId : String
  role : Option String
  hostname : Option String
  pid : Option ℤ
  startedAt : ℤ
  lastHeartbeat : ℤ
  deriving DecidableEq

inductive FenceState where
  | admitted
  | recovered
  deriving DecidableEq

structure KitAttemptFence where
  attemptId : String
  state : FenceState
  cli : String
  kitExecution : KitExecutionRef
  kitSessionId : String
  ownerPrincipal : Option String
  fencedAt : String
  deriving DecidableEq

structure ValidationRunLink where
  provider : String
  jobId : String
  correlationId : String
  deriving DecidableEq

inductive ValidationRunStatus where
  | admitting
  | running
  | judge_skipped
  | admission_failed
  | finalized
  deriving DecidableEq

structure ValidationRunRecord where
  validationId : String
  ownerPrincipal : String
  intent : String
  createdAt : String
  requestJson : String
  providerLinks : List ValidationRunLink
  judgeLink : Option ValidationRunLink
  status : ValidationRunStatus
  deriving DecidableEq

inductive ValidationRole where
  | provider
  | judge
  deriving DecidableEq

/-- A row of the reverse index from a job to its validation run. -/
structure ValidationRunJob where
  jobId : String
  validationId : String
  role : ValidationRole
  deriving DecidableEq

structure ValidationReceiptRecord where
  validationId : String
  ownerPrincipal : String
  mintedAt : String
  schemaVersion : String
  reportJson : String
  canonicalSha256 : String
  prevSha256 : Option String
  seq : Option ℤ
  signature : Option String
  models : List String
  hasMaterialDisagreement : Bool
  confidence : String
  deriving DecidableEq

/-! ## Arguments and results -/

structure ValidationJobAdmission where
  validationId : String
  provider : String
  role : Option ValidationRole
  deriving DecidableEq

/-- The argument of `recordStart`. -/
structure JobStartInput where
  id : String
  correlationId : String
  requestKey : String
  cli : String
  args : List String
  outputFormat : Option String
  compressResponse : Option Bool
  startedAt : String
  pid : Option ℤ
  ownerPrincipal : Option String
  ownerInstance : Option String
  ownerHostname : Option String
  mcpArtifactPath : Option String
  mcpArtifactScope : Option String
  transport : Option JobTransport
  payloadJson : Option String
  kitExecution : Option KitExecutionRef
  kitSessionId : Option String
  validationAdmission : Option ValidationJobAdmission
  cwd : Option JobCwdRecord
  replayContext : Option JobReplayContext
  captureFormat : Option String
  deriving DecidableEq

structure KitAttemptFenceInput where
  attemptId : String
  cli : String
  kitExecution : KitExecutionRef
  kitSessionId : String
  ownerPrincipal : Option String
  fencedAt : String
  deriving DecidableEq

inductive KitAttemptFenceResult where
  | reserved
  | already_recovered
  | conflict
  deriving DecidableEq

/-- The capture fields of a completion, or of `recordCapture`. -/
structure CaptureInput where
  captureStatus : CaptureStatus
  outputDroppedBytes : ℤ
  nativeTranscript : Option String
  nativeTranscriptBytes : ℤ
  nativeTranscriptTruncated : Bool
  nativeTranscriptDroppedBytes : ℤ
  captureError : Option String
  deriving DecidableEq

structure JobCaptureInput where
  id : String
  ownerInstance : String
  capture : CaptureInput
  deriving DecidableEq

/-- The argument of `recordComplete`; `httpStatus` distinguishes an absent field, `none`, from a `null` one. -/
structure JobCompletionInput where
  id : String
  status : TerminalJobStoreStatus
  exitCode : Option ℤ
  stdout : String
  stderr : String
  outputTruncated : Bool
  error : Option String
  errorCategory : Option String
  retryable : Option Bool
  finishedAt : String
  httpStatus : Option (Option ℤ)
  progressJson : Option String
  capture : Option CaptureInput
  deriving DecidableEq

structure GatewayInstanceMeta where
  instanceId : String
  role : Option String
  hostname : Option String
  pid : Option ℤ
  deriving DecidableEq

structure HeartbeatOutcome where
  instanceRowRefreshed : Bool
  jobLeasesAdvanced : ℕ
  deriving DecidableEq

structure OrphanedJobSnapshot where
  id : String
  correlationId : String
  startedAt : String
  stdout : String
  stderr : String
  exitCode : Option ℤ
  transport : JobTransport
  httpStatus : Option ℤ
  isPersonalConfigKit : Bool
  deriving DecidableEq

structure PendingKitFinalization where
  jobId : String
  cli : String
  status : JobStoreStatus
  kitSessionId : String
  kitExecution : KitExecutionRef
  finishedAt : String
  exitCode : Option ℤ
  ownerPrincipal : Option String
  deriving DecidableEq

structure AcknowledgedKitAttemptRelease where
  jobId : String
  cli : String
  kitSessionId : String
  kitExecution : KitExecutionRef
  ownerPrincipal : Option String
  deriving DecidableEq

/-! ## Clocks and configuration -/

/-- The two clocks an operation reads, in milliseconds since 1970: the client's, within the range of a `Date`, and
the database's. -/
structure Clock where
  date : ℕ
  db : ℕ
  valid : (date : ℤ) ≤ maxTime

theorem zero_le_maxTime : ((0 : ℕ) : ℤ) ≤ maxTime := by decide

/-- `new Date().toISOString()` -/
def Clock.nowIso (now : Clock) : String := isoText now.date

/-- What a store instance is opened with.  A retention of `none` keeps every row. -/
structure Config where
  retentionMs : Option ℚ
  dedupWindowMs : ℚ
  leaseTtlMs : ℤ
  dateParse : DateParse

def FAR_FUTURE_ISO : String := "9999-12-31T23:59:59.999Z"

def INVALID_TIME_VALUE : String := "RangeError: Invalid time value"

/-- `new Date(q).toISOString()` -/
def dateIso (q : ℚ) : Except String String :=
  if |q| ≤ maxTime then .ok (isoText (trunc q)) else .error INVALID_TIME_VALUE

/-- `retentionExpiryIso` of a number. -/
def retentionExpiryAt (ms : ℤ) (retentionMs : Option ℚ) : Except String String :=
  match retentionMs with
  | none => .ok FAR_FUTURE_ISO
  | some r => dateIso (ms + r)

/-- `retentionExpiryIso` of a text. -/
def retentionExpiryIso (cfg : Config) (atText : String) : Except String String :=
  match cfg.retentionMs with
  | none => .ok FAR_FUTURE_ISO
  | some r =>
    match cfg.dateParse.parse atText with
    | some ms => dateIso (ms + r)
    | none => .error INVALID_TIME_VALUE

/-! ## Admission -/

/-- `hasNonEmptyString` of mcp-artifact-admission.ts. -/
def hasNonEmptyString (value : Option String) : Bool := value.any isNonEmptyString

def assertMcpArtifactAdmissionInvariant (input : JobStartInput) : Except String Unit :=
  let hasArtifactPath := input.mcpArtifactPath.isSome
  let hasArtifactScope := input.mcpArtifactScope.isSome
  if input.kitExecution.isSome && (hasArtifactPath || hasArtifactScope) then
    .error "Personal Agent Config Kit jobs cannot carry Claude MCP artifact provenance"
  else if !hasArtifactPath && !hasArtifactScope then .ok ()
  else if !hasNonEmptyString input.mcpArtifactPath || !hasNonEmptyString input.mcpArtifactScope then
    .error "Claude MCP artifact provenance requires non-empty path and scope"
  else if input.cli ≠ "claude" then
    .error "Claude MCP artifact provenance requires the Claude provider"
  else if input.transport.getD .process ≠ .process then
    .error "Claude MCP artifact provenance requires process transport"
  else if !hasNonEmptyString input.ownerHostname then
    .error "Claude MCP artifact provenance requires an origin hostname"
  else .ok ()

/-! ## Projections -/

/-- A `null` or an empty text is falsy. -/
def truthyText (s : Option String) : Option String := s.filter fun s => s != ""

def toPendingKitFinalization (record : JobRecord) : Option PendingKitFinalization :=
  if !record.status.isSettled || record.kitTerminalFinalized then none
  else
    match record.kitExecution, truthyText record.kitSessionId, truthyText record.finishedAt with
    | some kitExecution, some kitSessionId, some finishedAt =>
      some ⟨record.id, record.cli, record.status, kitSessionId, kitExecution, finishedAt, record.exitCode,
        record.ownerPrincipal⟩
    | _, _, _ => none

def toAcknowledgedKitAttemptRelease (record : JobRecord) : Option AcknowledgedKitAttemptRelease :=
  if !record.status.isSettled || !record.kitTerminalFinalized then none
  else
    match record.kitExecution, truthyText record.kitSessionId with
    | some kitExecution, some kitSessionId =>
      some ⟨record.id, record.cli, kitSessionId, kitExecution, record.ownerPrincipal⟩
    | _, _ => none

end LlmGateway.JobStore
