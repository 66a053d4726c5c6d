import Mathlib.Algebra.Order.Ring.Rat
import LlmGateway.Lib.Run
import LlmGateway.Lib.Table

/-!
# The flight recorder

`FlightRecorder` (flight-recorder.ts): the two tables of the transcript, and the four writers, each one transaction.

* `RequestRow`, `MetadataRow` — the rows, their columns grouped by the statement that writes them;
* `updateRequestComplete`, `updateMetadataComplete`, `updateRouting`, `updateCompression` — the guarded UPDATEs;
* `step` — a call by any recorder instance on the shared database.

Columns that hold JSON are modelled by the value they encode.
-/

namespace LlmGateway.Recorder

open LlmGateway.Lib

/-- The rank of imported history, which no live completion has. -/
def RESERVED_MIGRATED_RANK : ℕ := 3

/-! ## Rows -/

/-- What `derivePromptSignals` says of a prompt. -/
structure PromptDerivation where
  promptChars : ℕ
  contentClass : String
  derivationVersion : ℕ
  deriving DecidableEq

/-- The columns of `requests` that the start row fixes. -/
structure RequestStart where
  cli : String
  model : String
  prompt : String
  system : Option String
  sessionId : Option String
  datetimeUtc : String
  stablePrefixHash : Option String
  stablePrefixTokens : Option ℚ
  cacheControlBlocks : Option ℚ
  cacheControlTtlSeconds : Option ℚ
  ownerPrincipal : Option String
  derived : PromptDerivation
  deriving DecidableEq

/-- The columns of `requests` that a completion writes. -/
structure RequestCompletion where
  response : Option String
  durationMs : Option ℚ
  inputTokens : Option ℚ
  outputTokens : Option ℚ
  cacheReadTokens : Option ℚ
  cacheCreationTokens : Option ℚ
  costBasis : Option String
  deriving DecidableEq

structure RequestRow where
  id : String
  start : RequestStart
  completion : RequestCompletion
  deriving DecidableEq

inductive RequestStatus where
  | started
  | completed
  | failed
  deriving DecidableEq

/-- The columns of `gateway_metadata` that a completion writes, its rank apart. -/
structure MetadataCompletion where
  retryCount : ℚ
  circuitBreakerState : Option String
  costUsd : Option ℚ
  approvalDecision : Option String
  optimizationApplied : Bool
  thinkingBlocks : Option (List String)
  exitCode : Option ℚ
  httpStatus : Option ℚ
  errorMessage : Option String
  providerSessionId : Option String
  stopReason : Option String
  status : RequestStatus
  deriving DecidableEq

structure RoutingColumns where
  routed : Option Bool
  routeEstCostUsd : Option ℚ
  routeEstConfidence : Option String
  routeReason : Option String
  routeConsidered : Option ℚ
  routeReroutes : Option ℚ
  deriving DecidableEq

structure CompressionColumns where
  compressionRoute : Option String
  compressionTransforms : Option String
  compressionOriginalChars : Option ℚ
  compressionCompressedChars : Option ℚ
  compressionTokensSavedEst : Option ℚ
  deriving DecidableEq

structure MetadataRow where
  requestId : String
  asyncJobId : Option String
  completion : MetadataCompletion
  routing : RoutingColumns
  compression : CompressionColumns
  completionRank : ℕ
  deriving DecidableEq

/-- The two tables, each with its primary key. -/
structure Db where
  requests : Table RequestRow.id
  gatewayMetadata : Table MetadataRow.requestId

/-! ## Arguments -/

structure FlightLogStart where
  correlationId : String
  cli : String
  model : String
  prompt : String
  system : Option String
  sessionId : Option String
  asyncJobId : Option String
  stablePrefixHash : Option String
  stablePrefixTokens : Option ℚ
  cacheControlBlocks : Option ℚ
  cacheControlTtlSeconds : Option ℚ
  ownerPrincipal : Option String

inductive CompletionKind where
  | observed
  | presumed
  deriving DecidableEq

inductive ResultStatus where
  | completed
  | failed
  deriving DecidableEq

structure FlightLogResult where
  response : String
  inputTokens : Option ℚ
  outputTokens : Option ℚ
  cacheReadTokens : Option ℚ
  cacheCreationTokens : Option ℚ
  durationMs : ℚ
  retryCount : ℚ
  circuitBreakerState : String
  costUsd : Option ℚ
  costBasis : Option String
  approvalDecision : Option String
  optimizationApplied : Bool
  thinkingBlocks : Option (List String)
  exitCode : ℚ
  httpStatus : Option ℚ
  errorMessage : Option String
  status : ResultStatus
  completionKind : Option CompletionKind
  providerSessionId : Option String
  stopReason : Option String

structure RoutingRecord where
  estCostUsd : Option ℚ
  estConfidence : Option String
  reason : Option String
  considered : Option ℚ
  reroutes : Option ℚ

structure CompressionTelemetry where
  route : String
  transforms : List String
  originalChars : ℚ
  compressedChars : ℚ
  estimatedTokensSaved : ℚ

/-- The text functions the recorder applies to what it stores. -/
structure TextFunctions where
  redactSecrets : String → String
  derivePromptSignals : String → PromptDerivation
  truncateThinkingBlocks : List String → List String

/-- What a recorder instance reads of its surroundings at a call: its configuration, the principal of the request
context and the clock. -/
structure Ambient where
  redactEnabled : Bool
  ownerPrincipal : Option String
  nowIso : String

variable (fns : TextFunctions)

/-! ## Statements -/

def updateRequestComplete (db : Db) (id : String) (rank : ℕ) (c : RequestCompletion) : Db :=
  { db with
    requests := db.requests.update
      (fun r => r.id == id &&
        db.gatewayMetadata.rows.any fun m => m.requestId == r.id && decide (m.completionRank ≤ rank))
      (fun r => { r with completion := c }) fun _ => rfl }

def updateMetadataComplete (db : Db) (id : String) (rank : ℕ) (c : MetadataCompletion) : Db :=
  { db with
    gatewayMetadata := db.gatewayMetadata.update
      (fun m => m.requestId == id && decide (m.completionRank ≤ rank))
      (fun m => { m with completion := c, completionRank := rank }) fun _ => rfl }

def updateCompression (db : Db) (id : String) (c : CompressionColumns) : Db :=
  { db with
    gatewayMetadata := db.gatewayMetadata.update
      (fun m => m.requestId == id && m.compression.compressionRoute.isNone &&
        decide (m.completionRank < RESERVED_MIGRATED_RANK))
      (fun m => { m with compression := c }) fun _ => rfl }

def updateRouting (db : Db) (id : String) (c : RoutingColumns) : Db :=
  { db with
    gatewayMetadata := db.gatewayMetadata.update
      (fun m => m.requestId == id && decide (m.completionRank < RESERVED_MIGRATED_RANK))
      (fun m => { m with routing := c }) fun _ => rfl }

/-! ## Writers -/

/-- `x || null`: an empty text counts as absent. -/
def orNull (x : Option String) : Option String := x.filter fun s => s != ""

def redactStart (entry : FlightLogStart) : FlightLogStart :=
  { entry with
    prompt := fns.redactSecrets entry.prompt
    system := match entry.system with
      | some s => some (if s = "" then s else fns.redactSecrets s)
      | none => none }

def redactResult (result : FlightLogResult) : FlightLogResult :=
  { result with response := fns.redactSecrets result.response }

/-- Both INSERTs, in one transaction: a taken key of either table leaves both as they were. -/
def logStart (db : Db) (amb : Ambient) (entry : FlightLogStart) : Except String Db :=
  let stored := if amb.redactEnabled then redactStart fns entry else entry
  let request : RequestRow :=
    { id := stored.correlationId
      start :=
        { cli := stored.cli
          model := stored.model
          prompt := stored.prompt
          system := orNull stored.system
          sessionId := orNull stored.sessionId
          datetimeUtc := amb.nowIso
          stablePrefixHash := stored.stablePrefixHash
          stablePrefixTokens := stored.stablePrefixTokens
          cacheControlBlocks := stored.cacheControlBlocks
          cacheControlTtlSeconds := stored.cacheControlTtlSeconds
          ownerPrincipal := stored.ownerPrincipal.orElse fun _ => amb.ownerPrincipal
          derived := fns.derivePromptSignals stored.prompt }
      completion := ⟨none, none, none, none, none, none, none⟩ }
  let metadata : MetadataRow :=
    { requestId := stored.correlationId
      asyncJobId := orNull stored.asyncJobId
      completion := ⟨0, none, none, none, false, none, none, none, none, none, none, .started⟩
      routing := ⟨none, none, none, none, none, none⟩
      compression := ⟨none, none, none, none, none⟩
      completionRank := 0 }
  match db.requests.insert request, db.gatewayMetadata.insert metadata with
  | none, _ => .error "UNIQUE constraint failed: requests.id"
  | some _, none => .error "UNIQUE constraint failed: gateway_metadata.request_id"
  | some requests, some gatewayMetadata => .ok ⟨requests, gatewayMetadata⟩

/-- The rank of a completion: presumed outcomes rank below observed ones. -/
def completionRank (result : FlightLogResult) : ℕ := if result.completionKind = some .presumed then 1 else 2

/-- What a completion writes to its `requests` row. -/
def requestCompletion (amb : Ambient) (result : FlightLogResult) : RequestCompletion :=
  let stored := if amb.redactEnabled then redactResult fns result else result
  { response := some stored.response
    durationMs := some stored.durationMs
    inputTokens := stored.inputTokens
    outputTokens := stored.outputTokens
    cacheReadTokens := stored.cacheReadTokens
    cacheCreationTokens := stored.cacheCreationTokens
    costBasis := stored.costBasis }

/-- What a completion writes to its `gateway_metadata` row. -/
def metadataCompletion (amb : Ambient) (result : FlightLogResult) : MetadataCompletion :=
  let stored := if amb.redactEnabled then redactResult fns result else result
  { retryCount := stored.retryCount
    circuitBreakerState := some stored.circuitBreakerState
    costUsd := stored.costUsd
    approvalDecision := stored.approvalDecision
    optimizationApplied := stored.optimizationApplied
    thinkingBlocks := match stored.thinkingBlocks with
      | some (b :: bs) => some (fns.truncateThinkingBlocks (b :: bs))
      | _ => none
    exitCode := some stored.exitCode
    httpStatus := stored.httpStatus
    errorMessage := stored.errorMessage
    providerSessionId := stored.providerSessionId
    stopReason := stored.stopReason
    status := match stored.status with
      | .completed => .completed
      | .failed => .failed }

def logComplete (db : Db) (amb : Ambient) (correlationId : String) (result : FlightLogResult) : Db :=
  let rank := completionRank result
  let db := updateRequestComplete db correlationId rank (requestCompletion fns amb result)
  updateMetadataComplete db correlationId rank (metadataCompletion fns amb result)

def recordCompressionTelemetry (db : Db) (correlationId : String) (telemetry : CompressionTelemetry) : Db :=
  updateCompression db correlationId
    { compressionRoute := some telemetry.route
      compressionTransforms := some (String.intercalate "," telemetry.transforms)
      compressionOriginalChars := some telemetry.originalChars
      compressionCompressedChars := some telemetry.compressedChars
      compressionTokensSavedEst := some telemetry.estimatedTokensSaved }

def recordRouting (db : Db) (correlationId : String) (routing : RoutingRecord) : Db :=
  updateRouting db correlationId
    { routed := some true
      routeEstCostUsd := routing.estCostUsd
      routeEstConfidence := routing.estConfidence
      routeReason := routing.reason
      routeConsidered := routing.considered
      routeReroutes := routing.reroutes }

/-! ## Runs -/

inductive Op where
  | logStart (entry : FlightLogStart)
  | logComplete (correlationId : String) (result : FlightLogResult)
  | recordCompressionTelemetry (correlationId : String) (telemetry : CompressionTelemetry)
  | recordRouting (correlationId : String) (routing : RoutingRecord)

/-- A call by one of the recorder instances. -/
structure Call where
  ambient : Ambient
  op : Op

/-- One committed or rolled back transaction. -/
def step (db : Db) (call : Call) : Db × Except String Unit :=
  match call.op with
  | .logStart entry =>
    match logStart fns db call.ambient entry with
    | .ok db' => (db', .ok ())
    | .error e => (db, .error e)
  | .logComplete id result => (logComplete fns db call.ambient id result, .ok ())
  | .recordCompressionTelemetry id telemetry => (recordCompressionTelemetry db id telemetry, .ok ())
  | .recordRouting id routing => (recordRouting db id routing, .ok ())

end LlmGateway.Recorder
