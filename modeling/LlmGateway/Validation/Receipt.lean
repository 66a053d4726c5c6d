import LlmGateway.Validation.ReportSchema

/-!
# `validation-receipt.ts`: how a receipt is minted

* `parseValidationRunRequest`, `hasCompleteOutput`, `readVerifiedLinkedJob`, `tryMint` — the source's functions;
* `Answers` — what the calls to the job manager and the store have answered so far;
* `prepare` — `tryMint` up to the record it hands to `finalizeValidationReceipt`, or to the first call without an answer.

`requestJson` and `reportJson` hold what `JSON.parse` reads, and `none` when it throws.  The lower case and SHA-256 are
parameters.
-/

namespace LlmGateway.Validation

open LlmGateway.Lib LlmGateway.Lib.Utf16 LlmGateway.Lib.Schema

inductive ValidationRunStatus where
  | admitting
  | running
  | judge_skipped
  | admission_failed
  | finalized
deriving DecidableEq

structure ValidationRunLink where
  provider : Text
  jobId : Text
  correlationId : Text
deriving DecidableEq

structure ValidationRunRecord where
  validationId : Text
  ownerPrincipal : Text
  intent : Text
  createdAt : Text
  requestJson : Option Value
  providerLinks : List ValidationRunLink
  judgeLink : Option ValidationRunLink
  status : ValidationRunStatus

structure ValidationReceiptRecord where
  validationId : Text
  ownerPrincipal : Text
  mintedAt : Text
  schemaVersion : Text
  reportJson : Option Value
  canonicalSha256 : Text
  prevSha256 : Option Text
  seq : Option ℕ
  signature : Option Text
  models : List Text
  hasMaterialDisagreement : Bool
  confidence : ValidationReportConfidence

structure VerifiedValidationRunRequest where
  question : Option Text
  content : Option Text
  focus : Option Text
  modelList : List Text
  judgeProvider : Option Text
deriving DecidableEq

def validationReceiptSchemaVersion : Text := text "validation-receipt.v1"

def validationRunRequestSchema (v : Value) : Option VerifiedValidationRunRequest := do
  let m ← object v
  let question ← optional string (field "question" m)
  let content ← optional string (field "content" m)
  let focus ← optional string (field "focus" m)
  let modelList ← (required (array nonempty) (field "modelList" m)).filter fun l => !l.isEmpty
  let judgeProvider ← optional (nullable nonempty) (field "judgeProvider" m)
  return ⟨question, content, focus, modelList, judgeProvider.join⟩

def parseValidationRunRequest (requestJson : Option Value) : Option VerifiedValidationRunRequest :=
  (requestJson.bind validationRunRequestSchema).filter fun request => request.modelList.Nodup

def AsyncJobStatus.isTerminal : AsyncJobStatus → Bool
  | .completed | .failed | .canceled | .orphaned => true
  | .queued | .running => false

def AsyncJobStatus.toText : AsyncJobStatus → Text
  | .queued => text "queued"
  | .running => text "running"
  | .completed => text "completed"
  | .failed => text "failed"
  | .canceled => text "canceled"
  | .orphaned => text "orphaned"

def hasCompleteOutput (result : AsyncJobResult) : Bool :=
  !result.outputTruncated && !result.stdout.truncated && !result.stderr.truncated &&
    result.stdout.offsetChars = 0 && result.stderr.offsetChars = 0 &&
    result.stdout.nextOffsetChars = none && result.stderr.nextOffsetChars = none &&
    result.stdout.text.length = result.stdout.totalChars && result.stderr.text.length = result.stderr.totalChars &&
    byteLength result.stdout.text = result.stdoutBytes && byteLength result.stderr.text = result.stderrBytes

/-! ## Calls and their answers -/

inductive Call where
  | getJobOwner (jobId : Text)
  | getValidationRunIdByJobId (jobId : Text)
  | getJobResult (jobId : Text)
deriving DecidableEq

inductive Answer (α : Type) where
  | awaited
  | threw
  | value (a : α)

/-- The answers so far.  `tryMint` asks for every job once. -/
structure Answers where
  jobOwner : Text → Answer (Option Text)
  validationRunIdByJobId : Text → Answer (Option Text)
  jobResult : Text → Answer (Option AsyncJobResult)

inductive VerifiedLinkedJob where
  | terminal (result : AsyncJobResult)
  | pending
  | unmintable
  | awaits (call : Call)

section minting
variable (answers : Answers) (run : ValidationRunRecord)

def readVerifiedLinkedJob (link : ValidationRunLink) : VerifiedLinkedJob :=
  match answers.jobOwner link.jobId with
  | .awaited => .awaits (.getJobOwner link.jobId)
  | .threw => .unmintable
  | .value jobOwner =>
    if jobOwner ≠ some run.ownerPrincipal then .unmintable
    else
      match answers.validationRunIdByJobId link.jobId with
      | .awaited => .awaits (.getValidationRunIdByJobId link.jobId)
      | .threw => .unmintable
      | .value linkedValidationId =>
        if linkedValidationId ≠ some run.validationId then .unmintable
        else
          match answers.jobResult link.jobId with
          | .awaited => .awaits (.getJobResult link.jobId)
          | .threw => .unmintable
          | .value none => .unmintable
          | .value (some result) =>
            if result.id ≠ link.jobId ∨ result.cli ≠ link.provider ∨ result.correlationId ≠ link.correlationId then
              .unmintable
            else if !result.status.isTerminal then .pending
            else if hasCompleteOutput result then .terminal result
            else .unmintable

/-- The loop over the links; the lists are the sets of the names, job ids and correlation ids so far. -/
def checkProviderLinks (requestedProviders : List Text) :
    List Text → List Text → List Text → List ValidationRunLink → Bool
  | _, _, _, [] => true
  | names, jobIds, correlationIds, link :: links =>
    if !requestedProviders.contains link.provider || names.contains link.provider || jobIds.contains link.jobId ||
        correlationIds.contains link.correlationId then false
    else checkProviderLinks requestedProviders (link.provider :: names) (link.jobId :: jobIds)
      (link.correlationId :: correlationIds) links

/-- The judge is not one of the provider jobs. -/
def judgeClashes (link : ValidationRunLink) : Bool :=
  run.providerLinks.any fun l => l.jobId = link.jobId || l.correlationId = link.correlationId

/-- How `tryMint` goes on: with a record, without one, or with a call. -/
inductive Prepared where
  | record (record : ValidationReceiptRecord)
  | pending
  | unmintable
  | awaits (call : Call)

def readProviderResults : List ValidationRunLink → Except Prepared (List NormalizedValidationResult)
  | [] => .ok []
  | link :: links =>
    match readVerifiedLinkedJob answers run link with
    | .terminal result => (readProviderResults links).map (normalizeJobResult link.provider none result :: ·)
    | .pending => .error .pending
    | .unmintable => .error .unmintable
    | .awaits call => .error (.awaits call)

/-- `judgeStatus` -/
def readJudgeStatus : Except Prepared (Option AsyncJobStatus) :=
  match run.judgeLink with
  | none => .ok none
  | some link =>
    match readVerifiedLinkedJob answers run link with
    | .terminal result => .ok (some result.status)
    | .pending => .error .pending
    | .unmintable => .error .unmintable
    | .awaits call => .error (.awaits call)

def skippedResults (requested : List Text) : List NormalizedValidationResult :=
  (requested.filter fun provider => !(run.providerLinks.map ValidationRunLink.provider).contains provider).map
    fun provider => normalizeSkippedProvider provider (text "Provider was not dispatched for this run.")

def synthesisOf (plannedJudge : Option Text) (judgeStatus : Option AsyncJobStatus) : Synthesis :=
  match run.judgeLink with
  | some link =>
    { status := if judgeStatus = some .completed then .completed else .skipped
      judgeModel := some link.provider
      rawJobReference := some ⟨link.jobId, link.correlationId⟩
      note :=
        if judgeStatus = some .completed then text "Judge synthesis completed."
        else text "Judge job ended in '" ++ judgeStatus.elim (text "null") AsyncJobStatus.toText ++
          text "' without a synthesis result." }
  | none =>
    match run.status, plannedJudge with
    | .judge_skipped, some planned =>
      { status := .skipped
        judgeModel := some planned
        rawJobReference := none
        note := text "The planned judge could not be dispatched." }
    | _, _ =>
      { status := .not_requested
        judgeModel := none
        rawJobReference := none
        note := text "No judge synthesis was requested." }

variable (lower : LowerCase) (sha256 : Text → Text)

def computeCanonicalSha256 (content : ValidationReportV1Content) : Text := sha256 (canonicalJson (reportValue content))

/-- `structuredContent` -/
def reportOf (request : VerifiedValidationRunRequest) (providerResults : List NormalizedValidationResult)
    (judgeStatus : Option AsyncJobStatus) : ValidationReportV1Content :=
  let results := providerResults ++ skippedResults run request.modelList
  let synthesis := synthesisOf run request.judgeProvider judgeStatus
  buildValidationReport lower
    { validationId := run.validationId
      status := deriveValidationRunStatus results synthesis.status
      startedAt := run.createdAt
      intent := run.intent
      originalRequest := ⟨request.question, request.content, request.focus⟩
      modelList :=
        if request.modelList ≠ [] then request.modelList else run.providerLinks.map ValidationRunLink.provider
      results := results
      synthesis := synthesis }

def recordOf (content : ValidationReportV1Content) (mintedAt : Text) : ValidationReceiptRecord where
  validationId := run.validationId
  ownerPrincipal := run.ownerPrincipal
  mintedAt := mintedAt
  schemaVersion := validationReceiptSchemaVersion
  reportJson := some (reportValue content)
  canonicalSha256 := computeCanonicalSha256 sha256 content
  prevSha256 := none
  seq := none
  signature := none
  models := content.modelList
  hasMaterialDisagreement := content.disagreements.hasMaterialDisagreement
  confidence := content.confidence

/-- `tryMint`, up to `finalizeValidationReceipt`. -/
def prepare (mintedAt : Text) : Prepared :=
  if run.status = .admitting ∨ run.status = .admission_failed then .pending
  else
    match parseValidationRunRequest run.requestJson with
    | none => .unmintable
    | some request =>
      if !checkProviderLinks request.modelList [] [] [] run.providerLinks then .unmintable
      else if run.judgeLink.any (judgeClashes run) then .unmintable
      else if run.judgeLink.any fun link => request.judgeProvider.any (· ≠ link.provider) then .unmintable
      else if request.judgeProvider.isSome ∧ run.judgeLink = none ∧ run.status ≠ .judge_skipped then .pending
      else
        match readProviderResults answers run run.providerLinks with
        | .error outcome => outcome
        | .ok providerResults =>
          match readJudgeStatus answers run with
          | .error outcome => outcome
          | .ok judgeStatus =>
            .record (recordOf run sha256 (reportOf run lower request providerResults judgeStatus) mintedAt)

/-- `rejected` is an exception of `finalizeValidationReceipt`. -/
inductive MintOutcome where
  | minted (record : ValidationReceiptRecord)
  | pending
  | unmintable
  | awaits (call : Call)
  | rejected

/-- `store` is `finalizeValidationReceipt` of the store, if there is a store; it gives the row that is stored. -/
def tryMint (store : Option (ValidationReceiptRecord → Option ValidationReceiptRecord)) (mintedAt : Text) :
    MintOutcome :=
  match store with
  | none => .pending
  | some finalizeValidationReceipt =>
    match prepare answers run lower sha256 mintedAt with
    | .record record => (finalizeValidationReceipt record).elim .rejected .minted
    | .pending => .pending
    | .unmintable => .unmintable
    | .awaits call => .awaits call

end minting

end LlmGateway.Validation
