import LlmGateway.Lib.JsMap
import LlmGateway.JobStore.ValidationRows

/-!
# The reaper of wedged validation runs

The transactions of `postgres-job-store-ops.ts` on the validation tables, under READ COMMITTED: a statement sees what was committed
when it started, and its own transaction's writes; one that waits for a row checks the new version of it again, with the other
tables as they were.

* `RowKey` — a row that a transaction has written or locked, or a key that it has inserted; no other transaction gets past it;
* `Stage` — where a transaction stands, with what it has written and locked, and the snapshot of a statement that is under way;
* `Event`, `step` — any number of transactions, one statement or one COMMIT at a time.
-/

namespace LlmGateway.JobStore.Reaper

open LlmGateway.Lib

inductive RowKey where
  | job (id : String)
  | run (validationId : String)
  | link (jobId : String)
  | receipt (validationId : String)
deriving DecidableEq

inductive Op where
  /-- `recordStart` with a `validationAdmission` -/
  | recordStart (cfg : Config) (now : Clock) (input : JobStartInput) (admission : ValidationJobAdmission)
  | setValidationJudgeLink (validationId : String) (judgeLink : ValidationRunLink)
  | finalizeValidationReceipt (receipt : ValidationReceiptRecord)
  | skipValidationJudge (validationId provider ownerPrincipal : String)
  | evictWedgedValidationRuns (createdBeforeIso : String) (limit : ℤ)
  | evictExpired (nowIso : String)

/-- A transaction between two statements. -/
inductive Stage where
  /-- INSERT INTO jobs -/
  | insertJob (job : JobRecord) (admission : ValidationJobAdmission)
  /-- SELECT … FROM validation_runs … FOR UPDATE -/
  | claimRun (job : JobRecord) (admission : ValidationJobAdmission)
  /-- UPDATE validation_runs, of the run that is locked -/
  | claimed (job : JobRecord) (row : ValidationRunRecord) (link : ValidationRunJob)
  /-- INSERT INTO validation_run_jobs -/
  | updated (job : Option JobRecord) (row : ValidationRunRecord) (link : ValidationRunJob)
  | linked (job : Option JobRecord) (row : ValidationRunRecord) (link : ValidationRunJob)
  /-- UPDATE validation_runs SET judge_link, which has not started, and which waits for the run -/
  | judging (validationId : String) (judgeLink : ValidationRunLink)
  | awaitingJudge (snapshot : Db) (validationId : String) (judgeLink : ValidationRunLink)
  /-- INSERT INTO validation_receipts -/
  | minting (receipt : ValidationReceiptRecord)
  /-- UPDATE validation_runs SET status = 'finalized'; whether the receipt is new -/
  | finalizing (receipt : ValidationReceiptRecord) (new : Bool)
  | awaitingFinal (receipt : ValidationReceiptRecord) (new : Bool)
  /-- SELECT * FROM validation_receipts -/
  | finalized (receipt : ValidationReceiptRecord) (new : Bool) (row : ValidationRunRecord)
  | minted (receipt : ValidationReceiptRecord) (new : Bool) (row : ValidationRunRecord)
  /-- SELECT … FROM validation_runs … FOR UPDATE -/
  | skipping (validationId provider ownerPrincipal : String)
  /-- UPDATE validation_runs SET status = 'judge_skipped' -/
  | skipClaimed (row : ValidationRunRecord)
  | skipped (row : ValidationRunRecord)
  /-- SQL_SELECT_WEDGED_VALIDATION_RUNS_FOR_UPDATE, which has not started, and the runs that it has still to lock -/
  | selecting (createdBeforeIso : String) (limit : ℤ)
  | locking (snapshot : Db) (createdBeforeIso : String) (limit : ℤ) (todo ids : List String)
  /-- DELETE FROM validation_run_jobs -/
  | deletingLinks (ids : List String)
  /-- DELETE FROM validation_runs -/
  | deletingRuns (ids jobIds : List String)
  | reaped (ids jobIds : List String)
  /-- DELETE FROM jobs, which has not started, and the rows that it has still to delete -/
  | evicting (nowIso : String)
  | deletingExpired (nowIso : String) (todo ids : List String)

/-- What the transaction has locked. -/
def Stage.locks : Stage → List RowKey
  | .claimRun job _ => [.job job.id]
  | .claimed job row _ => [.job job.id, .run row.validationId]
  | .updated job row _ => .run row.validationId :: job.toList.map fun j => .job j.id
  | .linked job row link => .link link.jobId :: .run row.validationId :: job.toList.map fun j => .job j.id
  | .finalizing receipt new | .awaitingFinal receipt new => if new then [.receipt receipt.validationId] else []
  | .finalized receipt new row | .minted receipt new row =>
    .run row.validationId :: if new then [.receipt receipt.validationId] else []
  | .skipClaimed row | .skipped row => [.run row.validationId]
  | .locking _ _ _ _ ids | .deletingLinks ids => ids.map .run
  | .deletingRuns ids jobIds | .reaped ids jobIds => ids.map .run ++ jobIds.map .link
  | .deletingExpired _ _ ids => ids.map .job
  | _ => []

structure State where
  db : Db
  /-- the open transactions -/
  txs : JsMap ℕ Stage
  /-- the admissions that have been committed, by job -/
  admitted : JsMap String ValidationRunJob

/-- No other transaction has locked the row. -/
def free (s : State) (c : ℕ) (key : RowKey) : Bool := s.txs.rows.all fun e => e.1 = c || !e.2.locks.contains key

/-- What comes of a statement. -/
inductive Outcome where
  | wait
  | next (stage : Stage)
  | rollback
  | done

section Statements

variable (s : State) (c : ℕ)

/-- The row that SELECT … FOR UPDATE has locked, and what the checks on it make of it. -/
def claimRun (job : JobRecord) (admission : ValidationJobAdmission) : Outcome :=
  match s.db.validationRuns.get admission.validationId with
  | none => .rollback
  | some row =>
    let link : ValidationRunLink := ⟨admission.provider, job.id, job.correlationId⟩
    if some row.ownerPrincipal ≠ job.ownerPrincipal then .rollback
    else
      match admission.role.getD .provider with
      | .judge =>
        match assertReviewJudgeClaim row admission.provider with
        | .error _ => .rollback
        | .ok () => .next (.claimed job (setJudgeLink link row) ⟨job.id, admission.validationId, .judge⟩)
      | .provider =>
        if row.intent ≠ "review" ∨ row.status ≠ .admitting then .rollback
        else if row.providerLinks.any fun existing => existing.provider == admission.provider then .rollback
        else
          .next (.claimed job (setProviderLinks (row.providerLinks ++ [link]) row)
            ⟨job.id, admission.validationId, .provider⟩)

/-- The WHERE clause of `setValidationJudgeLink`, its key apart. -/
def judgeOpen (snapshot : Db) (row : ValidationRunRecord) : Bool :=
  row.status == .running && row.judgeLink.isNone && (snapshot.validationReceipts.get row.validationId).isNone

/-- `finalizeValidationReceipt`: the run of the receipt, if it has the same owner. -/
def ownedRun (db : Db) (receipt : ValidationReceiptRecord) : Option ValidationRunRecord :=
  (db.validationRuns.get receipt.validationId).filter fun r => r.ownerPrincipal == receipt.ownerPrincipal

/-- The rows of SQL_SELECT_WEDGED_VALIDATION_RUNS_FOR_UPDATE in a snapshot, before its LIMIT. -/
def candidates (snapshot : Db) (createdBeforeIso : String) : List String :=
  ((snapshot.validationRuns.select (wedged snapshot createdBeforeIso)).insertionSort
    fun a b => a.createdAt ≤ b.createdAt).map ValidationRunRecord.validationId

/-- SKIP LOCKED: the row is locked unless another transaction has it, or its new version does not match. -/
def locks (snapshot : Db) (createdBeforeIso : String) (id : String) : Bool :=
  free s c (.run id) && (s.db.validationRuns.get id).any (wedged snapshot createdBeforeIso)

/-- The next statement of a transaction, or the next row of one that goes from row to row. -/
def advance : Stage → Outcome
  | .insertJob job admission =>
    if !free s c (.job job.id) then .wait
    else if (s.db.jobs.get job.id).isSome then .rollback
    else .next (.claimRun job admission)
  | .claimRun job admission => if !free s c (.run admission.validationId) then .wait else claimRun s job admission
  | .claimed job row link => .next (.updated (some job) row link)
  | .updated job row link =>
    if !free s c (.link link.jobId) then .wait
    else if (s.db.validationRunJobs.get link.jobId).isSome then .rollback
    else .next (.linked job row link)
  | .judging validationId judgeLink =>
    if (s.db.validationRuns.get validationId).any (judgeOpen s.db) then .next (.awaitingJudge s.db validationId judgeLink)
    else .rollback
  | .awaitingJudge snapshot validationId judgeLink =>
    if !free s c (.run validationId) then .wait
    else
      match (s.db.validationRuns.get validationId).filter (judgeOpen snapshot) with
      | none => .rollback
      | some row => .next (.updated none (setJudgeLink judgeLink row) ⟨judgeLink.jobId, validationId, .judge⟩)
  | .minting receipt =>
    if !free s c (.receipt receipt.validationId) then .wait
    else .next (.finalizing receipt (s.db.validationReceipts.get receipt.validationId).isNone)
  | .finalizing receipt new => if (ownedRun s.db receipt).isSome then .next (.awaitingFinal receipt new) else .rollback
  | .awaitingFinal receipt new =>
    if !free s c (.run receipt.validationId) then .wait
    else
      match ownedRun s.db receipt with
      | none => .rollback
      | some row => .next (.finalized receipt new (setStatus .finalized row))
  | .finalized receipt new row =>
    if new || (s.db.validationReceipts.get receipt.validationId).isSome then .next (.minted receipt new row) else .rollback
  | .skipping validationId provider ownerPrincipal =>
    if !free s c (.run validationId) then .wait
    else
      match s.db.validationRuns.get validationId with
      | none => .rollback
      | some row =>
        if row.ownerPrincipal ≠ ownerPrincipal then .rollback
        else
          match assertReviewJudgeClaim row provider with
          | .error _ => .rollback
          | .ok () => .next (.skipClaimed row)
  | .skipClaimed row => .next (.skipped (setStatus .judge_skipped row))
  | .selecting createdBeforeIso limit =>
    -- a negative LIMIT is an error
    if limit < 0 then .rollback else .next (.locking s.db createdBeforeIso limit (candidates s.db createdBeforeIso) [])
  | .locking _ _ _ [] ids => if ids = [] then .done else .next (.deletingLinks ids)
  | .locking snapshot createdBeforeIso limit (id :: todo) ids =>
    if limit ≤ ids.length then .next (.locking snapshot createdBeforeIso limit [] ids)
    else if locks s c snapshot createdBeforeIso id then .next (.locking snapshot createdBeforeIso limit todo (ids ++ [id]))
    else .next (.locking snapshot createdBeforeIso limit todo ids)
  | .deletingLinks ids =>
    let jobIds := (s.db.validationRunJobs.select fun j => ids.contains j.validationId).map ValidationRunJob.jobId
    if jobIds.all fun jobId => free s c (.link jobId) then .next (.deletingRuns ids jobIds) else .wait
  | .deletingRuns ids jobIds => .next (.reaped ids jobIds)
  | .evicting nowIso => .next (.deletingExpired nowIso ((s.db.jobs.select (expired nowIso)).map JobRecord.id) [])
  | .deletingExpired nowIso (id :: todo) ids =>
    if !free s c (.job id) then .wait
    else if (s.db.jobs.get id).any (expired nowIso) then .next (.deletingExpired nowIso todo (ids ++ [id]))
    else .next (.deletingExpired nowIso todo ids)
  | .linked .. | .minted .. | .skipped .. | .reaped .. | .deletingExpired _ [] _ => .done

end Statements

/-- The tables after a COMMIT. -/
def commit (db : Db) : Stage → Db
  | .linked job row link =>
    { db with
      jobs := job.elim db.jobs db.jobs.insertOrIgnore
      validationRuns := db.validationRuns.set row
      validationRunJobs := db.validationRunJobs.insertOrIgnore link }
  | .minted receipt new row =>
    { db with
      validationRuns := db.validationRuns.set row
      validationReceipts := if new then db.validationReceipts.insertOrIgnore receipt else db.validationReceipts }
  | .skipped row => { db with validationRuns := db.validationRuns.set row }
  | .reaped ids jobIds =>
    { db with
      validationRuns := db.validationRuns.delete fun r => ids.contains r.validationId
      validationRunJobs := db.validationRunJobs.delete fun j => jobIds.contains j.jobId }
  | .deletingExpired _ _ ids => { db with jobs := db.jobs.delete fun j => ids.contains j.id }
  | _ => db

/-- The admission that a COMMIT makes good. -/
def recordAdmission (admitted : JsMap String ValidationRunJob) : Stage → JsMap String ValidationRunJob
  | .linked (some job) _ link => admitted.set job.id link
  | _ => admitted

/-- The first statement of an operation; `none` where it throws before it. -/
def start : Op → Option Stage
  | .recordStart cfg now input admission =>
    match assertMcpArtifactAdmissionInvariant input with
    | .error _ => none
    | .ok () => if input.kitExecution.isSome then none else some (.insertJob (startRow cfg now input) admission)
  | .setValidationJudgeLink validationId judgeLink => some (.judging validationId judgeLink)
  | .finalizeValidationReceipt receipt => some (.minting receipt)
  | .skipValidationJudge validationId provider ownerPrincipal => some (.skipping validationId provider ownerPrincipal)
  | .evictWedgedValidationRuns createdBeforeIso limit => some (.selecting createdBeforeIso limit)
  | .evictExpired nowIso => some (.evicting nowIso)

inductive Event where
  /-- BEGIN on a free connection -/
  | begin (c : ℕ) (op : Op)
  | next (c : ℕ)
  /-- the transaction fails, or its gateway crashes -/
  | abort (c : ℕ)
  /-- any other operation commits a new version of a job's row -/
  | rewrite (job : JobRecord)

def step (s : State) : Event → State × Unit
  | .begin c op =>
    match s.txs.get c, start op with
    | none, some stage => ({ s with txs := s.txs.set c stage }, ())
    | _, _ => (s, ())
  | .next c =>
    match s.txs.get c with
    | none => (s, ())
    | some stage =>
      match advance s c stage with
      | .wait => (s, ())
      | .next stage' => ({ s with txs := s.txs.set c stage' }, ())
      | .rollback => ({ s with txs := s.txs.delete c }, ())
      | .done => ({ db := commit s.db stage, txs := s.txs.delete c, admitted := recordAdmission s.admitted stage }, ())
  | .abort c => ({ s with txs := s.txs.delete c }, ())
  | .rewrite job =>
    if (s.db.jobs.get job.id).isSome && s.txs.rows.all fun e => !e.2.locks.contains (.job job.id) then
      ({ s with db := { s.db with jobs := s.db.jobs.set job } }, ())
    else (s, ())

end LlmGateway.JobStore.Reaper
