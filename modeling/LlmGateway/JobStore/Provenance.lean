import LlmGateway.JobStore.Lifecycle
import LlmGateway.Lib.Run

/-!
# Where the columns of a job row come from

* `Told` — who has said how a job ended;
* `row_accounted` — in every run, a row is that of one of its starts, and its outcome that of one of its completions or sweeps.
-/

namespace LlmGateway.JobStore

open LlmGateway.Lib

/-- The columns that say which job a row is of; the others are blank. -/
def JobRecord.identity (r : JobRecord) : JobRecord :=
  { r with
    status := .queued
    exitCode := none
    stdout := ""
    stderr := ""
    outputTruncated := false
    error := none
    errorCategory := none
    retryable := none
    finishedAt := none
    pid := none
    expiresAt := ""
    httpStatus := none
    payloadJson := none
    mcpArtifactCleanupPending := false
    leaseDeadline := none
    kitTerminalFinalized := false
    kitTerminalFinalizedAt := none
    progressJson := none
    capture := ⟨none, 0, none, 0, false, 0, none⟩ }

/-- The outcome of a job whose lease has expired. -/
def sweptOutcome (kit : Bool) (nowIso expiresAt : String) : JobOutcome :=
  ⟨.orphaned, none, some (if kit then PERSONAL_KIT_FAILURE_WITHHELD else "owning gateway instance is no longer alive"), none, none,
    none, some nowIso, expiresAt⟩

/-- How the row got its outcome: nobody has said that the job has ended, a completion of it has, or a sweep that found its lease
expired. -/
inductive Told (calls : List Call) (r : JobRecord) : Prop where
  | nobody (hopen : r.status.isOpen = true) (h : r.outcome = ⟨r.status, none, none, none, none, none, none, FAR_FUTURE_ISO⟩)
  | completion (call : Call) (hcall : call ∈ calls) (input : JobCompletionInput) (hop : call.op = .recordComplete input)
      (hid : input.id = r.id) (expiresAt : String) (hexp : retentionExpiryIso call.cfg input.finishedAt = .ok expiresAt)
      (h : r.outcome = (setComplete input expiresAt r).outcome)
  | sweep (call : Call) (hcall : call ∈ calls) (ttl : ℤ) (grace : ℕ) (live : List String)
      (hop : call.op = .recoverStaleJobs ttl grace live) (hlive : r.id ∉ live) (expiresAt : String)
      (hexp : retentionExpiryAt call.now.date call.cfg.retentionMs = .ok expiresAt)
      (h : r.outcome = sweptOutcome r.kitExecution.isSome call.now.nowIso expiresAt)

/-- The row of one of the starts, with the outcome that has been told. -/
structure FromCalls (calls : List Call) (r : JobRecord) : Prop where
  started : ∃ call ∈ calls, ∃ input, call.op = .recordStart input ∧ r.identity = (startRow call.cfg call.now input).identity
  told : Told calls r

variable {calls : List Call} {call : Call} {r r' : JobRecord}

/-- The outcome of an open row. -/
theorem Told.of_open (h : Told calls r) (hopen : r.status.isOpen = true) :
    r.outcome = ⟨r.status, none, none, none, none, none, none, FAR_FUTURE_ISO⟩ := by
  cases h with
  | nobody _ h => exact h
  | completion _ _ input _ _ _ _ h =>
    rw [show r.status = input.status.toStatus from congrArg JobOutcome.status h] at hopen
    cases hs : input.status <;> rw [hs] at hopen <;> cases hopen
  | sweep _ _ _ _ _ _ _ _ _ h =>
    rw [show r.status = .orphaned from congrArg JobOutcome.status h] at hopen
    cases hopen

/-- A row of the same job with the same outcome, one call later. -/
theorem FromCalls.keep (h : FromCalls calls r) (call : Call) (hidentity : r'.identity = r.identity) (hout : r'.outcome = r.outcome) :
    FromCalls (calls ++ [call]) r' := by
  have hid : r'.identity.id = r.identity.id := by rw [hidentity]
  have hkit : r'.identity.kitExecution = r.identity.kitExecution := by rw [hidentity]
  change r'.id = r.id at hid
  change r'.kitExecution = r.kitExecution at hkit
  have hstatus : r'.status = r.status := congrArg JobOutcome.status hout
  obtain ⟨⟨c, hc, input, hop, hstart⟩, htold⟩ := h
  refine ⟨⟨c, List.mem_append_left _ hc, input, hop, hidentity.trans hstart⟩, ?_⟩
  cases htold with
  | nobody hopen h => exact .nobody (hstatus ▸ hopen) (by rw [hout, h, hstatus])
  | completion c hcall input hop hid' e hexp h =>
    refine .completion c (List.mem_append_left _ hcall) input hop (hid'.trans hid.symm) e hexp ?_
    rw [hout, h]
    simp only [JobRecord.outcome, setComplete, hkit]
  | sweep c hcall ttl grace live hop hlive e hexp h =>
    exact .sweep c (List.mem_append_left _ hcall) ttl grace live hop (hid ▸ hlive) e hexp (by rw [hout, h, hkit])

/-- **What a move of a row has told.** -/
theorem FromCalls.move {id : String} {o o' : Option JobRecord} (h : ∀ r, o = some r → r.id = id ∧ FromCalls calls r)
    (hm : JobMove call id o o') : ∀ r, o' = some r → FromCalls (calls ++ [call]) r := by
  have hcall : call ∈ calls ++ [call] := List.mem_append_right _ List.mem_cons_self
  rintro r' rfl
  cases hm with
  | same => exact (h r' rfl).2.keep call rfl rfl
  | admitted input hop => exact ⟨⟨call, hcall, input, hop, rfl⟩, .nobody rfl rfl⟩
  | launched r pid hop hs =>
    obtain ⟨-, hstart, htold⟩ := h r rfl
    have hout := htold.of_open (by rw [hs]; rfl)
    refine ⟨(FromCalls.keep ⟨hstart, htold⟩ call rfl rfl).started, .nobody rfl ?_⟩
    change { r.outcome with status := .running } = _
    rw [hout]
    rfl
  | beat r | advanced r => exact (h r rfl).2.keep call rfl rfl
  | orphaned r ttl grace live expiresAt hop hw hexp =>
    obtain ⟨hid, hstart, htold⟩ := h r rfl
    obtain ⟨hopen, -, -, hlive⟩ := orphanable_iff.1 hw
    have hout := htold.of_open hopen
    refine ⟨(FromCalls.keep ⟨hstart, htold⟩ call rfl rfl).started, .sweep call hcall ttl grace live hop hlive expiresAt hexp ?_⟩
    simp only [JobRecord.outcome, JobOutcome.mk.injEq] at hout
    cases hkit : r.kitExecution.isSome <;> simp [JobRecord.outcome, setOrphaned, sweptOutcome, hout, hkit]
  | edited r r' he => exact (h r rfl).2.keep call (by rw [he]; rfl) (outcome_edited he)
  | completed r input expiresAt hop hid hs hexp =>
    obtain ⟨hid', hstart, htold⟩ := h r rfl
    exact ⟨(FromCalls.keep ⟨hstart, htold⟩ call rfl rfl).started,
      .completion call hcall input hop (hid.trans hid'.symm) expiresAt hexp rfl⟩

/-- **Every row is accounted for**: in every run, it is that of one of its starts, and its outcome is that of one of its completions
or of a sweep that found its lease expired. -/
theorem row_accounted (calls : List Call) (r : JobRecord) (h : r ∈ (Run.final step Db.empty calls).jobs.rows) :
    FromCalls calls r := by
  have hrun : ∀ id r, (Run.final step Db.empty calls).jobs.get id = some r → FromCalls calls r := by
    refine Run.history_induction (P := fun (db : Db) calls => ∀ id r, db.jobs.get id = some r → FromCalls calls r) ?_ ?_ calls
    · rintro id r ⟨⟩
    · intro db calls call ih id
      exact FromCalls.move (fun r hr => ⟨Table.key_of_get hr, ih id r hr⟩) (step_move db call id)
  exact hrun r.id r (Table.get_of_mem h)

/-- A job that has been started and completed. -/
def startAndComplete : List Call :=
  [⟨⟨none, 0, 30000, IsoTime.isoDateParse⟩, ⟨0, 0, zero_le_maxTime⟩, .recordStart (.plain "job" "1970-01-01T00:00:00.000Z")⟩,
    ⟨⟨none, 0, 30000, IsoTime.isoDateParse⟩, ⟨0, 0, zero_le_maxTime⟩,
      .recordComplete (.plain "job" .completed "1970-01-01T00:00:00.000Z")⟩]

theorem row_accounted_completed : ∃ r, r.status = .completed ∧ FromCalls startAndComplete r :=
  ⟨setComplete (.plain "job" .completed "1970-01-01T00:00:00.000Z") FAR_FUTURE_ISO
      (startRow ⟨none, 0, 30000, IsoTime.isoDateParse⟩ ⟨0, 0, zero_le_maxTime⟩ (.plain "job" "1970-01-01T00:00:00.000Z")),
    rfl, row_accounted startAndComplete _ (by decide +kernel)⟩

end LlmGateway.JobStore
