import LlmGateway.JobStore.Sqlite

/-!
# What an operation does to a job row

* `step_cases` — a step throws and changes nothing, or its operation returns;
* `JobMove`, `step_move` — the one list of the ways in which a step changes the row of an id: every invariant of the
  job rows is derived from it.
-/

namespace LlmGateway.JobStore

open LlmGateway.Lib

variable {cfg : Config} {now : Clock} {db db' : Db} {id : String} {call : Call}

/-! ## Steps -/

/-- **What a step does**: it throws and leaves the tables as they are, or its operation returns. -/
theorem step_cases (db : Db) (call : Call) :
    (∃ e, step db call = (db, .error e)) ∨
      ∃ ret db', perform call.cfg call.now db call.op = .ok (ret, db') ∧ step db call = (db', .ok ret) := by
  unfold step
  cases perform call.cfg call.now db call.op with
  | error e => exact Or.inl ⟨e, rfl⟩
  | ok x =>
    obtain ⟨ret, db'⟩ := x
    exact Or.inr ⟨ret, db', rfl, rfl⟩

theorem state_of_error {e : String} (h : (step db call).2 = .error e) : (step db call).1 = db := by
  rcases step_cases db call with ⟨_, hstep⟩ | ⟨_, _, -, hstep⟩
  · rw [hstep]
  · rw [hstep] at h
    cases h

theorem perform_of_returned {ret : Ret} (h : (step db call).2 = .ok ret) :
    ∃ db', perform call.cfg call.now db call.op = .ok (ret, db') ∧ step db call = (db', .ok ret) := by
  rcases step_cases db call with ⟨_, hstep⟩ | ⟨_, db', hp, hstep⟩
  · rw [hstep] at h
    cases h
  · rw [hstep] at h
    cases h
    exact ⟨db', hp, hstep⟩

theorem map_ok {α β : Type} {f : α → β} {x : Except String α} {b : β} (h : x.map f = .ok b) :
    ∃ a, x = .ok a ∧ f a = b := by
  cases x with
  | error e => cases h
  | ok a => exact ⟨a, rfl, by injection h⟩

/-! ## Operations that throw -/

theorem insertJob_ok {input : JobStartInput} (h : insertJob cfg now db input = .ok db') :
    ∃ jobs, db.jobs.insert (startRow cfg now input) = some jobs ∧ db' = { db with jobs := jobs } := by
  unfold insertJob at h
  split at h
  · cases h
  · split at h
    · rename_i jobs hj
      cases h
      exact ⟨jobs, hj, rfl⟩
    · cases h

theorem insertRunJob_ok {row : ValidationRunJob} (h : insertRunJob db row = .ok db') :
    ∃ rows, db.validationRunJobs.insert row = some rows ∧ db' = { db with validationRunJobs := rows } := by
  unfold insertRunJob at h
  split at h
  · rename_i rows hr
    cases h
    exact ⟨rows, hr, rfl⟩
  · cases h

/-- What is true of the fences after `insertKitAttemptFence`. -/
theorem insertKitAttemptFence_ok {input : KitAttemptFenceInput} {state : FenceState} {b : Bool}
    (h : insertKitAttemptFence db input state = .ok (b, db')) :
    isKitExecutionRef input.kitExecution = true ∧
      (b = true ∧ (∃ fences, db.kitAttemptFences.insert ⟨input.attemptId, state, input.cli, input.kitExecution,
          input.kitSessionId, input.ownerPrincipal, input.fencedAt⟩ = some fences ∧
          db' = { db with kitAttemptFences := fences }) ∨
        b = false ∧ db' = db ∧ (db.kitAttemptFences.get input.attemptId).isSome) := by
  unfold insertKitAttemptFence cloneKitExecutionRef at h
  split at h
  · cases h
  · rename_i kitExecution hc
    split at hc
    · rename_i hvalid
      cases hc
      refine ⟨hvalid, ?_⟩
      split at h
      · rename_i fences hf
        cases h
        exact Or.inl ⟨rfl, fences, hf, rfl⟩
      · rename_i hf
        cases h
        exact Or.inr ⟨rfl, rfl, Table.insert_eq_none_iff.1 hf⟩
    · cases hc

/-- What `appendValidationJobLink` has done: one run rewritten, one row of the reverse index inserted. -/
theorem appendValidationJobLink_ok {admission : ValidationJobAdmission} {link : ValidationRunLink}
    {owner : Option String} (h : appendValidationJobLink db admission link owner = .ok db') :
    ∃ row, db.validationRuns.get admission.validationId = some row ∧ some row.ownerPrincipal = owner ∧
      (assertReviewJudgeClaim row admission.provider = .ok () ∧
          insertRunJob (updateRun db admission.validationId (setJudgeLink link) (setJudgeLink_validationId link))
            ⟨link.jobId, admission.validationId, .judge⟩ = .ok db' ∨
        row.status = .admitting ∧
          insertRunJob
            (updateRun db admission.validationId (setProviderLinks (row.providerLinks ++ [link]))
              (setProviderLinks_validationId (row.providerLinks ++ [link])))
            ⟨link.jobId, admission.validationId, .provider⟩ = .ok db') := by
  unfold appendValidationJobLink at h
  split at h
  · cases h
  · rename_i row hrow
    split at h
    · cases h
    · rename_i howner
      refine ⟨row, hrow, by simpa using howner, ?_⟩
      split at h
      · split at h
        · cases h
        · rename_i hclaim
          exact Or.inl ⟨hclaim, h⟩
      · split at h
        · cases h
        · rename_i hstatus
          split at h
          · cases h
          · exact Or.inr ⟨by simp at hstatus; exact hstatus.2, h⟩

theorem appendValidationJobLink_frame {admission : ValidationJobAdmission} {link : ValidationRunLink}
    {owner : Option String} (h : appendValidationJobLink db admission link owner = .ok db') :
    ∃ runs rows, db' = { db with validationRuns := runs, validationRunJobs := rows } := by
  obtain ⟨row, -, -, ⟨-, h⟩ | ⟨-, h⟩⟩ := appendValidationJobLink_ok h <;>
    (obtain ⟨rows, -, rfl⟩ := insertRunJob_ok h; exact ⟨_, _, rfl⟩)

/-- The three kinds of admission. -/
theorem recordStart_ok {input : JobStartInput} (h : recordStart cfg now db input = .ok db') :
    input.validationAdmission = none ∧ input.kitExecution = none ∧ insertJob cfg now db input = .ok db' ∨
    (∃ admission, input.validationAdmission = some admission ∧ input.kitExecution = none ∧
      recordValidationStart cfg now db input admission = .ok db') ∨
    ∃ kit, input.validationAdmission = none ∧ input.kitExecution = some kit ∧
      recordKitStart cfg now db input kit = .ok db' := by
  unfold recordStart at h
  split at h
  · cases h
  · split at h
    · rename_i hva hk
      exact Or.inl ⟨hva, hk, h⟩
    · cases h
    · rename_i hva hk
      exact Or.inr (Or.inl ⟨_, hva, hk, h⟩)
    · rename_i hva hk
      exact Or.inr (Or.inr ⟨_, hva, hk, h⟩)

theorem recordValidationStart_ok {input : JobStartInput} {admission : ValidationJobAdmission}
    (h : recordValidationStart cfg now db input admission = .ok db') :
    ∃ db₁, insertJob cfg now db input = .ok db₁ ∧
      appendValidationJobLink db₁ admission ⟨admission.provider, input.id, input.correlationId⟩
        input.ownerPrincipal = .ok db' := by
  unfold recordValidationStart at h
  split at h
  · cases h
  · rename_i hins
    exact ⟨_, hins, h⟩

theorem recordKitStart_ok {input : JobStartInput} {kit : KitExecutionRef}
    (h : recordKitStart cfg now db input kit = .ok db') :
    ∃ session db₁, session = JsText.trim (input.kitSessionId.getD "") ∧ session ≠ "" ∧
      insertKitAttemptFence db ⟨input.id, input.cli, kit, session, input.ownerPrincipal, input.startedAt⟩ .admitted =
        .ok (true, db₁) ∧ insertJob cfg now db₁ input = .ok db' := by
  unfold recordKitStart at h
  dsimp only at h
  split at h
  · cases h
  · rename_i hs
    split at h
    · cases h
    · cases h
    · rename_i hf
      exact ⟨_, _, rfl, hs, hf, h⟩

/-- Every admission inserts the start row. -/
theorem recordStart_jobs {input : JobStartInput} (h : recordStart cfg now db input = .ok db') :
    db.jobs.insert (startRow cfg now input) = some db'.jobs := by
  rcases recordStart_ok h with ⟨-, -, h⟩ | ⟨admission, -, -, h⟩ | ⟨kit, -, -, h⟩
  · obtain ⟨jobs, hj, rfl⟩ := insertJob_ok h
    exact hj
  · obtain ⟨db₁, h₁, h₂⟩ := recordValidationStart_ok h
    obtain ⟨jobs, hj, rfl⟩ := insertJob_ok h₁
    obtain ⟨runs, rows, rfl⟩ := appendValidationJobLink_frame h₂
    exact hj
  · obtain ⟨session, db₁, -, -, hf, h₂⟩ := recordKitStart_ok h
    obtain ⟨-, ⟨-, fences, -, rfl⟩ | ⟨hb, -⟩⟩ := insertKitAttemptFence_ok hf
    · obtain ⟨jobs, hj, rfl⟩ := insertJob_ok h₂
      exact hj
    · cases hb

theorem eq_of_sameKitExecutionRef {left right : KitExecutionRef} (h : sameKitExecutionRef left right = .ok true) :
    left = right := by
  unfold sameKitExecutionRef cloneKitExecutionRef at h
  by_cases hl : isKitExecutionRef left = true <;> by_cases hr : isKitExecutionRef right = true <;>
    simp [hl, hr, bind, Except.bind, pure, Except.pure] at h
  exact h

/-- What the three answers of `fenceUnadmittedKitAttempt` say about the fence of the id. -/
theorem fenceUnadmittedKitAttempt_ok {input : KitAttemptFenceInput} {result : KitAttemptFenceResult}
    (h : fenceUnadmittedKitAttempt db input = .ok (result, db')) :
    result = .reserved ∧ (∃ fences, db.kitAttemptFences.insert ⟨input.attemptId, .recovered, input.cli,
        input.kitExecution, input.kitSessionId, input.ownerPrincipal, input.fencedAt⟩ = some fences ∧
        db' = { db with kitAttemptFences := fences }) ∨
    result ≠ .reserved ∧ db' = db ∧ (db.kitAttemptFences.get input.attemptId).isSome ∧
      (result = .already_recovered → ∃ f, db.kitAttemptFences.get input.attemptId = some f ∧ f.state = .recovered ∧
        f.cli = input.cli ∧ f.kitSessionId = input.kitSessionId ∧ f.kitExecution = input.kitExecution ∧
        recoveredFenceOwnerMatches f.ownerPrincipal input.ownerPrincipal = true) := by
  unfold fenceUnadmittedKitAttempt at h
  split at h
  · cases h
  · rename_i db₁ hf
    cases h
    obtain ⟨-, ⟨-, hins⟩ | ⟨hb, -⟩⟩ := insertKitAttemptFence_ok hf
    · exact Or.inl ⟨rfl, hins⟩
    · cases hb
  · rename_i db₁ hf
    obtain ⟨-, ⟨hb, -⟩ | ⟨-, rfl, hsome⟩⟩ := insertKitAttemptFence_ok hf
    · cases hb
    · refine Or.inr ?_
      split at h
      · cases h
        exact ⟨by simp, rfl, hsome, fun hc => by cases hc⟩
      · rename_i existing hex
        obtain ⟨hget, hp⟩ := Option.filter_eq_some_iff.1 hex
        simp only [Bool.and_eq_true, beq_iff_eq] at hp
        split at h
        · cases h
        · rename_i hsame
          cases h
          exact ⟨by simp, rfl, hsome, fun _ => ⟨existing, hget, hp.1.1.1.1, hp.1.1.1.2, hp.1.1.2,
            eq_of_sameKitExecutionRef hsame, hp.1.2⟩⟩
        · cases h
          exact ⟨by simp, rfl, hsome, fun hc => by cases hc⟩

theorem fenceUnadmittedKitAttempt_frame {input : KitAttemptFenceInput} {result : KitAttemptFenceResult}
    (h : fenceUnadmittedKitAttempt db input = .ok (result, db')) :
    ∃ fences, db' = { db with kitAttemptFences := fences } := by
  rcases fenceUnadmittedKitAttempt_ok h with ⟨-, fences, -, rfl⟩ | ⟨-, rfl, -⟩ <;> exact ⟨_, rfl⟩

/-- The links of a run are written into the reverse index only. -/
theorem foldl_linkRunJob_eq (links : List ValidationRunLink) (validationId : String) (db : Db) :
    ∃ rows, links.foldl (fun db link => linkRunJob db validationId link.jobId .provider) db =
      { db with validationRunJobs := rows } := by
  induction links generalizing db with
  | nil => exact ⟨_, rfl⟩
  | cons link links ih =>
    obtain ⟨rows, hrows⟩ := ih (linkRunJob db validationId link.jobId .provider)
    exact ⟨rows, hrows⟩

theorem insertProviderLinks_ok {links : List ValidationRunLink} {validationId : String}
    (h : insertProviderLinks db validationId links = .ok db') : ∃ rows, db' = { db with validationRunJobs := rows } := by
  induction links generalizing db with
  | nil =>
    cases h
    exact ⟨_, rfl⟩
  | cons link links ih =>
    unfold insertProviderLinks at h
    split at h
    · cases h
    · rename_i db₁ h₁
      obtain ⟨rows₁, -, rfl⟩ := insertRunJob_ok h₁
      obtain ⟨rows, he⟩ := ih h
      exact ⟨rows, he⟩

/-! ## Frames -/

/-- The operations on validation runs. -/
def Op.isValidation : Op → Bool
  | .recordValidationRun _ | .setValidationProviderLinks _ _ | .setValidationJudgeLink _ _
  | .transitionValidationRunStatus _ _ _ _ | .skipValidationJudge _ _ _ | .finalizeValidationReceipt _
  | .evictWedgedValidationRuns _ _ => true
  | _ => false

/-- The operations that claim a Kit attempt id. -/
def Op.isAdmission : Op → Bool
  | .recordStart _ | .fenceUnadmittedKitAttempt _ => true
  | _ => false

theorem recoverStaleJobs_frame {ttl : ℤ} {grace : ℕ} {live : List String} {snapshots : List OrphanedJobSnapshot}
    (h : recoverStaleJobs cfg now db ttl grace live = .ok (snapshots, db')) : ∃ jobs, db' = { db with jobs := jobs } := by
  unfold recoverStaleJobs at h
  dsimp only at h
  split at h
  · cases h
  · cases h
    split <;> exact ⟨_, rfl⟩

theorem recordComplete_frame {input : JobCompletionInput} {b : Bool}
    (h : recordComplete cfg db input = .ok (b, db')) : ∃ jobs, db' = { db with jobs := jobs } := by
  unfold recordComplete at h
  split at h
  · cases h
  · cases h
    exact ⟨_, rfl⟩

/-- An operation that is neither an admission nor about validation runs writes jobs and instances only. -/
theorem perform_frame {op : Op} {ret : Ret} (h : perform cfg now db op = .ok (ret, db')) (ha : op.isAdmission = false)
    (hv : op.isValidation = false) :
    ∃ jobs instances, db' = { db with jobs := jobs, gatewayInstances := instances } := by
  cases op with
  | recordStart | fenceUnadmittedKitAttempt => cases ha
  | recordValidationRun | setValidationProviderLinks | setValidationJudgeLink | transitionValidationRunStatus
    | skipValidationJudge | finalizeValidationReceipt | evictWedgedValidationRuns => cases hv
  | recoverStaleJobs =>
    obtain ⟨⟨_, _⟩, h, he⟩ := map_ok h
    cases he
    obtain ⟨jobs, rfl⟩ := recoverStaleJobs_frame h
    exact ⟨_, _, rfl⟩
  | recordComplete =>
    obtain ⟨⟨_, _⟩, h, he⟩ := map_ok h
    cases he
    obtain ⟨jobs, rfl⟩ := recordComplete_frame h
    exact ⟨_, _, rfl⟩
  | evictExpired =>
    cases h
    split <;> exact ⟨_, _, rfl⟩
  | _ =>
    cases h
    exact ⟨_, _, rfl⟩

/-- An operation on validation runs writes the validation tables only. -/
theorem perform_validation_frame {op : Op} {ret : Ret} (h : perform cfg now db op = .ok (ret, db'))
    (hv : op.isValidation = true) :
    ∃ runs runJobs receipts, db' = { db with
      validationRuns := runs, validationRunJobs := runJobs, validationReceipts := receipts } := by
  cases op with
  | recordValidationRun run =>
    cases h
    obtain ⟨rows, hrows⟩ := foldl_linkRunJob_eq run.providerLinks run.validationId
      { db with validationRuns := db.validationRuns.insertOrIgnore run }
    exact ⟨_, _, _, by rw [recordValidationRun, hrows]⟩
  | setValidationProviderLinks =>
    obtain ⟨_, h, he⟩ := map_ok h
    cases he
    unfold setValidationProviderLinks at h
    split at h
    · cases h
    · obtain ⟨rows, rfl⟩ := insertProviderLinks_ok h
      exact ⟨_, _, _, rfl⟩
  | setValidationJudgeLink =>
    obtain ⟨_, h, he⟩ := map_ok h
    cases he
    unfold setValidationJudgeLink at h
    split at h
    · cases h
    · cases h
      exact ⟨_, _, _, rfl⟩
  | transitionValidationRunStatus =>
    cases h
    exact ⟨_, _, _, rfl⟩
  | skipValidationJudge =>
    obtain ⟨_, h, he⟩ := map_ok h
    cases he
    unfold skipValidationJudge at h
    split at h
    · cases h
    · split at h
      · cases h
      · split at h
        · cases h
        · cases h
          exact ⟨_, _, _, rfl⟩
  | finalizeValidationReceipt =>
    obtain ⟨⟨_, _⟩, h, he⟩ := map_ok h
    cases he
    unfold finalizeValidationReceipt at h
    dsimp only at h
    split at h
    · cases h
    · split at h
      · cases h
      · cases h
        exact ⟨_, _, _, rfl⟩
  | evictWedgedValidationRuns =>
    cases h
    exact ⟨_, _, _, rfl⟩
  | _ => cases hv

/-! ## The moves of a job row -/

/-- A rewrite of the columns that the lifecycle of a job does not depend on. -/
def Edited (r r' : JobRecord) : Prop :=
  r' = { r with
    stdout := r'.stdout
    stderr := r'.stderr
    outputTruncated := r'.outputTruncated
    progressJson := r'.progressJson
    capture := r'.capture
    kitTerminalFinalized := r'.kitTerminalFinalized
    kitTerminalFinalizedAt := r'.kitTerminalFinalizedAt
    mcpArtifactCleanupPending := r'.mcpArtifactCleanupPending }

/-- What a step can do to the row of `id`: one constructor for each statement, with the guard it passed. -/
inductive JobMove (call : Call) (id : String) : Option JobRecord → Option JobRecord → Prop where
  | same (o : Option JobRecord) : JobMove call id o o
  | admitted (input : JobStartInput) (hop : call.op = .recordStart input) (hid : input.id = id) :
      JobMove call id none (some (startRow call.cfg call.now input))
  | launched (r : JobRecord) (pid : Option ℤ) (hop : call.op = .markRunning id pid) (hs : r.status = .queued) :
      JobMove call id (some r) (some (setRunning pid (call.now.db + call.cfg.leaseTtlMs) r))
  | beat (r : JobRecord) (instanceId : String) (hop : call.op = .heartbeat instanceId)
      (howner : r.ownerInstance = some instanceId) (hs : r.status.isOpen = true) :
      JobMove call id (some r) (some (setLease (call.now.db + call.cfg.leaseTtlMs) r))
  | advanced (r : JobRecord) (ttl : ℤ) (grace : ℕ) (live : List String)
      (hop : call.op = .recoverStaleJobs ttl grace live) (hlive : id ∈ live) (hs : r.status.isOpen = true) :
      JobMove call id (some r) (some (setAdvanced (call.now.db + ttl) r))
  | orphaned (r : JobRecord) (ttl : ℤ) (grace : ℕ) (live : List String) (expiresIso : String)
      (hop : call.op = .recoverStaleJobs ttl grace live) (hw : orphanable call.now grace live r = true)
      (hexp : retentionExpiryAt call.now.date call.cfg.retentionMs = .ok expiresIso) :
      JobMove call id (some r) (some (setOrphaned call.now.nowIso expiresIso r))
  | edited (r r' : JobRecord) (h : Edited r r') : JobMove call id (some r) (some r')
  | completed (r : JobRecord) (input : JobCompletionInput) (expiresAt : String)
      (hop : call.op = .recordComplete input) (hid : input.id = id) (hs : completable r = true)
      (hexp : retentionExpiryIso call.cfg input.finishedAt = .ok expiresAt) :
      JobMove call id (some r) (some (setComplete input expiresAt r))
  | evicted (r : JobRecord) (hop : call.op = .evictExpired) (hret : call.cfg.retentionMs.isSome = true)
      (hw : expired call.now.nowIso r = true) : JobMove call id (some r) none

theorem get_updateJobs {p : JobRecord → Bool} {f : JobRecord → JobRecord} {hf : ∀ r, (f r).id = r.id} :
    (updateJobs db p f hf).1.jobs.get id = (db.jobs.get id).map fun r => if p r then f r else r := by
  rw [updateJobs, Table.get_update]

/-- An UPDATE moves the rows it affects and no others. -/
theorem JobMove.update (db : Db) {p : JobRecord → Bool} {f : JobRecord → JobRecord} {hf : ∀ r, (f r).id = r.id}
    (h : ∀ r, r.id = id → p r = true → JobMove call id (some r) (some (f r))) :
    JobMove call id (db.jobs.get id) ((updateJobs db p f hf).1.jobs.get id) := by
  rw [get_updateJobs]
  cases hr : db.jobs.get id with
  | none => exact .same none
  | some r =>
    rw [Option.map_some]
    split
    · rename_i hp
      exact h r (Table.key_of_get hr) hp
    · exact .same _

/-- The same, of an UPDATE of the row with a key. -/
theorem JobMove.update_key {k : String} {q : JobRecord → Bool} {f : JobRecord → JobRecord}
    {hf : ∀ r, (f r).id = r.id} (h : ∀ r, k = id → q r = true → JobMove call id (some r) (some (f r))) :
    JobMove call id (db.jobs.get id) ((updateJob db k q f hf).1.jobs.get id) := by
  refine JobMove.update db fun r hr hp => ?_
  simp only [Bool.and_eq_true, beq_iff_eq] at hp
  exact h r (hp.1 ▸ hr) hp.2

theorem recordStart_move {input : JobStartInput} (hop : call.op = .recordStart input)
    (h : recordStart call.cfg call.now db input = .ok db') :
    JobMove call id (db.jobs.get id) (db'.jobs.get id) := by
  have hj := recordStart_jobs h
  rw [Table.get_insert hj]
  split
  · rename_i hid
    have hnone := Table.get_of_insert hj
    rw [hid] at hnone
    rw [hnone]
    exact .admitted input hop hid
  · exact .same _

theorem orphanable_iff {grace : ℕ} {live : List String} {r : JobRecord} :
    orphanable now grace live r = true ↔ r.status.isOpen = true ∧ (∀ d, r.leaseDeadline = some d → d < now.db) ∧
      (r.transport ≠ .http ∨ ∃ cutoff, strftimeIso (now.db - grace) = some cutoff ∧ r.startedAt < cutoff) ∧
      r.id ∉ live := by
  simp [orphanable, Option.all_eq_true, Option.any_eq_true, and_assoc]

theorem not_orphanable_of_live {grace : ℕ} {live : List String} {r : JobRecord} (h : r.id ∈ live) :
    orphanable now grace live r = false := by
  simp [orphanable, h]

/-- What a sweep makes of a row: a confirmed one is advanced, an expired one is orphaned, and no row is both. -/
def sweepRow (now : Clock) (expiresIso : String) (ttl : ℤ) (grace : ℕ) (live : List String) (r : JobRecord) : JobRecord :=
  if r.id ∈ live then (if r.status.isOpen then setAdvanced (now.db + ttl) r else r)
  else if orphanable now grace live r then setOrphaned now.nowIso expiresIso r else r

/-- The first statement of the sweep leaves the rows it does not confirm as they are. -/
theorem get_advance {ttl : ℤ} {live : List String} :
    (if live.isEmpty then db else advanceLease now db ttl live).jobs.get id =
      (db.jobs.get id).map fun r => if r.id ∈ live ∧ r.status.isOpen = true then setAdvanced (now.db + ttl) r else r := by
  split
  · rename_i h
    obtain rfl := List.isEmpty_iff.1 h
    cases db.jobs.get id <;> simp
  · rw [advanceLease, get_updateJobs]
    refine congrArg (fun f => (db.jobs.get id).map f) (funext fun r => ?_)
    simp [and_comm]

/-- **The sweep**, as its two statements together: what it makes of every row, and which rows it reports. -/
theorem recoverStaleJobs_ok {ttl : ℤ} {grace : ℕ} {live : List String} {snapshots : List OrphanedJobSnapshot}
    (h : recoverStaleJobs cfg now db ttl grace live = .ok (snapshots, db')) :
    ∃ expiresIso, retentionExpiryAt now.date cfg.retentionMs = .ok expiresIso ∧
      (∀ id, db'.jobs.get id = (db.jobs.get id).map (sweepRow now expiresIso ttl grace live)) ∧
      (snapshots.map OrphanedJobSnapshot.id).Nodup ∧
      ∀ id, id ∈ snapshots.map OrphanedJobSnapshot.id ↔
        ∃ r, db.jobs.get id = some r ∧ orphanable now grace live r = true := by
  unfold recoverStaleJobs at h
  dsimp only at h
  split at h
  · cases h
  · rename_i expiresIso hexp
    cases h
    refine ⟨expiresIso, hexp, fun id => ?_, ?_, fun id => ?_⟩
    · rw [get_updateJobs, get_advance]
      cases hr : db.jobs.get id with
      | none => rfl
      | some r =>
        simp only [Option.map_some, sweepRow]
        by_cases hlive : r.id ∈ live
        · by_cases hs : r.status.isOpen = true
          · have hno : orphanable now grace live (setAdvanced (now.db + ttl) r) = false := not_orphanable_of_live hlive
            simp [hlive, hs, hno]
          · simp [hlive, hs, not_orphanable_of_live]
        · simp [hlive]
    · rw [List.map_map]
      exact Table.nodup_select_keys _
    · rw [List.map_map, List.mem_map]
      constructor
      · rintro ⟨r, hr, hid⟩
        obtain ⟨hget, hw⟩ := Table.mem_select.1 hr
        obtain rfl : r.id = id := hid
        rw [get_advance] at hget
        obtain ⟨r₀, hr₀, he⟩ := Option.map_eq_some_iff.1 hget
        have hid₀ := Table.key_of_get hr₀
        by_cases hlive : r.id ∈ live
        · rw [not_orphanable_of_live hlive] at hw
          cases hw
        · rw [if_neg (by simp [hid₀, hlive])] at he
          exact ⟨r₀, hr₀, he ▸ hw⟩
      · rintro ⟨r, hr, hw⟩
        have hid := Table.key_of_get hr
        refine ⟨r, Table.mem_select.2 ⟨?_, hw⟩, hid⟩
        rw [get_advance, hid, hr]
        simp [(orphanable_iff.1 hw).2.2.2]

theorem recoverStaleJobs_move {ttl : ℤ} {grace : ℕ} {live : List String} {snapshots : List OrphanedJobSnapshot}
    (hop : call.op = .recoverStaleJobs ttl grace live)
    (h : recoverStaleJobs call.cfg call.now db ttl grace live = .ok (snapshots, db')) :
    JobMove call id (db.jobs.get id) (db'.jobs.get id) := by
  obtain ⟨expiresIso, hexp, hget, -, -⟩ := recoverStaleJobs_ok h
  rw [hget]
  cases hr : db.jobs.get id with
  | none => exact .same none
  | some r =>
    have hid := Table.key_of_get hr
    rw [Option.map_some, sweepRow]
    split
    · rename_i hlive
      split
      · rename_i hs
        exact .advanced r ttl grace live hop (hid ▸ hlive) hs
      · exact .same _
    · split
      · rename_i horphan
        exact .orphaned r ttl grace live expiresIso hop horphan hexp
      · exact .same _

theorem evictExpired_move (hop : call.op = .evictExpired) :
    JobMove call id (db.jobs.get id) ((evictExpired call.cfg call.now db).2.jobs.get id) := by
  unfold evictExpired
  split
  · exact .same _
  · rename_i ret hret
    dsimp only
    rw [Table.get_delete]
    cases hr : db.jobs.get id with
    | none => exact .same none
    | some r =>
      by_cases hw : expired call.now.nowIso r = true
      · simp only [Option.filter, hw]
        exact .evicted r hop (by simp [hret]) hw
      · simp only [Option.filter, hw]
        exact .same _

theorem perform_move {ret : Ret} (h : perform call.cfg call.now db call.op = .ok (ret, db')) :
    JobMove call id (db.jobs.get id) (db'.jobs.get id) := by
  cases hop : call.op with
  | recordStart input =>
    rw [hop] at h
    obtain ⟨_, h, he⟩ := map_ok h
    cases he
    exact recordStart_move hop h
  | fenceUnadmittedKitAttempt input =>
    rw [hop] at h
    obtain ⟨⟨_, _⟩, h, he⟩ := map_ok h
    cases he
    obtain ⟨_, rfl⟩ := fenceUnadmittedKitAttempt_frame h
    exact .same _
  | markRunning k pid =>
    rw [hop] at h
    cases h
    exact .update_key fun r hk hq => .launched r pid (hk ▸ hop) (by simpa using hq)
  | registerInstance info =>
    rw [hop] at h
    cases h
    exact .same _
  | heartbeat instanceId =>
    rw [hop] at h
    cases h
    refine JobMove.update { db with gatewayInstances := _ } fun r _ hp => ?_
    simp only [Bool.and_eq_true, beq_iff_eq] at hp
    exact .beat r instanceId hop hp.1 hp.2
  | deregisterInstance instanceId =>
    rw [hop] at h
    cases h
    exact .same _
  | recoverStaleJobs ttl grace live =>
    rw [hop] at h
    obtain ⟨⟨_, _⟩, h, he⟩ := map_ok h
    cases he
    exact recoverStaleJobs_move hop h
  | gcInstances ms =>
    rw [hop] at h
    cases h
    exact JobMove.update { db with gatewayInstances := _ } fun r _ _ => .edited _ _ rfl
  | recordOutput k stdout stderr truncated expected
  | recordProgress k progressJson
  | recordProgressIfStatus k status progressJson
  | recordCapture input =>
    rw [hop] at h
    cases h
    exact .update_key fun r _ _ => .edited _ _ rfl
  | recordComplete input =>
    rw [hop] at h
    obtain ⟨⟨_, _⟩, h, he⟩ := map_ok h
    cases he
    unfold recordComplete at h
    split at h
    · cases h
    · rename_i expiresAt hexp
      cases h
      exact .update_key fun r hk hq => .completed r input expiresAt hop hk hq hexp
  | markKitTerminalFinalized k session | acknowledgeMcpArtifactCleanup k hostname artifactScope artifactPath =>
    rw [hop] at h
    cases h
    exact .update_key fun r _ _ => .edited _ _ rfl
  | evictExpired =>
    rw [hop] at h
    cases h
    exact evictExpired_move hop
  | recordValidationRun | setValidationProviderLinks | setValidationJudgeLink | transitionValidationRunStatus
    | skipValidationJudge | finalizeValidationReceipt | evictWedgedValidationRuns =>
    obtain ⟨_, _, _, rfl⟩ := perform_validation_frame h (by rw [hop]; rfl)
    exact .same _

/-- **Every step is a move of every job row.** -/
theorem step_move (db : Db) (call : Call) (id : String) :
    JobMove call id (db.jobs.get id) ((step db call).1.jobs.get id) := by
  rcases step_cases db call with ⟨_, hstep⟩ | ⟨_, _, hp, hstep⟩
  · rw [hstep]
    exact .same _
  · rw [hstep]
    exact perform_move hp

/-! ## Answers -/

theorem updateJob_changes {k : String} {q : JobRecord → Bool} {f : JobRecord → JobRecord}
    {hf : ∀ r, (f r).id = r.id} : (updateJob db k q f hf).2 = if (db.jobs.get k).any q then 1 else 0 :=
  Table.count_key q

theorem get_updateJob {k : String} {q : JobRecord → Bool} {f : JobRecord → JobRecord}
    {hf : ∀ r, (f r).id = r.id} {r : JobRecord} (hr : db.jobs.get k = some r) :
    (updateJob db k q f hf).1.jobs.get k = some (if q r then f r else r) := by
  rw [updateJob, get_updateJobs, hr, Option.map_some, Table.key_of_get hr]
  simp

/-- A completion answers true exactly when it lands, on a row that is not settled. -/
theorem step_complete {input : JobCompletionInput} (hop : call.op = .recordComplete input) :
    (step db call).2 = .ok (.bool true) ↔ ∃ r expiresAt, db.jobs.get input.id = some r ∧ completable r = true ∧
      retentionExpiryIso call.cfg input.finishedAt = .ok expiresAt ∧
      (step db call).1.jobs.get input.id = some (setComplete input expiresAt r) := by
  unfold step perform
  rw [hop]
  dsimp only
  unfold recordComplete
  cases hexp : retentionExpiryIso call.cfg input.finishedAt with
  | error e => simp [Except.map]
  | ok expiresAt =>
    simp only [Except.map, updateJob_changes, Except.ok.injEq, Ret.bool.injEq, decide_eq_true_eq]
    cases hr : db.jobs.get input.id with
    | none => simp
    | some r =>
      rw [get_updateJob hr]
      by_cases hq : completable r = true
      · simp [hq]
      · simp [hq]

/-- A launch answers true exactly when it moves a queued row. -/
theorem step_launch {k : String} {pid : Option ℤ} (hop : call.op = .markRunning k pid) :
    (step db call).2 = .ok (.bool true) ↔ ∃ r, db.jobs.get k = some r ∧ r.status = .queued := by
  unfold step perform
  rw [hop]
  dsimp only
  unfold markRunning
  simp only [updateJob_changes, Except.ok.injEq, Ret.bool.injEq, decide_eq_true_eq]
  cases hr : db.jobs.get k with
  | none => simp
  | some r => by_cases hq : r.status = .queued <;> simp [hq]

/-! ## Plain arguments -/

/-- The admission of a process job, with every optional field absent. -/
def JobStartInput.plain (id startedAt : String) : JobStartInput where
  id := id
  correlationId := id
  requestKey := id
  cli := "claude"
  args := []
  outputFormat := none
  compressResponse := none
  startedAt := startedAt
  pid := none
  ownerPrincipal := none
  ownerInstance := none
  ownerHostname := none
  mcpArtifactPath := none
  mcpArtifactScope := none
  transport := none
  payloadJson := none
  kitExecution := none
  kitSessionId := none
  validationAdmission := none
  cwd := none
  replayContext := none
  captureFormat := none

/-- A completion without output. -/
def JobCompletionInput.plain (id : String) (status : TerminalJobStoreStatus) (finishedAt : String) :
    JobCompletionInput where
  id := id
  status := status
  exitCode := none
  stdout := ""
  stderr := ""
  outputTruncated := false
  error := none
  errorCategory := none
  retryable := none
  finishedAt := finishedAt
  httpStatus := none
  progressJson := none
  capture := none

end LlmGateway.JobStore
