import LlmGateway.JobStore.JobRows

/-!
# What an operation does to the validation tables

* `Rewrites` — one run is rewritten and no other;
* `linkRunJobs_get`, `insertProviderLinks_get` — the reverse index after the links of a run are written, the links that
  conflict being skipped or refused;
* `ValidationMove`, `step_validation` — the one list of the ways in which a step changes the validation tables: the
  agreement of runs with receipts and of runs with the reverse index are both derived from it.
-/

namespace LlmGateway.JobStore

open LlmGateway.Lib

variable {db db' : Db} {call : Call}

/-! ## One run -/

@[simp] theorem updateRun_validationRunJobs {validationId : String} {f : ValidationRunRecord → ValidationRunRecord}
    {hf : ∀ r, (f r).validationId = r.validationId} :
    (updateRun db validationId f hf).validationRunJobs = db.validationRunJobs := rfl

/-- The run `row` becomes `row'`, and no other run changes. -/
def Rewrites (db db' : Db) (row row' : ValidationRunRecord) : Prop :=
  db.validationRuns.get row.validationId = some row ∧ row'.validationId = row.validationId ∧
    ∀ id, db'.validationRuns.get id = if row.validationId = id then some row' else db.validationRuns.get id

/-- An UPDATE of the run with a key. -/
theorem rewrites_update {validationId : String} {row : ValidationRunRecord} {p : ValidationRunRecord → Bool}
    {f : ValidationRunRecord → ValidationRunRecord} (hf : ∀ r, (f r).validationId = r.validationId)
    (hrow : db.validationRuns.get validationId = some row) (hp : ∀ r, p r = true → r.validationId = validationId)
    (hpr : p row = true) (hr : db'.validationRuns = db.validationRuns.update p f hf) : Rewrites db db' row (f row) := by
  have hid := Table.key_of_get hrow
  refine ⟨by rw [hid, hrow], hf row, fun id => ?_⟩
  rw [hr, Table.get_update]
  by_cases h : row.validationId = id
  · rw [if_pos h, ← h, hid, hrow, Option.map_some, if_pos hpr]
  · rw [if_neg h]
    cases hr : db.validationRuns.get id with
    | none => rfl
    | some r =>
      rw [Option.map_some, if_neg]
      intro hpr'
      exact h (hid.trans ((hp r hpr').symm.trans (Table.key_of_get hr)))

theorem rewrites_updateRun {validationId : String} {row : ValidationRunRecord}
    {f : ValidationRunRecord → ValidationRunRecord} (hf : ∀ r, (f r).validationId = r.validationId)
    (hrow : db.validationRuns.get validationId = some row)
    (hr : db'.validationRuns = (updateRun db validationId f hf).validationRuns) : Rewrites db db' row (f row) := by
  have hp : ∀ r : ValidationRunRecord, (r.validationId == validationId) = true → r.validationId = validationId := by simp
  exact rewrites_update hf hrow hp (by simp [Table.key_of_get hrow]) hr

/-- The claim of `setValidationJudgeLink` is open. -/
def JudgeOpen (db : Db) (validationId : String) : Prop :=
  ∃ run, db.validationRuns.get validationId = some run ∧ run.status = .running ∧ run.judgeLink = none ∧
    db.validationReceipts.get validationId = none

/-! ## The reverse index -/

/-- The reverse index once the links are written, a link whose job has a row already being skipped. -/
theorem linkRunJobs_get (links : List ValidationRunLink) (validationId : String) (db : Db) (jobId : String) :
    (links.foldl (fun db link => linkRunJob db validationId link.jobId .provider) db).validationRunJobs.get jobId =
      if jobId ∈ links.map ValidationRunLink.jobId then
        some ((db.validationRunJobs.get jobId).getD ⟨jobId, validationId, .provider⟩)
      else db.validationRunJobs.get jobId := by
  induction links generalizing db with
  | nil => rfl
  | cons link links ih =>
    rw [List.foldl_cons, ih, linkRunJob]
    dsimp only
    rw [Table.get_insertOrIgnore]
    by_cases hl : link.jobId = jobId
    · subst hl
      simp
    · have hl' : jobId ≠ link.jobId := fun e => hl e.symm
      simp [hl, hl']

/-- The reverse index once the links are inserted: no job of theirs had a row. -/
theorem insertProviderLinks_get {links : List ValidationRunLink} {validationId : String}
    (h : insertProviderLinks db validationId links = .ok db') (jobId : String) :
    (jobId ∈ links.map ValidationRunLink.jobId → db.validationRunJobs.get jobId = none) ∧
      db'.validationRunJobs.get jobId =
        if jobId ∈ links.map ValidationRunLink.jobId then some ⟨jobId, validationId, .provider⟩
        else db.validationRunJobs.get jobId := by
  induction links generalizing db with
  | nil =>
    cases h
    exact ⟨fun hmem => absurd hmem List.not_mem_nil, rfl⟩
  | cons link links ih =>
    unfold insertProviderLinks at h
    split at h
    · cases h
    · rename_i db₁ h₁
      obtain ⟨rows, hins, rfl⟩ := insertRunJob_ok h₁
      obtain ⟨hfresh, hget⟩ := ih h
      dsimp only at hfresh hget
      rw [Table.get_insert hins] at hfresh hget
      have hnone := Table.get_of_insert hins
      by_cases hl : link.jobId = jobId
      · subst hl
        refine ⟨fun _ => hnone, ?_⟩
        rw [hget]
        simp
      · have hl' : jobId ≠ link.jobId := fun e => hl e.symm
        rw [if_neg hl] at hfresh hget
        refine ⟨fun hmem => hfresh (by simpa [hl'] using hmem), ?_⟩
        rw [hget]
        simp [hl']

/-- What `recordValidationRun` makes of runs and reverse index: a run or a row that is there already stays. -/
def Records (db db' : Db) (run : ValidationRunRecord) : Prop :=
  (∀ id, db'.validationRuns.get id =
    if run.validationId = id then some ((db.validationRuns.get id).getD run) else db.validationRuns.get id) ∧
  ∀ jobId, db'.validationRunJobs.get jobId =
    if jobId ∈ run.providerLinks.map ValidationRunLink.jobId then
      some ((db.validationRunJobs.get jobId).getD ⟨jobId, run.validationId, .provider⟩)
    else db.validationRunJobs.get jobId

theorem records_recordValidationRun (db : Db) (run : ValidationRunRecord) :
    Records db (recordValidationRun db run) run := by
  obtain ⟨rows, hrows⟩ := foldl_linkRunJob_eq run.providerLinks run.validationId
    { db with validationRuns := db.validationRuns.insertOrIgnore run }
  refine ⟨fun id => ?_, fun jobId => linkRunJobs_get _ _ _ jobId⟩
  rw [recordValidationRun, hrows]
  exact Table.get_insertOrIgnore id

/-! ## The moves of the validation tables -/

/-- What a step can do to runs, reverse index and receipts: one constructor for each way, with the guard it passed. -/
inductive ValidationMove (call : Call) (db db' : Db) : Prop where
  | same (hr : db'.validationRuns = db.validationRuns) (hj : db'.validationRunJobs = db.validationRunJobs)
      (hc : db'.validationReceipts = db.validationReceipts)
  | recorded (run : ValidationRunRecord) (hop : call.op = .recordValidationRun run) (hrec : Records db db' run)
      (hc : db'.validationReceipts = db.validationReceipts)
  | linked (row : ValidationRunRecord) (link : ValidationRunLink) (hop : ∃ input, call.op = .recordStart input)
      (hr : Rewrites db db' row (setProviderLinks (row.providerLinks ++ [link]) row))
      (hj : db.validationRunJobs.insert ⟨link.jobId, row.validationId, .provider⟩ = some db'.validationRunJobs)
      (hc : db'.validationReceipts = db.validationReceipts)
  | claimed (row : ValidationRunRecord) (link : ValidationRunLink) (hop : ∃ input, call.op = .recordStart input)
      (hnone : row.judgeLink = none)
      (hr : Rewrites db db' row (setJudgeLink link row))
      (hj : db.validationRunJobs.insert ⟨link.jobId, row.validationId, .judge⟩ = some db'.validationRunJobs)
      (hc : db'.validationReceipts = db.validationReceipts)
  | relinked (row : ValidationRunRecord) (links : List ValidationRunLink)
      (hop : call.op = .setValidationProviderLinks row.validationId links)
      (hr : Rewrites db db' row (setProviderLinks links row))
      (hfresh : ∀ jobId ∈ links.map ValidationRunLink.jobId, ∀ j, db.validationRunJobs.get jobId = some j →
        j.validationId = row.validationId ∧ j.role = .provider)
      (hj : ∀ jobId, db'.validationRunJobs.get jobId =
        if jobId ∈ links.map ValidationRunLink.jobId then some ⟨jobId, row.validationId, .provider⟩
        else (db.validationRunJobs.get jobId).filter fun j =>
          !(j.validationId == row.validationId && j.role == .provider))
      (hc : db'.validationReceipts = db.validationReceipts)
  | judged (row : ValidationRunRecord) (link : ValidationRunLink)
      (hop : call.op = .setValidationJudgeLink row.validationId link) (hnone : row.judgeLink = none)
      (hr : Rewrites db db' row (setJudgeLink link row))
      (hj : db'.validationRunJobs = db.validationRunJobs.insertOrIgnore ⟨link.jobId, row.validationId, .judge⟩)
      (hc : db'.validationReceipts = db.validationReceipts)
  | transitioned (row : ValidationRunRecord) (owner : String) (status : ValidationRunStatus)
      (hop : call.op = .transitionValidationRunStatus row.validationId owner row.status status)
      (hr : Rewrites db db' row (setStatus status row)) (hj : db'.validationRunJobs = db.validationRunJobs)
      (hc : db'.validationReceipts = db.validationReceipts)
  | skipped (row : ValidationRunRecord)
      (hop : ∃ provider owner, call.op = .skipValidationJudge row.validationId provider owner)
      (hs : row.status = .running) (hr : Rewrites db db' row (setStatus .judge_skipped row))
      (hj : db'.validationRunJobs = db.validationRunJobs) (hc : db'.validationReceipts = db.validationReceipts)
  | finalized (row : ValidationRunRecord) (receipt : ValidationReceiptRecord)
      (hop : call.op = .finalizeValidationReceipt receipt) (hid : receipt.validationId = row.validationId)
      (howner : row.ownerPrincipal = receipt.ownerPrincipal)
      (hr : Rewrites db db' row (setStatus .finalized row)) (hj : db'.validationRunJobs = db.validationRunJobs)
      (hc : db'.validationReceipts = db.validationReceipts.insertOrIgnore receipt)
  | evicted (ids : List String) (hop : ∃ before limit, call.op = .evictWedgedValidationRuns before limit)
      (hs : ∀ id ∈ ids, ∀ row, db.validationRuns.get id = some row → row.status ≠ .finalized)
      (hr : ∀ id, db'.validationRuns.get id = if id ∈ ids then none else db.validationRuns.get id)
      (hj : ∀ jobId, db'.validationRunJobs.get jobId =
        (db.validationRunJobs.get jobId).filter fun j => !ids.contains j.validationId)
      (hc : db'.validationReceipts = db.validationReceipts)

theorem assertReviewJudgeClaim_ok {row : ValidationRunRecord} {provider : String}
    (h : assertReviewJudgeClaim row provider = .ok ()) : row.status = .running ∧ row.judgeLink = none := by
  unfold assertReviewJudgeClaim at h
  split at h
  · cases h
  · rename_i hopen
    simp only [not_or, not_not] at hopen
    split at h
    · cases h
    · rename_i hnone
      exact ⟨hopen.2, by simpa using hnone⟩

theorem recordStart_validation {input : JobStartInput} (hop : call.op = .recordStart input)
    (h : recordStart call.cfg call.now db input = .ok db') : ValidationMove call db db' := by
  rcases recordStart_ok h with ⟨-, -, h⟩ | ⟨admission, -, -, h⟩ | ⟨kit, -, -, h⟩
  · obtain ⟨jobs, -, rfl⟩ := insertJob_ok h
    exact .same rfl rfl rfl
  · obtain ⟨db₁, h₁, h₂⟩ := recordValidationStart_ok h
    obtain ⟨jobs, -, rfl⟩ := insertJob_ok h₁
    obtain ⟨row, hrow, -, ⟨hclaim, hins⟩ | ⟨-, hins⟩⟩ := appendValidationJobLink_ok h₂
    · obtain ⟨rows, hrows, rfl⟩ := insertRunJob_ok hins
      refine .claimed row _ ⟨input, hop⟩ (assertReviewJudgeClaim_ok hclaim).2
        (rewrites_updateRun (setJudgeLink_validationId _) hrow rfl) ?_ rfl
      rw [Table.key_of_get hrow]
      exact hrows
    · obtain ⟨rows, hrows, rfl⟩ := insertRunJob_ok hins
      refine .linked row _ ⟨input, hop⟩ (rewrites_updateRun (setProviderLinks_validationId _) hrow rfl) ?_ rfl
      rw [Table.key_of_get hrow]
      exact hrows
  · obtain ⟨session, db₁, -, -, hf, h₂⟩ := recordKitStart_ok h
    obtain ⟨jobs, -, rfl⟩ := insertJob_ok h₂
    obtain ⟨-, ⟨-, fences, -, rfl⟩ | ⟨hb, -⟩⟩ := insertKitAttemptFence_ok hf
    · exact .same rfl rfl rfl
    · cases hb

theorem recordValidationRun_validation {run : ValidationRunRecord} (hop : call.op = .recordValidationRun run) :
    ValidationMove call db (recordValidationRun db run) := by
  obtain ⟨rows, hrows⟩ := foldl_linkRunJob_eq run.providerLinks run.validationId
    { db with validationRuns := db.validationRuns.insertOrIgnore run }
  exact .recorded run hop (records_recordValidationRun db run) (by rw [recordValidationRun, hrows])

theorem setValidationProviderLinks_validation {validationId : String} {links : List ValidationRunLink}
    (hop : call.op = .setValidationProviderLinks validationId links)
    (h : setValidationProviderLinks db validationId links = .ok db') : ValidationMove call db db' := by
  unfold setValidationProviderLinks at h
  split at h
  · cases h
  · rename_i row hrow
    have hid := Table.key_of_get hrow
    obtain ⟨rows, rfl⟩ := insertProviderLinks_ok h
    have hget := fun jobId => insertProviderLinks_get h jobId
    simp only [updateRun_validationRunJobs, Table.get_delete] at hget
    refine .relinked row links (hid ▸ hop) (rewrites_updateRun (setProviderLinks_validationId links) hrow rfl)
      (fun jobId hmem j hj => ?_) (fun jobId => ?_) rfl
    · have hnone := (hget jobId).1 hmem
      rw [hj, Option.filter_eq_none_iff] at hnone
      simpa [hid] using hnone j rfl
    · rw [(hget jobId).2, hid]

/-- A judge's link is written exactly when the claim is open. -/
theorem setValidationJudgeLink_ok {validationId : String} {link : ValidationRunLink}
    (h : setValidationJudgeLink db validationId link = .ok db') :
    JudgeOpen db validationId ∧ ∃ row, db.validationRuns.get validationId = some row ∧ row.judgeLink = none ∧
      Rewrites db db' row (setJudgeLink link row) ∧
      db'.validationRunJobs = db.validationRunJobs.insertOrIgnore ⟨link.jobId, validationId, .judge⟩ ∧
      db'.validationReceipts = db.validationReceipts := by
  unfold setValidationJudgeLink at h
  split at h
  · cases h
  · rename_i row hrow
    obtain ⟨hrow, hopen⟩ := Option.filter_eq_some_iff.1 hrow
    simp only [Bool.and_eq_true, beq_iff_eq, Option.isNone_iff_eq_none] at hopen
    cases h
    exact ⟨⟨row, hrow, hopen.1.1, hopen.1.2, hopen.2⟩, row, hrow, hopen.1.2,
      rewrites_updateRun (setJudgeLink_validationId link) hrow rfl, rfl, rfl⟩

theorem setValidationJudgeLink_of_open {validationId : String} (h : JudgeOpen db validationId)
    (link : ValidationRunLink) : ∃ db', setValidationJudgeLink db validationId link = .ok db' := by
  obtain ⟨run, hrun, hs, hnone, hreceipt⟩ := h
  unfold setValidationJudgeLink
  rw [hrun, Option.filter_some, if_pos (by simp [hs, hnone, hreceipt])]
  exact ⟨_, rfl⟩

theorem setValidationJudgeLink_validation {validationId : String} {link : ValidationRunLink}
    (hop : call.op = .setValidationJudgeLink validationId link)
    (h : setValidationJudgeLink db validationId link = .ok db') : ValidationMove call db db' := by
  obtain ⟨-, row, hrow, hnone, hr, hj, hc⟩ := setValidationJudgeLink_ok h
  have hid := Table.key_of_get hrow
  exact .judged row link (hid ▸ hop) hnone hr (by rw [hid, hj]) hc

theorem transitionValidationRunStatus_validation {validationId owner : String} {expected status : ValidationRunStatus}
    (hop : call.op = .transitionValidationRunStatus validationId owner expected status) :
    ValidationMove call db (transitionValidationRunStatus db validationId owner expected status).2 := by
  unfold transitionValidationRunStatus
  dsimp only
  by_cases h : ∃ row, db.validationRuns.get validationId = some row ∧ row.ownerPrincipal = owner ∧ row.status = expected
  · obtain ⟨row, hrow, howner, hs⟩ := h
    have hid := Table.key_of_get hrow
    refine .transitioned row owner status (by rw [hop, hid, hs])
      (rewrites_update (setStatus_validationId status) hrow (fun r hr => ?_) ?_ rfl) rfl rfl
    · simp only [Bool.and_eq_true, beq_iff_eq] at hr
      exact hr.1
    · simp [hid, howner, hs]
  · refine .same (Table.update_eq_self (setStatus_validationId status) fun r hr => ?_) rfl rfl
    rw [Bool.eq_false_iff]
    intro hp
    simp only [Bool.and_eq_true, beq_iff_eq] at hp
    exact h ⟨r, Table.get_eq_some_iff.2 ⟨hr, hp.1⟩, hp.2.1, hp.2.2⟩

theorem skipValidationJudge_validation {validationId provider owner : String}
    (hop : call.op = .skipValidationJudge validationId provider owner)
    (h : skipValidationJudge db validationId provider owner = .ok db') : ValidationMove call db db' := by
  unfold skipValidationJudge at h
  split at h
  · cases h
  · rename_i row hrow
    have hid := Table.key_of_get hrow
    split at h
    · cases h
    · split at h
      · cases h
      · rename_i hclaim
        cases h
        exact .skipped row ⟨provider, owner, hid ▸ hop⟩ (assertReviewJudgeClaim_ok hclaim).1
          (rewrites_updateRun (setStatus_validationId .judge_skipped) hrow rfl) rfl rfl

theorem finalizeValidationReceipt_validation {receipt stored : ValidationReceiptRecord}
    (hop : call.op = .finalizeValidationReceipt receipt)
    (h : finalizeValidationReceipt db receipt = .ok (stored, db')) : ValidationMove call db db' := by
  unfold finalizeValidationReceipt at h
  dsimp only at h
  split at h
  · cases h
  · rename_i hcount
    have hkey := Table.count_key (t := db.validationRuns) (k := receipt.validationId)
      fun r => r.ownerPrincipal == receipt.ownerPrincipal
    rw [not_not.1 hcount] at hkey
    have howned : (db.validationRuns.get receipt.validationId).any (fun r => r.ownerPrincipal == receipt.ownerPrincipal) =
        true := by
      by_contra hno
      rw [if_neg hno] at hkey
      cases hkey
    obtain ⟨row, hrow, howner⟩ := (Option.any_eq_true _ _).1 howned
    rw [beq_iff_eq] at howner
    have hid := Table.key_of_get hrow
    split at h
    · cases h
    · cases h
      refine .finalized row receipt hop hid.symm howner
        (rewrites_update (setStatus_validationId .finalized) hrow (fun r hr => ?_) ?_ rfl) rfl rfl
      · simp only [Bool.and_eq_true, beq_iff_eq] at hr
        exact hr.1
      · simp [hid, howner]

theorem mem_selectWedged {createdBeforeIso : String} {limit : ℤ} {id : String}
    (h : id ∈ selectWedged db createdBeforeIso limit) :
    ∃ row, db.validationRuns.get id = some row ∧ wedged db createdBeforeIso row = true := by
  obtain ⟨row, hrow, rfl⟩ := List.mem_map.1 h
  have hsub : row ∈ (db.validationRuns.select (wedged db createdBeforeIso)).insertionSort
      fun a b => a.createdAt ≤ b.createdAt := by
    unfold sqlLimit at hrow
    split at hrow
    · exact hrow
    · exact List.mem_of_mem_take hrow
  rw [List.mem_insertionSort] at hsub
  exact ⟨row, Table.mem_select.1 hsub⟩

theorem evictWedgedValidationRuns_validation {createdBeforeIso : String} {limit : ℤ}
    (hop : call.op = .evictWedgedValidationRuns createdBeforeIso limit) :
    ValidationMove call db (evictWedgedValidationRuns db createdBeforeIso limit).2 := by
  refine .evicted (selectWedged db createdBeforeIso limit) ⟨_, _, hop⟩ (fun id hid row hrow => ?_) (fun id => ?_)
    (fun jobId => Table.get_delete) rfl
  · obtain ⟨row', hrow', hw⟩ := mem_selectWedged hid
    obtain rfl := Option.some.inj (hrow.symm.trans hrow')
    simp only [wedged, Bool.and_eq_true, bne_iff_ne] at hw
    exact hw.1.1
  · unfold evictWedgedValidationRuns
    dsimp only
    rw [Table.get_delete]
    cases hr : db.validationRuns.get id with
    | none => simp
    | some row =>
      have hid := Table.key_of_get hr
      by_cases hmem : id ∈ selectWedged db createdBeforeIso limit
      · simp [Option.filter, hid, hmem]
      · simp [Option.filter, hid, hmem]

/-- **Every step is a move of the validation tables.** -/
theorem step_validation (db : Db) (call : Call) : ValidationMove call db (step db call).1 := by
  rcases step_cases db call with ⟨_, hstep⟩ | ⟨_, _, hp, hstep⟩
  · rw [hstep]
    exact .same rfl rfl rfl
  · rw [hstep]
    cases hop : call.op with
    | recordStart input =>
      rw [hop] at hp
      obtain ⟨_, hp, he⟩ := map_ok hp
      cases he
      exact recordStart_validation hop hp
    | fenceUnadmittedKitAttempt input =>
      rw [hop] at hp
      obtain ⟨⟨_, _⟩, hp, he⟩ := map_ok hp
      cases he
      obtain ⟨_, rfl⟩ := fenceUnadmittedKitAttempt_frame hp
      exact .same rfl rfl rfl
    | recordValidationRun run =>
      rw [hop] at hp
      cases hp
      exact recordValidationRun_validation hop
    | setValidationProviderLinks validationId links =>
      rw [hop] at hp
      obtain ⟨_, hp, he⟩ := map_ok hp
      cases he
      exact setValidationProviderLinks_validation hop hp
    | setValidationJudgeLink validationId link =>
      rw [hop] at hp
      obtain ⟨_, hp, he⟩ := map_ok hp
      cases he
      exact setValidationJudgeLink_validation hop hp
    | transitionValidationRunStatus validationId owner expected status =>
      rw [hop] at hp
      cases hp
      exact transitionValidationRunStatus_validation hop
    | skipValidationJudge validationId provider owner =>
      rw [hop] at hp
      obtain ⟨_, hp, he⟩ := map_ok hp
      cases he
      exact skipValidationJudge_validation hop hp
    | finalizeValidationReceipt receipt =>
      rw [hop] at hp
      obtain ⟨⟨_, _⟩, hp, he⟩ := map_ok hp
      cases he
      exact finalizeValidationReceipt_validation hop hp
    | evictWedgedValidationRuns createdBeforeIso limit =>
      rw [hop] at hp
      cases hp
      exact evictWedgedValidationRuns_validation hop
    | _ =>
      rw [hop] at hp
      obtain ⟨_, _, rfl⟩ := perform_frame hp rfl rfl
      exact .same rfl rfl rfl

end LlmGateway.JobStore
