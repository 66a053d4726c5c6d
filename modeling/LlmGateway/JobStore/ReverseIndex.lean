import LlmGateway.JobStore.Validation

/-!
# The reverse index and the stored links

* `ValidationRunRecord.names`, `IndexAgrees` — the rows of the reverse index are the links the runs store;
* `IndexSafe` — the two operations whose inserts may be ignored are given jobs that are new, or known;
* `step_agrees_iff` — a step keeps the agreement exactly when it is safe;
* `reverse_index_agreement` — the same of every run from the empty tables.
-/

namespace LlmGateway.JobStore

open LlmGateway.Lib

variable {db db' : Db} {call : Call}

/-! ## The agreement -/

/-- The run stores a link to the job in this role. -/
def ValidationRunRecord.names (run : ValidationRunRecord) (jobId : String) : ValidationRole → Prop
  | .provider => jobId ∈ run.providerLinks.map ValidationRunLink.jobId
  | .judge => run.judgeLink.map ValidationRunLink.jobId = some jobId

/-- **The reverse index is the links**: a row is there exactly when the run stores the link. -/
def IndexAgrees (db : Db) : Prop :=
  ∀ jobId validationId role, db.validationRunJobs.get jobId = some ⟨jobId, validationId, role⟩ ↔
    ∃ run, db.validationRuns.get validationId = some run ∧ run.names jobId role

/-- A row of the index is found under the job it names. -/
theorem row_of_get {jobId : String} {j : ValidationRunJob} (h : db.validationRunJobs.get jobId = some j) :
    db.validationRunJobs.get jobId = some ⟨jobId, j.validationId, j.role⟩ := by
  have hkey := Table.key_of_get h
  rw [h]
  cases j
  cases hkey
  rfl

/-- What the lookup of a job answers, when the index agrees. -/
theorem IndexAgrees.lookup (h : IndexAgrees db) (jobId validationId : String) :
    getValidationRunIdByJobId db jobId = some validationId ↔
      ∃ run role, db.validationRuns.get validationId = some run ∧ run.names jobId role := by
  unfold getValidationRunIdByJobId
  rw [Option.map_eq_some_iff]
  constructor
  · rintro ⟨j, hj, rfl⟩
    obtain ⟨run, hrun, hnames⟩ := (h jobId j.validationId j.role).1 (row_of_get hj)
    exact ⟨run, j.role, hrun, hnames⟩
  · rintro ⟨run, role, hrun, hnames⟩
    exact ⟨_, (h jobId validationId role).2 ⟨run, hrun, hnames⟩, rfl⟩

/-- Of a job without a row, no run stores a link. -/
theorem IndexAgrees.not_names (h : IndexAgrees db) {jobId : String} (hnone : db.validationRunJobs.get jobId = none)
    {validationId : String} {run : ValidationRunRecord} (hrun : db.validationRuns.get validationId = some run)
    (role : ValidationRole) : ¬run.names jobId role := by
  intro hnames
  rw [(h jobId validationId role).2 ⟨run, hrun, hnames⟩] at hnone
  cases hnone

/-! ## Keeping it -/

/-- One run is rewritten, its rows are rewritten with it, and the rows of the other runs stay. -/
theorem agrees_rewrite {row row' : ValidationRunRecord} (h : IndexAgrees db) (hr : Rewrites db db' row row')
    (hself : ∀ jobId role, db'.validationRunJobs.get jobId = some ⟨jobId, row.validationId, role⟩ ↔
      row'.names jobId role)
    (hother : ∀ jobId validationId role, validationId ≠ row.validationId →
      (db'.validationRunJobs.get jobId = some ⟨jobId, validationId, role⟩ ↔
        db.validationRunJobs.get jobId = some ⟨jobId, validationId, role⟩)) : IndexAgrees db' := by
  intro jobId validationId role
  rw [hr.2.2]
  by_cases hid : row.validationId = validationId
  · subst hid
    rw [if_pos rfl, hself]
    simp
  · rw [if_neg hid, hother jobId validationId role (Ne.symm hid)]
    exact h jobId validationId role

/-- One link is added to a run, and its row to the index, which had none for the job. -/
theorem agrees_link {row row' : ValidationRunRecord} {added : String} {role : ValidationRole} (h : IndexAgrees db)
    (hr : Rewrites db db' row row') (hnone : db.validationRunJobs.get added = none)
    (hj : ∀ jobId, db'.validationRunJobs.get jobId =
      if added = jobId then some ⟨added, row.validationId, role⟩ else db.validationRunJobs.get jobId)
    (hnames : ∀ jobId role', row'.names jobId role' ↔ row.names jobId role' ∨ added = jobId ∧ role' = role) :
    IndexAgrees db' := by
  refine agrees_rewrite h hr (fun jobId role' => ?_) fun jobId validationId role' hne => ?_
  · rw [hj, hnames]
    by_cases ha : added = jobId
    · subst ha
      have hno := h.not_names hnone hr.1 role'
      simp [hno, eq_comm]
    · rw [if_neg ha, h jobId row.validationId role', hr.1]
      simp [ha]
  · rw [hj]
    by_cases ha : added = jobId
    · subst ha
      rw [if_pos rfl, hnone]
      simp [Ne.symm hne]
    · rw [if_neg ha]

theorem names_setJudgeLink {row : ValidationRunRecord} {link : ValidationRunLink} (hnone : row.judgeLink = none)
    (jobId : String) (role : ValidationRole) :
    (setJudgeLink link row).names jobId role ↔ row.names jobId role ∨ link.jobId = jobId ∧ role = .judge := by
  cases role <;> simp [ValidationRunRecord.names, setJudgeLink, hnone]

theorem names_append {row : ValidationRunRecord} {link : ValidationRunLink} (jobId : String) (role : ValidationRole) :
    (setProviderLinks (row.providerLinks ++ [link]) row).names jobId role ↔
      row.names jobId role ∨ link.jobId = jobId ∧ role = .provider := by
  cases role <;> simp [ValidationRunRecord.names, setProviderLinks, eq_comm]

/-- A rewrite of the status keeps the agreement. -/
theorem agrees_setStatus {row : ValidationRunRecord} {status : ValidationRunStatus} (h : IndexAgrees db)
    (hr : Rewrites db db' row (setStatus status row)) (hj : db'.validationRunJobs = db.validationRunJobs) :
    IndexAgrees db' := by
  refine agrees_rewrite h hr (fun jobId role => ?_) fun jobId validationId role _ => by rw [hj]
  rw [hj, h jobId row.validationId role, hr.1]
  have hsame : (setStatus status row).names jobId role ↔ row.names jobId role := by cases role <;> rfl
  simp [hsame]

/-- The provider links of a run are replaced, and its provider rows with them. -/
theorem agrees_relink {row : ValidationRunRecord} {links : List ValidationRunLink} (h : IndexAgrees db)
    (hr : Rewrites db db' row (setProviderLinks links row))
    (hfresh : ∀ jobId ∈ links.map ValidationRunLink.jobId, ∀ j, db.validationRunJobs.get jobId = some j →
      j.validationId = row.validationId ∧ j.role = .provider)
    (hj : ∀ jobId, db'.validationRunJobs.get jobId =
      if jobId ∈ links.map ValidationRunLink.jobId then some ⟨jobId, row.validationId, .provider⟩
      else (db.validationRunJobs.get jobId).filter fun j =>
        !(j.validationId == row.validationId && j.role == .provider)) :
    IndexAgrees db' := by
  refine agrees_rewrite h hr (fun jobId role => ?_) fun jobId validationId role hne => ?_
  · rw [hj]
    cases role with
    | provider =>
      by_cases hmem : jobId ∈ links.map ValidationRunLink.jobId
      · rw [if_pos hmem]
        exact ⟨fun _ => hmem, fun _ => rfl⟩
      · rw [if_neg hmem, Option.filter_eq_some_iff]
        simp only [beq_self_eq_true, Bool.and_self, Bool.not_true, Bool.false_eq_true, and_false, false_iff]
        exact hmem
    | judge =>
      have hjudge : (setProviderLinks links row).names jobId .judge ↔ row.names jobId .judge := Iff.rfl
      have hold := h jobId row.validationId .judge
      rw [hr.1] at hold
      by_cases hmem : jobId ∈ links.map ValidationRunLink.jobId
      · rw [if_pos hmem, hjudge]
        constructor
        · intro he
          cases he
        · intro hnames
          have hrow := hold.2 ⟨row, rfl, hnames⟩
          have := (hfresh jobId hmem _ hrow).2
          cases this
      · rw [if_neg hmem, Option.filter_eq_some_iff, hjudge, hold]
        simp
  · rw [hj]
    by_cases hmem : jobId ∈ links.map ValidationRunLink.jobId
    · rw [if_pos hmem]
      constructor
      · intro he
        cases he
        exact absurd rfl hne
      · intro hrow
        exact absurd (hfresh jobId hmem _ hrow).1 hne
    · rw [if_neg hmem, Option.filter_eq_some_iff]
      simp [hne]

/-- Runs are deleted with their rows. -/
theorem agrees_evict {ids : List String} (h : IndexAgrees db)
    (hr : ∀ id, db'.validationRuns.get id = if id ∈ ids then none else db.validationRuns.get id)
    (hj : ∀ jobId, db'.validationRunJobs.get jobId =
      (db.validationRunJobs.get jobId).filter fun j => !ids.contains j.validationId) : IndexAgrees db' := by
  intro jobId validationId role
  rw [hr, hj, Option.filter_eq_some_iff, h jobId validationId role]
  by_cases hmem : validationId ∈ ids <;> simp [hmem]

/-! ## Safe steps -/

/-- A first recording brings new jobs and no judge, a repeated one brings known jobs, and a judge's job is new. -/
def IndexSafe (db : Db) (call : Call) : Prop :=
  match call.op with
  | .recordValidationRun run =>
    if (db.validationRuns.get run.validationId).isSome then
      ∀ link ∈ run.providerLinks, db.validationRunJobs.get link.jobId ≠ none
    else run.judgeLink = none ∧ ∀ link ∈ run.providerLinks, db.validationRunJobs.get link.jobId = none
  | .setValidationJudgeLink validationId link =>
    JudgeOpen db validationId → db.validationRunJobs.get link.jobId = none
  | _ => True

/-- A first recording keeps the agreement exactly when its jobs are new and it names no judge. -/
theorem agrees_recorded_iff {run : ValidationRunRecord} (h : IndexAgrees db) (hrec : Records db db' run)
    (hnew : db.validationRuns.get run.validationId = none) :
    IndexAgrees db' ↔ run.judgeLink = none ∧ ∀ link ∈ run.providerLinks, db.validationRunJobs.get link.jobId = none := by
  obtain ⟨hr, hj⟩ := hrec
  have hunknown : ∀ jobId role, db.validationRunJobs.get jobId ≠ some ⟨jobId, run.validationId, role⟩ := by
    intro jobId role hrow
    obtain ⟨_, hrun, -⟩ := (h jobId run.validationId role).1 hrow
    rw [hnew] at hrun
    cases hrun
  have hget : db'.validationRuns.get run.validationId = some run := by
    rw [hr, if_pos rfl, hnew]
    rfl
  constructor
  · intro h'
    have hprovider : ∀ link ∈ run.providerLinks, db.validationRunJobs.get link.jobId = none := by
      intro link hlink
      have hmem := List.mem_map_of_mem (f := ValidationRunLink.jobId) hlink
      have hrow := (h' link.jobId run.validationId .provider).2 ⟨run, hget, hmem⟩
      rw [hj, if_pos hmem] at hrow
      cases hold : db.validationRunJobs.get link.jobId with
      | none => rfl
      | some j =>
        rw [hold] at hrow
        exact absurd (hold.trans hrow) (hunknown link.jobId .provider)
    refine ⟨?_, hprovider⟩
    cases hjudge : run.judgeLink with
    | none => rfl
    | some link =>
      have hrow := (h' link.jobId run.validationId .judge).2 ⟨run, hget, by simp [ValidationRunRecord.names, hjudge]⟩
      rw [hj] at hrow
      by_cases hmem : link.jobId ∈ run.providerLinks.map ValidationRunLink.jobId
      · obtain ⟨provider, hin, he⟩ := List.mem_map.1 hmem
        have hnone := hprovider provider hin
        rw [he] at hnone
        rw [if_pos hmem, hnone] at hrow
        cases hrow
      · rw [if_neg hmem] at hrow
        exact absurd hrow (hunknown link.jobId .judge)
  · rintro ⟨hjudge, hprovider⟩ jobId validationId role
    have hfresh : jobId ∈ run.providerLinks.map ValidationRunLink.jobId → db.validationRunJobs.get jobId = none := by
      intro hmem
      obtain ⟨link, hlink, rfl⟩ := List.mem_map.1 hmem
      exact hprovider link hlink
    rw [hr, hj]
    by_cases hid : run.validationId = validationId
    · subst hid
      rw [if_pos rfl, hnew]
      by_cases hmem : jobId ∈ run.providerLinks.map ValidationRunLink.jobId
      · rw [if_pos hmem, hfresh hmem]
        cases role with
        | provider => exact ⟨fun _ => ⟨run, rfl, hmem⟩, fun _ => rfl⟩
        | judge => simp [ValidationRunRecord.names, hjudge]
      · rw [if_neg hmem]
        constructor
        · intro hrow
          exact absurd hrow (hunknown jobId role)
        · rintro ⟨_, hrun, hnames⟩
          cases hrun
          cases role with
          | provider => exact absurd hnames hmem
          | judge => simp [ValidationRunRecord.names, hjudge] at hnames
    · rw [if_neg hid, ← h jobId validationId role]
      by_cases hmem : jobId ∈ run.providerLinks.map ValidationRunLink.jobId
      · rw [if_pos hmem, hfresh hmem]
        simp [hid]
      · rw [if_neg hmem]

/-- A repeated recording keeps the agreement exactly when its jobs are known. -/
theorem agrees_repeated_iff {run row : ValidationRunRecord} (h : IndexAgrees db) (hrec : Records db db' run)
    (hrow : db.validationRuns.get run.validationId = some row) :
    IndexAgrees db' ↔ ∀ link ∈ run.providerLinks, db.validationRunJobs.get link.jobId ≠ none := by
  obtain ⟨hr, hj⟩ := hrec
  have hruns : ∀ id, db'.validationRuns.get id = db.validationRuns.get id := by
    intro id
    rw [hr]
    split
    · rename_i hid
      rw [← hid, hrow]
      rfl
    · rfl
  constructor
  · intro h' link hlink hnone
    have hmem := List.mem_map_of_mem (f := ValidationRunLink.jobId) hlink
    have hadded : db'.validationRunJobs.get link.jobId = some ⟨link.jobId, run.validationId, .provider⟩ := by
      rw [hj, if_pos hmem, hnone]
      rfl
    obtain ⟨stored, hstored, hnames⟩ := (h' link.jobId run.validationId .provider).1 hadded
    rw [hruns] at hstored
    exact h.not_names hnone hstored .provider hnames
  · intro hknown jobId validationId role
    have hsame : db'.validationRunJobs.get jobId = db.validationRunJobs.get jobId := by
      rw [hj]
      split
      · rename_i hmem
        obtain ⟨link, hlink, rfl⟩ := List.mem_map.1 hmem
        obtain ⟨j, hj⟩ := Option.ne_none_iff_exists'.1 (hknown link hlink)
        rw [hj]
        rfl
      · rfl
    rw [hsame, hruns]
    exact h jobId validationId role

/-- A judge's link that is ignored by the index breaks the agreement. -/
theorem not_agrees_judged {row : ValidationRunRecord} {link : ValidationRunLink} (h : IndexAgrees db)
    (hrow : db.validationRuns.get row.validationId = some row) (hnone : row.judgeLink = none)
    (hr : db'.validationRuns.get row.validationId = some (setJudgeLink link row))
    (hj : db'.validationRunJobs.get link.jobId = db.validationRunJobs.get link.jobId) : ¬IndexAgrees db' := by
  intro h'
  have hindexed := (h' link.jobId row.validationId .judge).2 ⟨_, hr, rfl⟩
  rw [hj, h link.jobId row.validationId .judge, hrow] at hindexed
  obtain ⟨_, he, hnames⟩ := hindexed
  cases he
  simp [ValidationRunRecord.names, hnone] at hnames

/-! ## Runs -/

theorem recordValidationRun_agrees_iff {run : ValidationRunRecord} (h : IndexAgrees db)
    (hop : call.op = .recordValidationRun run) : IndexAgrees (step db call).1 ↔ IndexSafe db call := by
  have hstep : (step db call).1 = recordValidationRun db run := by simp [step, perform, hop]
  have hrec := records_recordValidationRun db run
  rw [hstep, IndexSafe, hop]
  dsimp only
  cases hrow : db.validationRuns.get run.validationId with
  | none =>
    rw [if_neg (by simp)]
    exact agrees_recorded_iff h hrec hrow
  | some row =>
    rw [if_pos (Option.isSome_some)]
    exact agrees_repeated_iff h hrec hrow

theorem setValidationJudgeLink_agrees_iff {validationId : String} {link : ValidationRunLink} (h : IndexAgrees db)
    (hop : call.op = .setValidationJudgeLink validationId link) :
    IndexAgrees (step db call).1 ↔ IndexSafe db call := by
  rw [IndexSafe, hop]
  dsimp only
  cases hset : setValidationJudgeLink db validationId link with
  | error e =>
    have hstep : (step db call).1 = db := by simp [step, perform, hop, hset, Except.map]
    rw [hstep]
    refine ⟨fun _ hopen => ?_, fun _ => h⟩
    obtain ⟨_, hok⟩ := setValidationJudgeLink_of_open hopen link
    rw [hset] at hok
    cases hok
  | ok db' =>
    have hstep : (step db call).1 = db' := by simp [step, perform, hop, hset, Except.map]
    obtain ⟨hopen, row, hrow, hnone, hr, hj, -⟩ := setValidationJudgeLink_ok hset
    obtain rfl := Table.key_of_get hrow
    rw [hstep]
    have hget : ∀ jobId, db'.validationRunJobs.get jobId = if link.jobId = jobId then
        some ((db.validationRunJobs.get jobId).getD ⟨link.jobId, row.validationId, .judge⟩)
        else db.validationRunJobs.get jobId := by
      intro jobId
      rw [hj, Table.get_insertOrIgnore]
    constructor
    · intro h' _
      by_contra hknown
      refine not_agrees_judged h hrow hnone (by rw [hr.2.2, if_pos rfl]) ?_ h'
      obtain ⟨j, hj⟩ := Option.ne_none_iff_exists'.1 hknown
      rw [hget, if_pos rfl, hj]
      rfl
    · intro hsafe
      have hfresh := hsafe hopen
      refine agrees_link h hr hfresh (fun jobId => ?_) (names_setJudgeLink hnone)
      rw [hget]
      by_cases ha : link.jobId = jobId
      · rw [if_pos ha, if_pos ha, ← ha, hfresh]
        rfl
      · rw [if_neg ha, if_neg ha]

/-- The other operations insert strictly, or delete a run with its rows. -/
theorem step_agrees (h : IndexAgrees db) (hrecord : ∀ run, call.op ≠ .recordValidationRun run)
    (hjudge : ∀ validationId link, call.op ≠ .setValidationJudgeLink validationId link) :
    IndexAgrees (step db call).1 := by
  cases step_validation db call with
  | same hr hj hc =>
    intro jobId validationId role
    rw [hr, hj]
    exact h jobId validationId role
  | recorded run hop => exact absurd hop (hrecord run)
  | linked row link hop hr hj hc =>
    exact agrees_link h hr (Table.get_of_insert hj) (fun jobId => Table.get_insert hj jobId) names_append
  | claimed row link hop hnone hr hj hc =>
    exact agrees_link h hr (Table.get_of_insert hj) (fun jobId => Table.get_insert hj jobId) (names_setJudgeLink hnone)
  | relinked row links hop hr hfresh hj hc => exact agrees_relink h hr hfresh hj
  | judged row link hop => exact absurd hop (hjudge _ _)
  | transitioned row owner status hop hr hj hc
  | skipped row hop hs hr hj hc
  | finalized row receipt hop hid howner hr hj hc => exact agrees_setStatus h hr hj
  | evicted ids hop hs hr hj hc => exact agrees_evict h hr hj

/-- **A step keeps the agreement exactly when it is safe.** -/
theorem step_agrees_iff (h : IndexAgrees db) (call : Call) : IndexAgrees (step db call).1 ↔ IndexSafe db call := by
  cases hop : call.op with
  | recordValidationRun run => exact recordValidationRun_agrees_iff h hop
  | setValidationJudgeLink validationId link => exact setValidationJudgeLink_agrees_iff h hop
  | _ =>
    have hsafe : IndexSafe db call := by
      unfold IndexSafe
      rw [hop]
      trivial
    refine ⟨fun _ => hsafe, fun _ => step_agrees h ?_ ?_⟩
    · intro run he
      rw [hop] at he
      cases he
    · intro validationId link he
      rw [hop] at he
      cases he

/-- **The reverse index agrees with the stored links** in every state of a run from the empty tables exactly when every
step of the run is safe; and in a state that agrees, a job is looked up to a run exactly when that run stores a link
to it. -/
theorem reverse_index_agreement (calls : List Call) :
    (Run.Throughout step IndexAgrees Db.empty calls ↔ Run.Along step IndexSafe Db.empty calls) ∧
    (Run.Along step IndexSafe Db.empty calls → ∀ as bs, calls = as ++ bs → ∀ jobId validationId,
      (getValidationRunIdByJobId (Run.final step Db.empty as) jobId = some validationId ↔
        ∃ run role, (Run.final step Db.empty as).validationRuns.get validationId = some run ∧ run.names jobId role)) := by
  have hempty : IndexAgrees Db.empty := by
    intro jobId validationId role
    simp [Db.empty]
  have hiff : Run.Throughout step IndexAgrees Db.empty calls ↔ Run.Along step IndexSafe Db.empty calls :=
    Run.throughout_iff_along (P := IndexAgrees) (fun _ call h => step_agrees_iff h call) hempty calls
  refine ⟨hiff, fun hsafe as bs he jobId validationId => ?_⟩
  have hagrees := Run.throughout_iff.1 (hiff.2 hsafe) as bs he
  exact hagrees.lookup jobId validationId

/-- A run recorded again with another link: its job is looked up to the run, which does not store it. -/
theorem repeat_indexes_unknown_job :
    let cfg : Config := ⟨none, 0, 30000, IsoTime.isoDateParse⟩
    let now : Clock := ⟨0, 0, by decide⟩
    let record (jobId : String) : Call :=
      ⟨cfg, now, .recordValidationRun (.plain "run" [⟨"claude", jobId, jobId⟩] .running)⟩
    let db := Run.final step Db.empty [record "job1", record "job2"]
    getValidationRunIdByJobId db "job2" = some "run" ∧
      (db.validationRuns.get "run").map (fun run => run.providerLinks.map ValidationRunLink.jobId) = some ["job1"] ∧
      ¬IndexAgrees db := by
  intro cfg now record db
  have hlookup : getValidationRunIdByJobId db "job2" = some "run" := by decide +kernel
  have hstored : db.validationRuns.get "run" = some (.plain "run" [⟨"claude", "job1", "job1"⟩] .running) := by
    decide +kernel
  refine ⟨hlookup, by rw [hstored]; rfl, fun h => ?_⟩
  obtain ⟨run, role, hrun, hnames⟩ := (h.lookup "job2" "run").1 hlookup
  obtain rfl := Option.some.inj (hstored.symm.trans hrun)
  cases role <;> simp [ValidationRunRecord.names, ValidationRunRecord.plain] at hnames

end LlmGateway.JobStore
