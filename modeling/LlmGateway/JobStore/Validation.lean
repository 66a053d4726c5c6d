import LlmGateway.JobStore.ValidationRows

/-!
# Runs and receipts agree

* `RunMove`, `step_runMove` — what a step does to the run and the receipt of one id;
* `Op.KeepsFinalized` — no run is recorded as finalized, and none is transitioned out of it or into it;
* `Agrees`, `agrees_run` — a receipt exists exactly for a finalized run, and its owner is the run's;
* `validation_agreement` — the four together, of every run from the empty tables.
-/

namespace LlmGateway.JobStore

open LlmGateway.Lib

variable {db : Db} {id : String} {call : Call}

/-! ## Plain records -/

/-- A validation run of the local principal. -/
def ValidationRunRecord.plain (validationId : String) (links : List ValidationRunLink) (status : ValidationRunStatus) :
    ValidationRunRecord :=
  ⟨validationId, "local", "validate", "1970-01-01T00:00:00.000Z", "null", links, none, status⟩

/-- A receipt for it. -/
def ValidationReceiptRecord.plain (validationId : String) : ValidationReceiptRecord :=
  ⟨validationId, "local", "1970-01-01T00:00:00.000Z", "1", "null", "", none, none, none, [], false, "high"⟩

/-! ## One id -/

/-- What a step can do to the run of an id and its receipt. -/
inductive RunMove (call : Call) (id : String) :
    Option ValidationRunRecord → Option ValidationReceiptRecord →
    Option ValidationRunRecord → Option ValidationReceiptRecord → Prop where
  | same (o : Option ValidationRunRecord) (c : Option ValidationReceiptRecord) : RunMove call id o c o c
  | recorded (run : ValidationRunRecord) (c : Option ValidationReceiptRecord)
      (hop : call.op = .recordValidationRun run) : RunMove call id none c (some run) c
  | linked (row row' : ValidationRunRecord) (c : Option ValidationReceiptRecord) (hs : row'.status = row.status)
      (howner : row'.ownerPrincipal = row.ownerPrincipal)
      (hjudge : row.judgeLink = none ∨ row'.judgeLink = row.judgeLink) : RunMove call id (some row) c (some row') c
  | transitioned (row : ValidationRunRecord) (c : Option ValidationReceiptRecord) (owner : String)
      (status : ValidationRunStatus)
      (hop : call.op = .transitionValidationRunStatus row.validationId owner row.status status) :
      RunMove call id (some row) c (some (setStatus status row)) c
  | skipped (row : ValidationRunRecord) (c : Option ValidationReceiptRecord) (hs : row.status = .running) :
      RunMove call id (some row) c (some (setStatus .judge_skipped row)) c
  | finalized (row : ValidationRunRecord) (c : Option ValidationReceiptRecord) (receipt : ValidationReceiptRecord)
      (howner : row.ownerPrincipal = receipt.ownerPrincipal) :
      RunMove call id (some row) c (some (setStatus .finalized row)) (some (c.getD receipt))
  | evicted (row : ValidationRunRecord) (c : Option ValidationReceiptRecord) (hs : row.status ≠ .finalized) :
      RunMove call id (some row) c none c

/-- A rewritten run moves its own id and no other. -/
theorem RunMove.rewrite {db' : Db} {row row' : ValidationRunRecord} {c c' : Option ValidationReceiptRecord}
    (hr : Rewrites db db' row row') (hself : row.validationId = id → RunMove call id (some row) c (some row') c')
    (hother : row.validationId ≠ id → c' = c) :
    RunMove call id (db.validationRuns.get id) c (db'.validationRuns.get id) c' := by
  obtain ⟨hrow, -, hget⟩ := hr
  rw [hget]
  by_cases hid : row.validationId = id
  · rw [if_pos hid, ← hid, hrow]
    subst hid
    exact hself rfl
  · rw [if_neg hid, hother hid]
    exact .same _ _

theorem step_runMove (db : Db) (call : Call) (id : String) :
    RunMove call id (db.validationRuns.get id) (db.validationReceipts.get id)
      ((step db call).1.validationRuns.get id) ((step db call).1.validationReceipts.get id) := by
  cases step_validation db call with
  | same hr hj hc =>
    rw [hr, hc]
    exact .same _ _
  | recorded run hop hrec hc =>
    rw [hrec.1, hc]
    by_cases hid : run.validationId = id
    · rw [if_pos hid]
      cases db.validationRuns.get id with
      | none => exact .recorded run _ hop
      | some row => exact .same _ _
    · rw [if_neg hid]
      exact .same _ _
  | linked row link hop hr hj hc | relinked row links hop hr hfresh hj hc =>
    rw [hc]
    exact .rewrite hr (fun _ => .linked _ _ _ rfl rfl (Or.inr rfl)) fun _ => rfl
  | claimed row link hop hnone hr hj hc | judged row link hop hnone hr hj hc =>
    rw [hc]
    exact .rewrite hr (fun _ => .linked _ _ _ rfl rfl (Or.inl hnone)) fun _ => rfl
  | transitioned row owner status hop hr hj hc =>
    rw [hc]
    exact .rewrite hr (fun _ => .transitioned row _ owner status hop) fun _ => rfl
  | skipped row hop hs hr hj hc =>
    rw [hc]
    exact .rewrite hr (fun _ => .skipped row _ hs) fun _ => rfl
  | finalized row receipt hop hid howner hr hj hc =>
    rw [hc, Table.get_insertOrIgnore, hid]
    refine .rewrite hr (fun h => ?_) fun h => if_neg h
    rw [if_pos h]
    exact .finalized row _ receipt howner
  | evicted ids hop hs hr hj hc =>
    rw [hr, hc]
    by_cases hid : id ∈ ids
    · rw [if_pos hid]
      cases hrow : db.validationRuns.get id with
      | none => exact .same _ _
      | some row => exact .evicted row _ (hs id hid row hrow)
    · rw [if_neg hid]
      exact .same _ _

/-! ## The agreement -/

/-- The operations that leave the status finalized to `finalizeValidationReceipt`. -/
def Op.KeepsFinalized : Op → Prop
  | .recordValidationRun run => run.status ≠ .finalized
  | .transitionValidationRunStatus _ _ expected status => expected ≠ .finalized ∧ status ≠ .finalized
  | _ => True

/-- A receipt is there exactly when the run is finalized, and has its owner. -/
def Agrees (o : Option ValidationRunRecord) (c : Option ValidationReceiptRecord) : Prop :=
  (c.isSome = true ↔ ∃ run, o = some run ∧ run.status = .finalized) ∧
    ∀ run receipt, o = some run → c = some receipt → receipt.ownerPrincipal = run.ownerPrincipal

theorem agrees_move {o o' : Option ValidationRunRecord} {c c' : Option ValidationReceiptRecord}
    (hop : call.op.KeepsFinalized) (h : Agrees o c) (hm : RunMove call id o c o' c') : Agrees o' c' := by
  obtain ⟨hiff, howned⟩ := h
  cases hm with
  | same => exact ⟨hiff, howned⟩
  | recorded run _ hrec =>
    rw [hrec] at hop
    refine ⟨?_, fun _ _ _ hc => ?_⟩
    · rw [hiff]
      constructor
      · rintro ⟨_, h, -⟩
        cases h
      · rintro ⟨_, h, hs⟩
        cases h
        exact absurd hs hop
    · obtain ⟨_, h, -⟩ := hiff.1 (by rw [hc]; rfl)
      cases h
  | linked row row' _ hs ho =>
    refine ⟨?_, fun run receipt hrun hc => ?_⟩
    · rw [hiff]
      simp [hs]
    · cases hrun
      rw [ho]
      exact howned row receipt rfl hc
  | transitioned row _ owner status htr =>
    rw [htr] at hop
    refine ⟨?_, fun run receipt hrun hc => ?_⟩
    · rw [hiff]
      simp [setStatus, hop.1, hop.2]
    · cases hrun
      exact howned row receipt rfl hc
  | skipped row _ hs =>
    refine ⟨?_, fun run receipt hrun hc => ?_⟩
    · rw [hiff]
      simp [setStatus, hs]
    · cases hrun
      exact howned row receipt rfl hc
  | finalized row _ receipt howner =>
    refine ⟨by simp [setStatus], fun run stored hrun hc => ?_⟩
    cases hrun
    cases c with
    | none =>
      cases hc
      exact howner.symm
    | some stored =>
      cases hc
      exact howned row stored rfl rfl
  | evicted row _ hs =>
    refine ⟨?_, fun _ _ h _ => by cases h⟩
    rw [hiff]
    simp [hs]

theorem agrees_run {calls : List Call} (h : ∀ call ∈ calls, call.op.KeepsFinalized) (id : String) :
    Agrees ((Run.final step Db.empty calls).validationRuns.get id)
      ((Run.final step Db.empty calls).validationReceipts.get id) := by
  refine Run.final_induction_along (C := fun _ call => call.op.KeepsFinalized)
    (P := fun db : Db => Agrees (db.validationRuns.get id) (db.validationReceipts.get id))
    (fun db call hop hd => agrees_move hop hd (step_runMove db call id)) ?_ (Run.along_of_forall h)
  simp [Agrees, Db.empty]

/-! ## What stays -/

/-- A receipt is never changed. -/
theorem RunMove.receipt {o o' : Option ValidationRunRecord} {c' : Option ValidationReceiptRecord}
    {receipt : ValidationReceiptRecord} (h : RunMove call id o (some receipt) o' c') : c' = some receipt := by
  cases h <;> rfl

/-- A finalized run stays, and stays finalized. -/
theorem RunMove.keepsFinalized {run : ValidationRunRecord} {o' : Option ValidationRunRecord}
    {c c' : Option ValidationReceiptRecord} (h : RunMove call id (some run) c o' c') (hop : call.op.KeepsFinalized)
    (hs : run.status = .finalized) : ∃ run', o' = some run' ∧ run'.status = .finalized := by
  cases h with
  | same => exact ⟨run, rfl, hs⟩
  | linked _ run' _ hs' => exact ⟨run', rfl, hs'.trans hs⟩
  | transitioned _ _ owner status htr =>
    rw [htr] at hop
    exact absurd hs hop.1
  | skipped _ _ hr =>
    rw [hr] at hs
    cases hs
  | finalized => exact ⟨_, rfl, rfl⟩
  | evicted _ _ hne => exact absurd hs hne

/-- A judge link is never changed: its run keeps it or is deleted. -/
theorem RunMove.judgeLink {run : ValidationRunRecord} {o' : Option ValidationRunRecord}
    {c c' : Option ValidationReceiptRecord} {link : ValidationRunLink} (h : RunMove call id (some run) c o' c')
    (hlink : run.judgeLink = some link) : o' = none ∨ ∃ run', o' = some run' ∧ run'.judgeLink = some link := by
  cases h with
  | linked _ run' _ _ _ hjudge =>
    rcases hjudge with hnone | hsame
    · rw [hlink] at hnone
      cases hnone
    · exact Or.inr ⟨run', rfl, hsame.trans hlink⟩
  | evicted => exact Or.inl rfl
  | same | transitioned | skipped | finalized => exact Or.inr ⟨_, rfl, hlink⟩

theorem receipt_run {receipt : ValidationReceiptRecord} (h : db.validationReceipts.get id = some receipt)
    (calls : List Call) : (Run.final step db calls).validationReceipts.get id = some receipt := by
  refine Run.final_induction (P := fun db : Db => db.validationReceipts.get id = some receipt)
    (fun db call h => ?_) h calls
  have hm := step_runMove db call id
  rw [h] at hm
  exact hm.receipt

theorem finalized_run {calls : List Call} (hops : ∀ call ∈ calls, call.op.KeepsFinalized)
    (h : ∃ run, db.validationRuns.get id = some run ∧ run.status = .finalized) :
    ∃ run, (Run.final step db calls).validationRuns.get id = some run ∧ run.status = .finalized := by
  refine Run.final_induction_along (C := fun _ call => call.op.KeepsFinalized)
    (P := fun db : Db => ∃ run, db.validationRuns.get id = some run ∧ run.status = .finalized)
    (fun db call hop h => ?_) h (Run.along_of_forall hops)
  obtain ⟨run, hrun, hs⟩ := h
  have hm := step_runMove db call id
  rw [hrun] at hm
  exact hm.keepsFinalized hop hs

theorem judgeLink_run {run : ValidationRunRecord} {link : ValidationRunLink} (hrun : db.validationRuns.get id = some run)
    (hlink : run.judgeLink = some link) (calls : List Call)
    (hpresent : ∀ as bs, calls = as ++ bs → (Run.final step db as).validationRuns.get id ≠ none) :
    ∃ run', (Run.final step db calls).validationRuns.get id = some run' ∧ run'.judgeLink = some link := by
  induction calls generalizing db run with
  | nil => exact ⟨run, hrun, hlink⟩
  | cons call calls ih =>
    have hm := step_runMove db call id
    rw [hrun] at hm
    rcases hm.judgeLink hlink with hnone | ⟨run', hrun', hlink'⟩
    · exact absurd hnone (hpresent [call] calls rfl)
    · exact ih hrun' hlink' fun as bs e => hpresent (call :: as) bs (by rw [e]; rfl)

/-- **Runs, receipts and links agree.**  In every run from the empty tables whose operations leave the status finalized
to `finalizeValidationReceipt`, at every state reached: a receipt is there exactly when its run is finalized, and has
the run's owner.  From then on the receipt stays as it is, the finalized run is not deleted, and a judge link stays as
long as its run does.  An operation that throws leaves all tables as they were. -/
theorem validation_agreement (calls : List Call) (h : ∀ call ∈ calls, call.op.KeepsFinalized) (id : String) :
    let db := Run.final step Db.empty calls
    (((db.validationReceipts.get id).isSome = true ↔
        ∃ run, db.validationRuns.get id = some run ∧ run.status = .finalized) ∧
      ∀ run receipt, db.validationRuns.get id = some run → db.validationReceipts.get id = some receipt →
        receipt.ownerPrincipal = run.ownerPrincipal) ∧
    (∀ later : List Call, (∀ call ∈ later, call.op.KeepsFinalized) →
      (∀ receipt, db.validationReceipts.get id = some receipt →
        (Run.final step db later).validationReceipts.get id = some receipt) ∧
      ((∃ run, db.validationRuns.get id = some run ∧ run.status = .finalized) →
        ∃ run, (Run.final step db later).validationRuns.get id = some run ∧ run.status = .finalized) ∧
      ∀ run link, db.validationRuns.get id = some run → run.judgeLink = some link →
        (∀ as bs, later = as ++ bs → (Run.final step db as).validationRuns.get id ≠ none) →
        ∃ run', (Run.final step db later).validationRuns.get id = some run' ∧ run'.judgeLink = some link) ∧
    ∀ call e, (step db call).2 = .error e → (step db call).1 = db := by
  intro db
  refine ⟨agrees_run h id, fun later hlater => ⟨?_, ?_, ?_⟩, fun call e herr => ?_⟩
  · intro receipt hreceipt
    exact receipt_run hreceipt later
  · intro hrun
    exact finalized_run hlater hrun
  · intro run link hrun hlink hpresent
    exact judgeLink_run hrun hlink later hpresent
  · exact state_of_error herr

/-- A run that is recorded and finalized has its receipt. -/
theorem validation_agreement_minted :
    let cfg : Config := ⟨none, 0, 30000, IsoTime.isoDateParse⟩
    let now : Clock := ⟨0, 0, by decide⟩
    let record : Call := ⟨cfg, now, .recordValidationRun (.plain "run" [] .running)⟩
    let finalize : Call := ⟨cfg, now, .finalizeValidationReceipt (.plain "run")⟩
    (∀ call ∈ [record, finalize], call.op.KeepsFinalized) ∧
      ((Run.final step Db.empty [record, finalize]).validationReceipts.get "run").isSome = true := by
  intro cfg now record finalize
  have h : ∀ call ∈ [record, finalize], call.op.KeepsFinalized := by simp [record, finalize, Op.KeepsFinalized,
    ValidationRunRecord.plain]
  exact ⟨h, (validation_agreement [record, finalize] h "run").1.1.2 ⟨.plain "run" [] .finalized, by decide +kernel, rfl⟩⟩

/-- The two operations left out: a run recorded as finalized has no receipt, and a run transitioned out of finalized
keeps one.  "A receipt exists exactly when the run is finalized" fails on both runs. -/
theorem finalized_without_receipt :
    let cfg : Config := ⟨none, 0, 30000, IsoTime.isoDateParse⟩
    let now : Clock := ⟨0, 0, by decide⟩
    let record (status : ValidationRunStatus) : Call := ⟨cfg, now, .recordValidationRun (.plain "run" [] status)⟩
    let finalize : Call := ⟨cfg, now, .finalizeValidationReceipt (.plain "run")⟩
    let reopen : Call := ⟨cfg, now, .transitionValidationRunStatus "run" "local" .finalized .running⟩
    let db := Run.final step Db.empty [record .finalized]
    let db' := Run.final step Db.empty [record .running, finalize, reopen]
    ((db.validationRuns.get "run").map ValidationRunRecord.status = some .finalized ∧
        (db.validationReceipts.get "run").isSome = false) ∧
      (db'.validationRuns.get "run").map ValidationRunRecord.status = some .running ∧
        (db'.validationReceipts.get "run").isSome = true := by
  decide +kernel

end LlmGateway.JobStore
