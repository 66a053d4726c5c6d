import LlmGateway.JobStore.JobRows

/-!
# Capture accounting

* `CaptureCall`, `captureStep` — the operations of the store, and the reconciliation a store makes when it opens;
* `CaptureMove`, `captureStep_move` — what a step does to the capture columns of a row that is not a Kit row;
* `captureAccounted_iff` — the runs in which every value that was acknowledged was stored.
-/

namespace LlmGateway.JobStore

open LlmGateway.Lib

variable {db db' : Db} {id : String}

/-- SQL_RECONCILE_CAPTURE_ACCOUNTING, which `gcInstances` ends with. -/
def reconcileCaptureAccounting (db : Db) : Db :=
  (updateJobs db (unaccounted db.gatewayInstances) setUnaccounted setUnaccounted_id).1

inductive CaptureCall where
  | call (call : Call)
  /-- a store opens on the database -/
  | reopen

def captureStep (db : Db) : CaptureCall → Db × Option (Except String Ret)
  | .call call => ((step db call).1, some (step db call).2)
  | .reopen => (reconcileCaptureAccounting db, none)

/-! ## The stages of the capture columns -/

/-- The columns hold the mark of the reconciliation. -/
def JobCapture.isRecovery (c : JobCapture) : Bool :=
  c.captureStatus == some .not_captured && c.captureError == some CAPTURE_ACCOUNTING_RECOVERY_ERROR

/-- The columns hold a value that no reconciliation wrote. -/
def JobCapture.isReal (c : JobCapture) : Bool := c.captureStatus.isSome && !c.isRecovery

def JobCapture.stage (c : JobCapture) : ℕ :=
  if c.captureStatus.isNone then 0 else if c.isRecovery then 1 else 2

/-- What a step can do to the capture columns. -/
inductive CaptureMove : JobCapture → JobCapture → Prop where
  | same (c : JobCapture) : CaptureMove c c
  | reconciled (c : JobCapture) (h : c.captureStatus = none) :
      CaptureMove c { c with
        captureStatus := some .not_captured
        captureError := some CAPTURE_ACCOUNTING_RECOVERY_ERROR }
  | recorded (c : JobCapture) (input : CaptureInput) (h : c.isReal = false) : CaptureMove c input.toCapture

section stages
variable {c c' : JobCapture}

theorem JobCapture.isReal_eq_false : c.isReal = false ↔ c.captureStatus = none ∨ c.isRecovery = true := by
  cases hs : c.captureStatus with
  | none | some s => simp [isReal, hs]

theorem JobCapture.isReal_iff_stage : c.isReal = true ↔ c.stage = 2 := by
  unfold isReal stage
  cases hs : c.captureStatus with
  | none => simp
  | some s => by_cases hr : c.isRecovery = true <;> simp [hr]

theorem CaptureMove.eq_of_real (h : CaptureMove c c') (hreal : c.isReal = true) : c' = c := by
  cases h with
  | same => rfl
  | reconciled hnone => simp [JobCapture.isReal, hnone] at hreal
  | recorded input hnot =>
    rw [hnot] at hreal
    cases hreal

theorem CaptureMove.stage_le (h : CaptureMove c c') : c.stage ≤ c'.stage := by
  cases h with
  | same => exact Nat.le_refl _
  | reconciled hnone => simp [JobCapture.stage, hnone]
  | recorded input hnot =>
    have hsome : input.toCapture.stage ≠ 0 := by
      unfold JobCapture.stage
      rw [if_neg (by simp [CaptureInput.toCapture])]
      split <;> omega
    have htwo : c.stage ≠ 2 := by
      rw [Ne, ← JobCapture.isReal_iff_stage, hnot]
      exact Bool.false_ne_true
    have hle : c.stage ≤ 2 := by
      unfold JobCapture.stage
      split
      · omega
      · split <;> omega
    omega

end stages

/-! ## What a step does -/

/-- The row is kept, and so is its Kit reference; a row that is not a Kit row makes a capture move. -/
def CaptureStep (r r' : JobRecord) : Prop :=
  r'.kitExecution = r.kitExecution ∧ (r.kitExecution = none → CaptureMove r.capture r'.capture)

theorem CaptureStep.of_eq {r r' : JobRecord} (hk : r'.kitExecution = r.kitExecution) (hc : r'.capture = r.capture) :
    CaptureStep r r' := ⟨hk, fun _ => hc ▸ .same _⟩

/-- An UPDATE makes a capture step of every row when it makes one of those it affects. -/
theorem get_update_capture (db : Db) {p : JobRecord → Bool} {f : JobRecord → JobRecord} {hf : ∀ r, (f r).id = r.id}
    {r : JobRecord} (hr : db.jobs.get id = some r) (h : p r = true → CaptureStep r (f r)) :
    ∃ r', (updateJobs db p f hf).1.jobs.get id = some r' ∧ CaptureStep r r' := by
  refine ⟨_, by rw [get_updateJobs, hr, Option.map_some], ?_⟩
  split
  · rename_i hp
    exact h hp
  · exact .of_eq rfl rfl

theorem get_update_key_capture {k : String} {q : JobRecord → Bool} {f : JobRecord → JobRecord}
    {hf : ∀ r, (f r).id = r.id} {r : JobRecord} (hr : db.jobs.get id = some r)
    (h : q r = true → CaptureStep r (f r)) :
    ∃ r', (updateJob db k q f hf).1.jobs.get id = some r' ∧ CaptureStep r r' := by
  refine get_update_capture db hr fun hp => h ?_
  simp only [Bool.and_eq_true] at hp
  exact hp.2

theorem setUnaccounted_capture {instances : Table GatewayInstance.instanceId} {r : JobRecord}
    (h : unaccounted instances r = true) : CaptureStep r (setUnaccounted r) := by
  simp only [unaccounted, Bool.and_eq_true, Option.isNone_iff_eq_none] at h
  exact ⟨rfl, fun _ => .reconciled _ h.1.2⟩

theorem toCapture_eq {c : CaptureInput} {r : JobRecord} (hk : r.kitExecution = none) :
    (setCapture c r).capture = c.toCapture := by
  simp [setCapture, CaptureInput.toCapture, hk]

theorem capturable_capture {owner : String} {r : JobRecord} (h : capturable owner r = true) :
    r.capture.isReal = false := by
  simp only [capturable, Bool.and_eq_true, Bool.or_eq_true, Option.isNone_iff_eq_none] at h
  refine JobCapture.isReal_eq_false.2 (h.1.2.imp_right fun hm => ?_)
  rw [JobCapture.isRecovery, hm.1, hm.2]
  rfl

theorem setCapture_capture {owner : String} {c : CaptureInput} {r : JobRecord} (h : capturable owner r = true) :
    CaptureStep r (setCapture c r) :=
  ⟨rfl, fun hk => toCapture_eq (c := c) hk ▸ .recorded _ _ (capturable_capture h)⟩

/-- The capture columns of a completed row. -/
theorem setComplete_capture_eq {input : JobCompletionInput} {expiresAt : String} {r : JobRecord}
    (hk : r.kitExecution = none) : (setComplete input expiresAt r).capture =
      if r.capture.captureStatus.isNone then (input.capture.map CaptureInput.toCapture).getD r.capture
      else r.capture := by
  simp only [setComplete, hk, Option.isSome_none, Bool.not_false, Bool.true_and]
  cases input.capture with
  | none => rfl
  | some c => rfl

theorem setComplete_capture (input : JobCompletionInput) (expiresAt : String) (r : JobRecord) :
    CaptureStep r (setComplete input expiresAt r) := by
  refine ⟨rfl, fun hk => ?_⟩
  rw [setComplete_capture_eq hk]
  split
  · rename_i hnone
    rw [Option.isNone_iff_eq_none] at hnone
    cases input.capture with
    | none => exact .same _
    | some c => exact .recorded _ c (JobCapture.isReal_eq_false.2 (Or.inl hnone))
  · exact .same _

/-- The rows an operation keeps that does not delete any. -/
theorem perform_capture {cfg : Config} {now : Clock} {op : Op} {ret : Ret} {r : JobRecord}
    (h : perform cfg now db op = .ok (ret, db')) (hop : op ≠ .evictExpired) (hr : db.jobs.get id = some r) :
    ∃ r', db'.jobs.get id = some r' ∧ CaptureStep r r' := by
  have hsame : ∀ db'' : Db, db''.jobs = db.jobs → ∃ r', db''.jobs.get id = some r' ∧ CaptureStep r r' :=
    fun db'' hj => ⟨r, by rw [hj, hr], .of_eq rfl rfl⟩
  cases op with
  | recordStart input =>
    obtain ⟨_, h, he⟩ := map_ok h
    cases he
    have hj := recordStart_jobs h
    refine ⟨r, ?_, .of_eq rfl rfl⟩
    rw [Table.get_insert hj, if_neg, hr]
    rintro rfl
    rw [Table.get_of_insert hj] at hr
    cases hr
  | fenceUnadmittedKitAttempt input =>
    obtain ⟨⟨_, _⟩, h, he⟩ := map_ok h
    cases he
    obtain ⟨_, rfl⟩ := fenceUnadmittedKitAttempt_frame h
    exact hsame _ rfl
  | markRunning k pid =>
    cases h
    exact get_update_key_capture hr fun _ => .of_eq rfl rfl
  | registerInstance info =>
    cases h
    exact hsame _ rfl
  | heartbeat instanceId =>
    cases h
    exact get_update_capture { db with gatewayInstances := _ } hr fun _ => .of_eq rfl rfl
  | deregisterInstance instanceId =>
    cases h
    exact hsame _ rfl
  | recoverStaleJobs ttl grace live =>
    obtain ⟨⟨_, _⟩, h, he⟩ := map_ok h
    cases he
    obtain ⟨expiresIso, -, hget, -, -⟩ := recoverStaleJobs_ok h
    refine ⟨_, by rw [hget, hr, Option.map_some], ?_⟩
    unfold sweepRow
    split
    · split
      · exact .of_eq rfl rfl
      · exact .of_eq rfl rfl
    · split
      · exact .of_eq rfl rfl
      · exact .of_eq rfl rfl
  | gcInstances ms =>
    cases h
    exact get_update_capture { db with gatewayInstances := _ } hr setUnaccounted_capture
  | recordOutput k stdout stderr truncated expected
  | recordProgress k progressJson
  | recordProgressIfStatus k status progressJson =>
    cases h
    exact get_update_key_capture hr fun _ => .of_eq rfl rfl
  | recordCapture input =>
    cases h
    exact get_update_key_capture hr setCapture_capture
  | recordComplete input =>
    obtain ⟨⟨_, _⟩, h, he⟩ := map_ok h
    cases he
    unfold recordComplete at h
    split at h
    · cases h
    · cases h
      exact get_update_key_capture hr fun _ => setComplete_capture input _ r
  | markKitTerminalFinalized k session | acknowledgeMcpArtifactCleanup k hostname artifactScope artifactPath =>
    cases h
    exact get_update_key_capture hr fun _ => .of_eq rfl rfl
  | evictExpired => exact absurd rfl hop
  | recordValidationRun | setValidationProviderLinks | setValidationJudgeLink | transitionValidationRunStatus
    | skipValidationJudge | finalizeValidationReceipt | evictWedgedValidationRuns =>
    obtain ⟨_, _, _, rfl⟩ := perform_validation_frame h rfl
    exact hsame _ rfl

/-- The call does not delete rows. -/
def CaptureCall.keepsRows : CaptureCall → Prop
  | .call c => c.op ≠ .evictExpired
  | .reopen => True

/-- **What a step does to the capture columns of a row.** -/
theorem captureStep_move {call : CaptureCall} {r : JobRecord} (hcall : call.keepsRows)
    (hr : db.jobs.get id = some r) :
    ∃ r', (captureStep db call).1.jobs.get id = some r' ∧ CaptureStep r r' := by
  cases call with
  | reopen => exact get_update_capture db hr setUnaccounted_capture
  | call call =>
    rcases step_cases db call with ⟨_, hstep⟩ | ⟨_, _, hp, hstep⟩
    · rw [captureStep, hstep]
      exact ⟨r, hr, .of_eq rfl rfl⟩
    · rw [captureStep, hstep]
      exact perform_capture hp hcall hr

/-- What any number of steps does: the stage does not go back, and a real value stays. -/
theorem capture_run {calls : List CaptureCall} {r : JobRecord} (hcalls : ∀ call ∈ calls, call.keepsRows)
    (hr : db.jobs.get id = some r) (hk : r.kitExecution = none) :
    ∃ r', (Run.final captureStep db calls).jobs.get id = some r' ∧ r'.kitExecution = none ∧
      r.capture.stage ≤ r'.capture.stage ∧ (r.capture.isReal = true → r'.capture = r.capture) := by
  induction calls generalizing db r with
  | nil => exact ⟨r, hr, hk, Nat.le_refl _, fun _ => rfl⟩
  | cons call calls ih =>
    obtain ⟨r₁, hr₁, hk₁, hmove⟩ := captureStep_move (hcalls call List.mem_cons_self) hr
    obtain ⟨r', hr', hk', hle, hreal⟩ :=
      ih (fun c hc => hcalls c (List.mem_cons_of_mem call hc)) hr₁ (hk₁.trans hk)
    refine ⟨r', hr', hk', Nat.le_trans (hmove hk).stage_le hle, fun h => ?_⟩
    have heq := (hmove hk).eq_of_real h
    rw [hreal (by rw [heq]; exact h), heq]

/-! ## Acknowledged values -/

theorem step_capture {call : Call} {input : JobCaptureInput} (hop : call.op = .recordCapture input) :
    (step db call).2 = .ok (.bool true) ↔ ∃ r, db.jobs.get input.id = some r ∧
      capturable input.ownerInstance r = true ∧
      (step db call).1.jobs.get input.id = some (setCapture input.capture r) := by
  unfold step perform
  rw [hop]
  dsimp only
  unfold recordCapture
  simp only [updateJob_changes, Except.ok.injEq, Ret.bool.injEq, decide_eq_true_eq]
  cases hr : db.jobs.get input.id with
  | none => simp
  | some r =>
    rw [get_updateJob hr]
    by_cases hq : capturable input.ownerInstance r = true
    · simp [hq]
    · simp [hq]

/-- The capture that a call passes for the row of `id`. -/
def Op.capture (id : String) : Op → Option CaptureInput
  | .recordCapture input => if input.id = id then some input.capture else none
  | .recordComplete input => if input.id = id then input.capture else none
  | _ => none

/-- A call that answers true on a row without a real value has stored the capture it was given. -/
def Truthful (id : String) (db : Db) : CaptureCall → Prop
  | .reopen => True
  | .call call => ∀ c r, call.op.capture id = some c → (step db call).2 = .ok (.bool true) →
      db.jobs.get id = some r → r.kitExecution = none → r.capture.isReal = false →
      ∃ r', (step db call).1.jobs.get id = some r' ∧ r'.capture = c.toCapture

/-- A completion with a capture does not find the mark of the reconciliation, unless the mark is what it would write. -/
def FindsNoRecovery (id : String) (db : Db) : CaptureCall → Prop
  | .reopen => True
  | .call call =>
    match call.op with
    | .recordComplete input => ∀ c r, input.id = id → input.capture = some c →
        (∃ expiresAt, retentionExpiryIso call.cfg input.finishedAt = .ok expiresAt) →
        db.jobs.get id = some r → r.kitExecution = none → completable r = true →
        r.capture.isRecovery = true → r.capture = c.toCapture
    | _ => True

/-- A completion that answers true on a row without a real value has stored the capture it was given exactly when the
row had no value, or already the one given. -/
theorem truthful_iff (id : String) (db : Db) (call : CaptureCall) :
    Truthful id db call ↔ FindsNoRecovery id db call := by
  cases call with
  | reopen => exact Iff.rfl
  | call call =>
    cases hop : call.op with
    | recordCapture input =>
      simp only [Truthful, FindsNoRecovery, hop, iff_true]
      rintro c r hc htrue hr hk -
      obtain ⟨r₀, hr₀, -, hnext⟩ := (step_capture hop).1 htrue
      simp only [Op.capture, Option.ite_none_right_eq_some, Option.some.injEq] at hc
      obtain ⟨rfl, rfl⟩ := hc
      obtain rfl := Option.some.inj (hr.symm.trans hr₀)
      exact ⟨_, hnext, toCapture_eq hk⟩
    | recordComplete input =>
      simp only [Truthful, FindsNoRecovery, hop, Op.capture, Option.ite_none_right_eq_some]
      constructor
      · rintro h c r hid hc ⟨expiresAt, hexp⟩ hr hk hq hrec
        have hnone : r.capture.captureStatus ≠ none := by
          rintro hnone
          simp [JobCapture.isRecovery, hnone] at hrec
        subst hid
        have hnext : (step db call).1.jobs.get input.id = some (setComplete input expiresAt r) := by
          unfold step perform
          rw [hop]
          dsimp only
          unfold recordComplete
          rw [hexp]
          dsimp only [Except.map]
          rw [get_updateJob hr, if_pos hq]
        obtain ⟨r', hr', hcap⟩ := h c r ⟨rfl, hc⟩ ((step_complete hop).2 ⟨r, expiresAt, hr, hq, hexp, hnext⟩) hr hk
          (JobCapture.isReal_eq_false.2 (Or.inr hrec))
        obtain rfl := Option.some.inj (hnext.symm.trans hr')
        rw [← hcap, setComplete_capture_eq hk, if_neg (by simpa using hnone)]
      · rintro h c r ⟨rfl, hc⟩ htrue hr hk hreal
        obtain ⟨r₀, expiresAt, hr₀, hq, hexp, hnext⟩ := (step_complete hop).1 htrue
        obtain rfl := Option.some.inj (hr.symm.trans hr₀)
        refine ⟨_, hnext, ?_⟩
        rw [setComplete_capture_eq hk, hc]
        rcases JobCapture.isReal_eq_false.1 hreal with hnone | hrec
        · rw [if_pos (by rw [hnone]; rfl)]
          rfl
        · rw [h c r rfl hc ⟨expiresAt, hexp⟩ hr hk hq hrec]
          split <;> rfl
    | _ => simp [Truthful, FindsNoRecovery, hop, Op.capture]

/-- Capture accounting of the row of `id` in a run. -/
structure CaptureAccounted (db : Db) (calls : List CaptureCall) (id : String) : Prop where
  /-- between any two points of the run the stage does not go back, and a real value stays -/
  once : ∀ as bs cs, calls = as ++ bs ++ cs → ∀ r, (Run.final captureStep db as).jobs.get id = some r →
    r.kitExecution = none → ∃ r', (Run.final captureStep db (as ++ bs)).jobs.get id = some r' ∧
      r'.kitExecution = none ∧ r.capture.stage ≤ r'.capture.stage ∧
      (r.capture.isReal = true → r'.capture = r.capture)
  truthful : Run.Along captureStep (Truthful id) db calls

/-- **Capture accounting.**  In a run that deletes no rows the capture columns are written once; they are what was
acknowledged exactly when no completion with a capture finds the mark of the reconciliation. -/
theorem captureAccounted_iff {calls : List CaptureCall} (hcalls : ∀ call ∈ calls, call.keepsRows) :
    CaptureAccounted db calls id ↔ Run.Along captureStep (FindsNoRecovery id) db calls := by
  have hiff : Run.Along captureStep (Truthful id) db calls ↔ Run.Along captureStep (FindsNoRecovery id) db calls :=
    Run.along_congr (P := fun _ => True) (K := fun _ => True) (fun _ _ _ _ => trivial)
      (fun db call _ _ => truthful_iff id db call) trivial fun _ _ => trivial
  constructor
  · intro h
    exact hiff.1 h.truthful
  · intro h
    refine ⟨?_, hiff.2 h⟩
    rintro as bs cs rfl r hr hk
    rw [Run.final_append]
    exact capture_run (fun call hcall => hcalls call (by simp [hcall])) hr hk

/-! ### A completion that finds the mark -/

/-- The capture of a job whose output was kept whole. -/
def CaptureInput.whole : CaptureInput := ⟨.captured_whole, 0, none, 0, false, 0, none⟩

/-- The gateway of a running job loses its lease and its instance row, another one sweeps the job, and then the first
one completes it. -/
def lateCompletion : List CaptureCall :=
  let cfg : Config := ⟨none, 0, 30000, IsoTime.isoDateParse⟩
  [.call ⟨cfg, ⟨0, 0, by decide⟩, .recordStart
      { JobStartInput.plain "job" "1970-01-01T00:00:00.000Z" with ownerInstance := some "gateway" }⟩,
    .call ⟨cfg, ⟨0, 60000, by decide⟩, .recoverStaleJobs 30000 0 []⟩,
    .call ⟨cfg, ⟨0, 60000, by decide⟩, .gcInstances 0⟩,
    .call ⟨cfg, ⟨0, 60000, by decide⟩, .recordComplete
      { JobCompletionInput.plain "job" .completed "1970-01-01T00:01:00.000Z" with capture := some .whole }⟩]

theorem lateCompletion_keepsRows : ∀ call ∈ lateCompletion, call.keepsRows := by
  simp [lateCompletion, CaptureCall.keepsRows]

theorem captureAccounted_iff_lateCompletion : CaptureAccounted Db.empty lateCompletion "job" ↔
    Run.Along captureStep (FindsNoRecovery "job") Db.empty lateCompletion :=
  captureAccounted_iff lateCompletion_keepsRows

/-- The late completion answers true, and the row keeps the mark. -/
theorem not_captureAccounted : ¬∀ (db : Db) (calls : List CaptureCall) (id : String),
    (∀ call ∈ calls, call.keepsRows) → CaptureAccounted db calls id := by
  intro h
  have htruthful := (h Db.empty lateCompletion "job" lateCompletion_keepsRows).truthful
  obtain ⟨-, -, -, hlast, -⟩ := htruthful
  have hsome : ((Run.final captureStep Db.empty (lateCompletion.take 3)).jobs.get "job").isSome = true := by
    decide +kernel
  obtain ⟨r, hr⟩ := Option.isSome_iff_exists.1 hsome
  have hbefore : ((Run.final captureStep Db.empty (lateCompletion.take 3)).jobs.get "job").map
      (fun r => (r.kitExecution, r.capture.isReal)) = some (none, false) := by
    decide +kernel
  rw [hr, Option.map_some, Option.some.injEq, Prod.mk.injEq] at hbefore
  obtain ⟨r', hr', hcap⟩ := hlast .whole r rfl (by decide +kernel) hr hbefore.1 hbefore.2
  have hafter : ((Run.final captureStep Db.empty lateCompletion).jobs.get "job").map JobRecord.capture ≠
      some CaptureInput.whole.toCapture := by
    decide +kernel
  apply hafter
  change ((step _ _).1.jobs.get "job").map JobRecord.capture = _
  rw [hr', Option.map_some, hcap]

end LlmGateway.JobStore
