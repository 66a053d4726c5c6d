import Mathlib.Data.List.Dedup
import LlmGateway.JobStore.KitFence
import LlmGateway.JobStore.Lifecycle
import LlmGateway.JobStore.Retention

/-!
# Finished Kit jobs and their acknowledgement

* `RowInvariant` — what every statement that writes a job row keeps, and `row_run`: it holds of all rows of every run;
* `Acknowledged` — the mark answers true, the row leaves the pending list for the released ones, may be evicted and pins
  nothing;
* `kit_acknowledged_iff` — over whole runs: the pair of the pending list is acknowledged exactly when the session id was
  admitted without white space around it, since the list trims what the mark compares.
-/

namespace LlmGateway.JobStore

open LlmGateway.Lib

variable {db db' : Db} {id : String} {call : Call}

/-! ## Invariants of the job rows -/

/-- A property of a row that an admission establishes and every other statement keeps, under its guard. -/
structure RowInvariant (P : JobRecord → Prop) : Prop where
  start : ∀ cfg now input db db', recordStart cfg now db input = .ok db' → P (startRow cfg now input)
  running : ∀ pid lease r, r.status = .queued → P r → P (setRunning pid lease r)
  lease : ∀ lease r, P r → P (setLease lease r)
  advanced : ∀ lease r, P r → P (setAdvanced lease r)
  orphaned : ∀ nowIso expiresIso r, r.status.isOpen = true → P r → P (setOrphaned nowIso expiresIso r)
  unaccounted : ∀ r, P r → P (setUnaccounted r)
  output : ∀ stdout stderr truncated r, P r → P (setOutput stdout stderr truncated r)
  progress : ∀ progressJson r, P r → P (setProgress progressJson r)
  capture : ∀ c r, P r → P (setCapture c r)
  complete : ∀ input expiresAt r, completable r = true → P r → P (setComplete input expiresAt r)
  finalized : ∀ nowIso session r, finalizable session r = true → P r → P (setFinalized nowIso r)
  acknowledged : ∀ r, P r → P (setAcknowledged r)

def Rows (P : JobRecord → Prop) (db : Db) : Prop := ∀ id r, db.jobs.get id = some r → P r

theorem Rows.update {P : JobRecord → Prop} {p : JobRecord → Bool} {f : JobRecord → JobRecord} {hf : ∀ r, (f r).id = r.id}
    (h : Rows P db) (hP : ∀ r, p r = true → P r → P (f r)) : Rows P (updateJobs db p f hf).1 := by
  intro id r hr
  rw [get_updateJobs] at hr
  obtain ⟨r₀, hr₀, rfl⟩ := Option.map_eq_some_iff.1 hr
  split
  · rename_i hp
    exact hP r₀ hp (h id r₀ hr₀)
  · exact h id r₀ hr₀

theorem Rows.update_key {P : JobRecord → Prop} {k : String} {q : JobRecord → Bool} {f : JobRecord → JobRecord}
    {hf : ∀ r, (f r).id = r.id} (h : Rows P db) (hP : ∀ r, q r = true → P r → P (f r)) : Rows P (updateJob db k q f hf).1 := by
  apply h.update
  intro r hp
  simp only [Bool.and_eq_true] at hp
  exact hP r hp.2

theorem perform_rows {P : JobRecord → Prop} (hP : RowInvariant P) {ret : Ret}
    (h : perform call.cfg call.now db call.op = .ok (ret, db')) (hdb : Rows P db) : Rows P db' := by
  have hsame : ∀ {db'' : Db}, db''.jobs = db.jobs → Rows P db'' := by
    intro db'' hjobs id r hr
    rw [hjobs] at hr
    exact hdb id r hr
  cases hop : call.op with
  | recordStart input =>
    rw [hop] at h
    obtain ⟨_, h, he⟩ := map_ok h
    cases he
    intro id r hr
    rw [Table.get_insert (recordStart_jobs h)] at hr
    split at hr
    · cases hr
      exact hP.start _ _ _ _ _ h
    · exact hdb id r hr
  | fenceUnadmittedKitAttempt input =>
    rw [hop] at h
    obtain ⟨⟨_, _⟩, h, he⟩ := map_ok h
    cases he
    obtain ⟨_, rfl⟩ := fenceUnadmittedKitAttempt_frame h
    exact hsame rfl
  | markRunning k pid =>
    rw [hop] at h
    cases h
    apply hdb.update_key
    intro r hq
    exact hP.running _ _ r (by simpa using hq)
  | registerInstance info =>
    rw [hop] at h
    cases h
    exact hsame rfl
  | heartbeat instanceId =>
    rw [hop] at h
    cases h
    apply Rows.update _ fun r _ => hP.lease _ r
    exact hsame rfl
  | deregisterInstance instanceId =>
    rw [hop] at h
    cases h
    exact hsame rfl
  | recoverStaleJobs ttl grace live =>
    rw [hop] at h
    obtain ⟨⟨_, _⟩, h, he⟩ := map_ok h
    cases he
    obtain ⟨expiresIso, -, hget, -, -⟩ := recoverStaleJobs_ok h
    intro id r hr
    rw [hget] at hr
    obtain ⟨r₀, hr₀, rfl⟩ := Option.map_eq_some_iff.1 hr
    have h₀ := hdb id r₀ hr₀
    unfold sweepRow
    split
    · split
      · exact hP.advanced _ _ h₀
      · exact h₀
    · split
      · rename_i horphan
        exact hP.orphaned _ _ _ (orphanable_iff.1 horphan).1 h₀
      · exact h₀
  | gcInstances ms =>
    rw [hop] at h
    cases h
    apply Rows.update _ fun r _ => hP.unaccounted r
    exact hsame rfl
  | recordOutput k stdout stderr truncated expected =>
    rw [hop] at h
    cases h
    exact hdb.update_key fun r _ => hP.output _ _ _ r
  | recordProgress k progressJson | recordProgressIfStatus k status progressJson =>
    rw [hop] at h
    cases h
    exact hdb.update_key fun r _ => hP.progress _ r
  | recordCapture input =>
    rw [hop] at h
    cases h
    exact hdb.update_key fun r _ => hP.capture _ r
  | recordComplete input =>
    rw [hop] at h
    obtain ⟨⟨_, _⟩, h, he⟩ := map_ok h
    cases he
    unfold recordComplete at h
    split at h
    · cases h
    · cases h
      exact hdb.update_key (hP.complete _ _)
  | markKitTerminalFinalized k session =>
    rw [hop] at h
    cases h
    exact hdb.update_key (hP.finalized _ _)
  | acknowledgeMcpArtifactCleanup k hostname artifactScope artifactPath =>
    rw [hop] at h
    cases h
    exact hdb.update_key fun r _ => hP.acknowledged r
  | evictExpired =>
    rw [hop] at h
    cases h
    intro id r hr
    split at hr
    · exact hdb id r hr
    · rw [Table.get_delete] at hr
      exact hdb id r (Option.filter_eq_some_iff.1 hr).1
  | recordValidationRun | setValidationProviderLinks | setValidationJudgeLink | transitionValidationRunStatus
    | skipValidationJudge | finalizeValidationReceipt | evictWedgedValidationRuns =>
    obtain ⟨_, _, _, rfl⟩ := perform_validation_frame h (by rw [hop]; rfl)
    exact hsame rfl

/-- **An invariant of the rows holds of all rows in every run.** -/
theorem row_run {P : JobRecord → Prop} (hP : RowInvariant P) (calls : List Call) : Rows P (Run.final step Db.empty calls) := by
  apply Run.final_induction (P := Rows P)
  · intro db call h
    rcases step_cases db call with ⟨_, hstep⟩ | ⟨_, _, hp, hstep⟩
    · rw [hstep]
      exact h
    · rw [hstep]
      exact perform_rows hP hp h
  · intro id r hr
    cases hr

/-- A Kit row has no artifact to clean up. -/
def Withheld (r : JobRecord) : Prop := r.kitExecution.isSome = true → r.mcpArtifactCleanupPending = false

theorem rowInvariant_withheld : RowInvariant Withheld where
  start := by
    intro cfg now input _ _ _ hk
    have hkit : input.kitExecution.isSome = true := hk
    simp [startRow, hkit]
  running := fun _ _ _ _ h => h
  lease := fun _ _ h => h
  advanced := fun _ _ h => h
  orphaned := fun _ _ _ _ h => h
  unaccounted := fun _ h => h
  output := fun _ _ _ _ h => h
  progress := fun _ _ h => h
  capture := fun _ _ h => h
  complete := fun _ _ _ _ h => h
  finalized := fun _ _ _ _ h => h
  acknowledged := fun _ _ _ => rfl

/-- A Kit row has a valid execution and a session that is not blank, and is finalized only when it is settled. -/
structure KitRow (r : JobRecord) : Prop where
  valid : r.kitExecution.all isKitExecutionRef = true
  session : r.kitExecution.isSome = true → JsText.trim (r.kitSessionId.getD "") ≠ ""
  settled : r.kitTerminalFinalized = true → r.status.isSettled = true

theorem kitRow_start {cfg : Config} {now : Clock} {input : JobStartInput} (h : recordStart cfg now db input = .ok db') :
    KitRow (startRow cfg now input) := by
  refine ⟨?_, ?_, fun hf => by cases hf⟩
  · show input.kitExecution.all isKitExecutionRef = true
    cases hkit : input.kitExecution with
    | none => rfl
    | some kit =>
      rcases recordStart_ok h with ⟨-, hk, -⟩ | ⟨_, -, hk, -⟩ | ⟨kit', -, hk, hstart⟩
      · rw [hkit] at hk
        cases hk
      · rw [hkit] at hk
        cases hk
      · obtain ⟨session, db₁, -, -, -, hins⟩ := recordKitStart_ok hstart
        unfold insertJob at hins
        rw [hkit, Option.map_some] at hins
        by_cases hvalid : isKitExecutionRef kit = true
        · simpa using hvalid
        · simp [cloneKitExecutionRef, hvalid] at hins
  · intro hk
    rcases recordStart_ok h with ⟨-, hnone, -⟩ | ⟨_, -, hnone, -⟩ | ⟨kit, -, -, hstart⟩
    · rw [show (startRow cfg now input).kitExecution = none from hnone] at hk
      cases hk
    · rw [show (startRow cfg now input).kitExecution = none from hnone] at hk
      cases hk
    · obtain ⟨session, db₁, rfl, hne, -, -⟩ := recordKitStart_ok hstart
      exact hne

theorem rowInvariant_kitRow : RowInvariant KitRow where
  start := fun _ _ _ _ _ h => kitRow_start h
  running := by
    intro pid lease r hs h
    refine ⟨h.valid, h.session, fun hf => ?_⟩
    have hsettled := h.settled hf
    rw [hs] at hsettled
    cases hsettled
  lease := fun _ _ h => ⟨h.valid, h.session, h.settled⟩
  advanced := fun _ _ h => ⟨h.valid, h.session, h.settled⟩
  orphaned := by
    intro nowIso expiresIso r hopen h
    refine ⟨h.valid, h.session, fun hf => ?_⟩
    have hclosed := not_isOpen_of_isSettled (h.settled hf)
    rw [hopen] at hclosed
    cases hclosed
  unaccounted := fun _ h => ⟨h.valid, h.session, h.settled⟩
  output := fun _ _ _ _ h => ⟨h.valid, h.session, h.settled⟩
  progress := fun _ _ h => ⟨h.valid, h.session, h.settled⟩
  capture := fun _ _ h => ⟨h.valid, h.session, h.settled⟩
  complete := by
    intro input expiresAt r hcompletable h
    refine ⟨h.valid, h.session, fun hf => ?_⟩
    have hsettled : r.status.isSettled = true := h.settled hf
    simp [completable, hsettled] at hcompletable
  finalized := by
    intro nowIso session r hfin h
    refine ⟨h.valid, h.session, fun _ => ?_⟩
    simp only [finalizable, Bool.and_eq_true] at hfin
    exact hfin.2
  acknowledged := fun _ h => ⟨h.valid, h.session, h.settled⟩

/-! ## The session of a Kit job -/

/-- A row of the id that is a Kit row has the session. -/
def SessionOf (db : Db) (id : String) (session : Option String) : Prop :=
  ∀ r, db.jobs.get id = some r → r.kitExecution.isSome = true → r.kitSessionId = session

theorem recordStart_unit {input : JobStartInput} (hop : call.op = .recordStart input) {ret : Ret}
    (h : perform call.cfg call.now db call.op = .ok (ret, db')) :
    ret = .unit ∧ recordStart call.cfg call.now db input = .ok db' := by
  rw [hop] at h
  obtain ⟨_, h, he⟩ := map_ok h
  cases he
  exact ⟨rfl, h⟩

/-- No other Kit job takes the id, so its session stays. -/
theorem session_step {f : KitAttemptFence} (hf : db.kitAttemptFences.get id = some f) {session : Option String}
    (h : SessionOf db id session) (call : Call) : SessionOf (step db call).1 id session := by
  intro r hr hk
  have hm := step_move db call id
  rw [hr] at hm
  generalize ho : db.jobs.get id = o at hm
  cases hm with
  | same => exact h r ho hk
  | admitted input hop hid =>
    -- the fence of the id stands against a second Kit admission
    rcases step_cases db call with ⟨_, hstep⟩ | ⟨ret, _, hp, hstep⟩
    · rw [hstep, ho] at hr
      cases hr
    · have hret := (recordStart_unit hop hp).1
      have hclaims : Claims db call id := (claims_recordStart hop).2 ⟨hid, hk, by rw [hstep, hret]⟩
      exact absurd hclaims (not_claims_of_fence hf call)
  | launched r₀ | beat r₀ | advanced r₀ | orphaned r₀ | completed r₀ => exact h r₀ ho hk
  | edited r₀ _ he =>
    rw [he] at hk ⊢
    exact h r₀ ho hk

theorem session_run {f : KitAttemptFence} (hf : db.kitAttemptFences.get id = some f) {session : Option String}
    (h : SessionOf db id session) (calls : List Call) : SessionOf (Run.final step db calls) id session := by
  have hboth : (Run.final step db calls).kitAttemptFences.get id = some f ∧ SessionOf (Run.final step db calls) id session :=
    Run.final_induction (P := fun db : Db => db.kitAttemptFences.get id = some f ∧ SessionOf db id session)
      (fun _ call h => ⟨fence_step h.1 call, session_step h.1 h.2 call⟩) ⟨hf, h⟩ calls
  exact hboth.2

/-- A Kit admission leaves a row of its session and the fence of its id. -/
theorem admits_session {input : JobStartInput} (hop : call.op = .recordStart input) (hkit : input.kitExecution.isSome = true)
    (hok : (step db call).2 = .ok .unit) :
    (∃ f, (step db call).1.kitAttemptFences.get input.id = some f) ∧
      SessionOf (step db call).1 input.id input.kitSessionId := by
  have hclaims : Claims db call input.id := (claims_recordStart hop).2 ⟨rfl, hkit, hok⟩
  constructor
  · rcases step_fence db call input.id with ⟨-, -, hsome⟩ | ⟨hno, -⟩
    · exact Option.isSome_iff_exists.1 hsome
    · exact absurd hclaims hno
  · rcases step_cases db call with ⟨_, hstep⟩ | ⟨_, _, hp, hstep⟩
    · rw [hstep] at hok
      cases hok
    · rw [hstep]
      intro r hr _
      have hget := Table.get_insert (recordStart_jobs (recordStart_unit hop hp).2) input.id
      have hid : (startRow call.cfg call.now input).id = input.id := rfl
      rw [if_pos hid, hr] at hget
      rw [Option.some.inj hget]
      rfl

/-! ## The lists -/

/-- The WHERE clause of `getPinnedKitReleaseIds`. -/
def pinsRelease (r : JobRecord) : Bool :=
  r.kitExecution.isSome && (r.status.isOpen || (!r.status.isOpen && !r.kitTerminalFinalized))

theorem mem_pinnedKitReleaseIds {release : String} :
    release ∈ getPinnedKitReleaseIds db ↔ ∃ r, db.jobs.get r.id = some r ∧ pinsRelease r = true ∧
      ∃ kit, r.kitExecution = some kit ∧ isKitExecutionRef kit = true ∧ kit.releaseId = release := by
  unfold getPinnedKitReleaseIds
  rw [List.mem_insertionSort, List.mem_dedup, List.mem_filterMap]
  constructor
  · rintro ⟨r, hr, hrelease⟩
    obtain ⟨hget, hw⟩ := Table.mem_select.1 hr
    obtain ⟨kit, hkit, hid⟩ := Option.map_eq_some_iff.1 hrelease
    obtain ⟨hkit, hvalid⟩ := Option.filter_eq_some_iff.1 hkit
    exact ⟨r, hget, hw, kit, hkit, hvalid, hid⟩
  · rintro ⟨r, hget, hw, kit, hkit, hvalid, hid⟩
    refine ⟨r, Table.mem_select.2 ⟨hget, hw⟩, ?_⟩
    simp [hkit, Option.filter, hvalid, hid]

theorem mem_pending {entry : PendingKitFinalization} :
    entry ∈ getPendingKitFinalizations db ↔ ∃ r, db.jobs.get r.id = some r ∧ kitSettled false r = true ∧
      toPendingKitFinalization (rowToRecord r) = some entry := by
  unfold getPendingKitFinalizations
  rw [List.mem_filterMap]
  simp only [List.mem_insertionSort, Table.mem_select, Function.comp_apply, and_assoc]

theorem mem_acknowledged {entry : AcknowledgedKitAttemptRelease} :
    entry ∈ getAcknowledgedKitAttemptReleases db ↔ ∃ r, db.jobs.get r.id = some r ∧ kitSettled true r = true ∧
      toAcknowledgedKitAttemptRelease (rowToRecord r) = some entry := by
  unfold getAcknowledgedKitAttemptReleases
  rw [List.mem_filterMap]
  simp only [List.mem_insertionSort, Table.mem_select, Function.comp_apply, and_assoc]

/-- What a pending entry says of its row: the session it shows is the trimmed one. -/
theorem of_toPending {r : JobRecord} {entry : PendingKitFinalization}
    (h : toPendingKitFinalization (rowToRecord r) = some entry) :
    r.status.isSettled = true ∧ r.kitTerminalFinalized = false ∧ entry.jobId = r.id ∧
      (∃ kit, r.kitExecution = some kit ∧ isKitExecutionRef kit = true) ∧
      ∃ session, r.kitSessionId = some session ∧ entry.kitSessionId = JsText.trim session ∧ JsText.trim session ≠ "" := by
  unfold toPendingKitFinalization at h
  split at h
  · cases h
  · rename_i hopen
    split at h
    · rename_i kit session finishedAt hkit hsession _
      cases h
      have hstatus : r.status.isSettled = true ∧ r.kitTerminalFinalized = false := by
        simpa [rowToRecord] using hopen
      obtain ⟨hkit, hvalid⟩ := Option.filter_eq_some_iff.1 (show (r.kitExecution.filter isKitExecutionRef) = some kit from hkit)
      obtain ⟨hparsed, hne⟩ := Option.filter_eq_some_iff.1 hsession
      obtain ⟨hmap, -⟩ := Option.filter_eq_some_iff.1
        (show truthyText (r.kitSessionId.map JsText.trim) = some session from hparsed)
      obtain ⟨s, hs, rfl⟩ := Option.map_eq_some_iff.1 hmap
      exact ⟨hstatus.1, hstatus.2, rfl, ⟨kit, hkit, hvalid⟩, s, hs, rfl, by simpa using hne⟩
    · cases h

/-- A settled Kit row that is not finalized is pending, by its trimmed session. -/
theorem toPending_of_kitRow {r : JobRecord} {finishedAt : String} (h : KitRow r) (hkit : r.kitExecution.isSome = true)
    (hsettled : r.status.isSettled = true) (hopen : r.kitTerminalFinalized = false) (hfinished : r.finishedAt = some finishedAt)
    (hne : finishedAt ≠ "") :
    ∃ entry, toPendingKitFinalization (rowToRecord r) = some entry ∧ entry.jobId = r.id ∧
      entry.kitSessionId = JsText.trim (r.kitSessionId.getD "") := by
  obtain ⟨kit, hk⟩ := Option.isSome_iff_exists.1 hkit
  have hvalid : isKitExecutionRef kit = true := by simpa [hk] using h.valid
  have hsession := h.session hkit
  cases hs : r.kitSessionId with
  | none =>
    rw [hs] at hsession
    exact absurd (by decide +kernel) hsession
  | some session =>
    rw [hs] at hsession
    have hblank : JsText.trim session ≠ "" := hsession
    refine ⟨⟨r.id, r.cli, r.status, JsText.trim session, kit, finishedAt, r.exitCode, r.ownerPrincipal⟩, ?_, rfl, rfl⟩
    simp [toPendingKitFinalization, rowToRecord, hsettled, hopen, hk, hvalid, hs, parseKitSessionId, truthyText, Option.filter,
      hblank, hfinished, hne]

/-- A settled Kit row whose finalization is marked is released. -/
theorem toAcknowledged_finalized {r : JobRecord} {nowIso : String} {entry : PendingKitFinalization}
    (h : toPendingKitFinalization (rowToRecord r) = some entry) :
    ∃ released, toAcknowledgedKitAttemptRelease (rowToRecord (setFinalized nowIso r)) = some released ∧
      released.jobId = r.id := by
  obtain ⟨hsettled, -, -, ⟨kit, hkit, hvalid⟩, session, hsession, -, hne⟩ := of_toPending h
  refine ⟨⟨r.id, r.cli, JsText.trim session, kit, r.ownerPrincipal⟩, ?_, rfl⟩
  simp [toAcknowledgedKitAttemptRelease, rowToRecord, setFinalized, hsettled, hkit, hvalid, hsession, parseKitSessionId,
    truthyText, Option.filter, hne]

/-! ## Acknowledgement -/

/-- The mark, and what it makes of the job. -/
structure Acknowledged (db : Db) (mark : Call) (id : String) : Prop where
  returned : (step db mark).2 = .ok (.bool true)
  left : ∀ entry ∈ getPendingKitFinalizations (step db mark).1, entry.jobId ≠ id
  released : ∃ released ∈ getAcknowledgedKitAttemptReleases (step db mark).1, released.jobId = id
  evictable : ∀ r, (step db mark).1.jobs.get id = some r → ∀ evict : Call, evict.op = .evictExpired →
    evict.cfg.retentionMs.isSome = true → r.expiresAt < evict.now.nowIso →
      (step (step db mark).1 evict).1.jobs.get id = none
  unpinned : ∀ release ∈ getPinnedKitReleaseIds (step db mark).1, ∃ r, (step db mark).1.jobs.get r.id = some r ∧
    r.id ≠ id ∧ pinsRelease r = true ∧ r.kitExecution.map KitExecutionRef.releaseId = some release

section Mark

variable {r : JobRecord} {entry : PendingKitFinalization} {mark : Call}

theorem step_mark {session : String} (hop : mark.op = .markKitTerminalFinalized id session) (hr : db.jobs.get id = some r) :
    (step db mark).2 = .ok (.bool (finalizable session r)) ∧
      (step db mark).1.jobs.get id = some (if finalizable session r then setFinalized mark.now.nowIso r else r) := by
  unfold step perform
  rw [hop]
  dsimp only
  unfold markKitTerminalFinalized
  dsimp only
  refine ⟨?_, get_updateJob hr⟩
  rw [updateJob_changes, hr]
  cases hfin : finalizable session r <;> simp [hfin]

/-- **The mark of a pending pair succeeds, with all that follows, exactly when the row has the session as the list shows it.** -/
theorem acknowledged_iff (hclean : Rows Withheld db) (hr : db.jobs.get id = some r)
    (hentry : toPendingKitFinalization (rowToRecord r) = some entry)
    (hop : mark.op = .markKitTerminalFinalized entry.jobId entry.kitSessionId) :
    Acknowledged db mark id ↔ r.kitSessionId = some entry.kitSessionId := by
  obtain ⟨hsettled, hopen, hjob, ⟨kit, hkit, hvalid⟩, session, hsession, hshown, hne⟩ := of_toPending hentry
  have hid : r.id = id := Table.key_of_get hr
  rw [hjob, hid] at hop
  obtain ⟨hret, hget⟩ := step_mark hop hr
  have hfin : finalizable entry.kitSessionId r = true ↔ r.kitSessionId = some entry.kitSessionId := by
    simp [finalizable, hkit, hsettled]
  constructor
  · intro h
    have htrue := hret.symm.trans h.returned
    apply hfin.1
    simpa using htrue
  · intro h
    rw [hfin.2 h] at hret
    rw [hfin.2 h, if_pos rfl] at hget
    have hrow : ∀ {r' : JobRecord}, (step db mark).1.jobs.get r'.id = some r' → r'.id = id →
        r' = setFinalized mark.now.nowIso r := by
      intro r' hr' hid'
      rw [hid', hget] at hr'
      exact (Option.some.inj hr').symm
    obtain ⟨released, hreleased, hreleasedId⟩ := @toAcknowledged_finalized r mark.now.nowIso entry hentry
    refine ⟨hret, ?_, ⟨released, ?_, hreleasedId.trans hid⟩, ?_, ?_⟩
    · intro e he heq
      obtain ⟨r', hr', hw, hpending⟩ := mem_pending.1 he
      have hjob' := (of_toPending hpending).2.2.1
      rw [hrow hr' (hjob'.symm.trans heq)] at hw
      simp [kitSettled, setFinalized] at hw
    · refine mem_acknowledged.2 ⟨_, ?_, ?_, hreleased⟩
      · rw [setFinalized_id, hid]
        exact hget
      · simp [kitSettled, setFinalized, hkit, hsession, hsettled]
    · intro r' hr' evict hevict hret' hexpired
      rw [hget] at hr'
      cases hr'
      obtain ⟨retention, hretention⟩ := Option.isSome_iff_exists.1 hret'
      rw [evicted_iff hevict hretention hget]
      refine ⟨hexpired, ?_⟩
      have hpending : r.mcpArtifactCleanupPending = false := hclean id r hr (by rw [hkit]; rfl)
      simp [pinned, setFinalized, hpending]
    · intro release hrelease
      obtain ⟨r', hr', hpins, kit', hkit', -, hreleaseId⟩ := mem_pinnedKitReleaseIds.1 hrelease
      refine ⟨r', hr', ?_, hpins, by rw [hkit', Option.map_some, hreleaseId]⟩
      intro hid'
      rw [hrow hr' hid'] at hpins
      have hclosed : r.status.isOpen = false := not_isOpen_of_isSettled hsettled
      simp [pinsRelease, setFinalized, hclosed] at hpins

end Mark

/-- A completion that settles a Kit job leaves it on the pending list. -/
theorem pending_of_complete (calls : List Call) {complete : Call} {input : JobCompletionInput}
    (hop : complete.op = .recordComplete input) (hstatus : input.status ≠ .orphaned) (hfinished : input.finishedAt ≠ "")
    (hok : (step (Run.final step Db.empty calls) complete).2 = .ok (.bool true))
    (hkit : ∀ r, (Run.final step Db.empty calls).jobs.get input.id = some r → r.kitExecution.isSome = true) :
    ∃ entry ∈ getPendingKitFinalizations (Run.final step Db.empty (calls ++ [complete])), entry.jobId = input.id := by
  obtain ⟨r, expiresAt, hr, hcompletable, -, hafter⟩ := (step_complete hop).1 hok
  have hrow := row_run rowInvariant_kitRow calls input.id r hr
  have hunsettled : r.status.isSettled = false := by simpa [completable] using hcompletable
  have hopen : r.kitTerminalFinalized = false := by
    cases hf : r.kitTerminalFinalized with
    | false => rfl
    | true =>
      have hsettled := hrow.settled hf
      rw [hunsettled] at hsettled
      cases hsettled
  have hkitAfter := rowInvariant_kitRow.complete input expiresAt r hcompletable hrow
  obtain ⟨entry, hentry, hid, -⟩ := toPending_of_kitRow hkitAfter (hkit r hr) (settled_setComplete hstatus expiresAt r) hopen rfl
    hfinished
  have hkey : (setComplete input expiresAt r).id = input.id := (setComplete_id input expiresAt r).trans (Table.key_of_get hr)
  refine ⟨entry, mem_pending.2 ⟨setComplete input expiresAt r, ?_, ?_, hentry⟩, hid.trans hkey⟩
  · rw [Run.final_append, Run.final_cons, hkey]
    exact hafter
  · obtain ⟨hsettled, hfin, -, ⟨kit, hk, -⟩, session, hs, -, -⟩ := of_toPending hentry
    simp [kitSettled, hk, hs, hsettled, hfin]

/-- **A finished Kit job can be acknowledged exactly when its session id has no white space around it.**  In every run of the
store: whatever was called before the Kit job was admitted and after, the pair that the pending list has for it can be marked,
and then leaves the list for the released ones, can be evicted and pins no release, if and only if the session id that the
admission was given is its own trim. -/
theorem kit_acknowledged_iff (before later : List Call) {start : Call} {input : JobStartInput} (hop : start.op = .recordStart input)
    (hkit : input.kitExecution.isSome = true) (hok : (step (Run.final step Db.empty before) start).2 = .ok .unit)
    {entry : PendingKitFinalization}
    (hentry : entry ∈ getPendingKitFinalizations (Run.final step Db.empty (before ++ start :: later)))
    (hid : entry.jobId = input.id) {mark : Call} (hmark : mark.op = .markKitTerminalFinalized entry.jobId entry.kitSessionId) :
    Acknowledged (Run.final step Db.empty (before ++ start :: later)) mark input.id ↔
      ∃ session, input.kitSessionId = some session ∧ JsText.trim session = session := by
  obtain ⟨r, hr, -, hpending⟩ := mem_pending.1 hentry
  obtain ⟨-, -, hjob, ⟨kit, hrkit, -⟩, session, hsession, hshown, -⟩ := of_toPending hpending
  have hrid : r.id = input.id := hjob.symm.trans hid
  rw [hrid] at hr
  obtain ⟨⟨f, hf⟩, hfirst⟩ := admits_session hop hkit hok
  have hinput : input.kitSessionId = some session := by
    have hrun := session_run hf hfirst later
    rw [Run.final_append, Run.final_cons] at hr
    rw [← hrun r hr (by rw [hrkit]; rfl), hsession]
  rw [acknowledged_iff (row_run rowInvariant_withheld _) hr hpending hmark, hsession, hshown, hinput]
  simp only [Option.some.injEq, exists_eq_left']
  exact eq_comm

section Fixed

/-- A Kit job, and its session as the caller wrote it. -/
def kitStart (session : String) : JobStartInput :=
  { JobStartInput.plain "job" "1970-01-01T00:00:00.000Z" with
    kitExecution := some ⟨"r1", "c1", none, none, "x1"⟩
    kitSessionId := some session }

def noRetention : Config := ⟨none, 0, 30000, IsoTime.isoDateParse⟩

def epoch : Clock := ⟨0, 0, zero_le_maxTime⟩

def startCall (session : String) : Call := ⟨noRetention, epoch, .recordStart (kitStart session)⟩

def completeCall : Call := ⟨noRetention, epoch, .recordComplete (.plain "job" .completed "1970-01-01T00:00:00.000Z")⟩

/-- The pair that the list shows, with the session trimmed. -/
def pendingJob : PendingKitFinalization :=
  ⟨"job", "claude", .completed, "s1", ⟨"r1", "c1", none, none, "x1"⟩, "1970-01-01T00:00:00.000Z", none, none⟩

def markCall : Call := ⟨noRetention, epoch, .markKitTerminalFinalized "job" "s1"⟩

theorem pending_of_complete_kitStart :
    ∃ entry ∈ getPendingKitFinalizations (Run.final step Db.empty ([startCall "s1"] ++ [completeCall])), entry.jobId = "job" := by
  have hkit : ((Run.final step Db.empty [startCall "s1"]).jobs.get "job").all (fun r => r.kitExecution.isSome) = true := by
    decide +kernel
  refine @pending_of_complete [startCall "s1"] completeCall (.plain "job" .completed "1970-01-01T00:00:00.000Z") rfl
    (by decide) (by decide) (by decide +kernel) ?_
  rintro r (hr : (Run.final step Db.empty [startCall "s1"]).jobs.get "job" = some r)
  rwa [hr] at hkit

theorem kit_acknowledged_iff_trimmed :
    Acknowledged (Run.final step Db.empty [startCall "s1", completeCall]) markCall "job" := by
  have hok : (step (Run.final step Db.empty []) (startCall "s1")).2 = .ok .unit := by decide +kernel
  have hentry : pendingJob ∈ getPendingKitFinalizations (Run.final step Db.empty ([] ++ startCall "s1" :: [completeCall])) := by
    decide +kernel
  have hop : (startCall "s1").op = .recordStart (kitStart "s1") := rfl
  have hmark : markCall.op = .markKitTerminalFinalized pendingJob.jobId pendingJob.kitSessionId := rfl
  exact (kit_acknowledged_iff [] [completeCall] hop rfl hok hentry rfl hmark).2 ⟨"s1", rfl, by decide +kernel⟩

/-- A job that was admitted with white space before its session: the list shows the trimmed id, and the mark with it finds no
row. -/
theorem kit_not_acknowledged :
    (step Db.empty (startCall " s1")).2 = .ok .unit ∧
      (step (Run.final step Db.empty [startCall " s1"]) completeCall).2 = .ok (.bool true) ∧
      pendingJob ∈ getPendingKitFinalizations (Run.final step Db.empty [startCall " s1", completeCall]) ∧
      ¬Acknowledged (Run.final step Db.empty [startCall " s1", completeCall]) markCall "job" := by
  refine ⟨by decide +kernel, by decide +kernel, by decide +kernel, ?_⟩
  intro h
  have hfalse : (step (Run.final step Db.empty [startCall " s1", completeCall]) markCall).2 = .ok (.bool false) := by
    decide +kernel
  have htrue := hfalse.symm.trans h.returned
  cases htrue

end Fixed

end LlmGateway.JobStore
