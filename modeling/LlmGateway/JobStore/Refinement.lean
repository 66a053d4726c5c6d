import Mathlib.Data.List.Dedup
import LlmGateway.JobStore.Memory

/-!
# The in-memory store refines the SQLite store

* `Readable` — a row that a read of the SQLite store gives back as it is;
* `Refines` — the two stores hold the same rows and fences, all of them readable;
* `step_refines`, `memory_refines` — one call, and every run from the empty stores: the same answers and the same reads.
-/

namespace LlmGateway.JobStore

open LlmGateway.Lib LlmGateway.Lib.IsoTime

variable {db : Db} {mem : MemoryJobStore} {cfg : Config} {now : Clock} {row : JobRecord}

/-! ## The relation -/

/-- The decoded columns of the row pass the checks of a read, and its times are those of its ISO texts. -/
structure Readable (row : JobRecord) : Prop where
  kit : ∀ kit, row.kitExecution = some kit → isKitExecutionRef kit = true
  session : parseKitSessionId row.kitSessionId = row.kitSessionId
  replay : row.replayContext.bind parseJobReplayContext = row.replayContext
  finalizedAt : row.kitTerminalFinalizedAt.isSome = row.kitTerminalFinalized
  httpStatus : row.status.isOpen = true → row.httpStatus = none
  started : ∃ t, Narrow t ∧ row.startedAt = isoText t

/-- The two stores hold the same rows and fences. -/
structure Refines (db : Db) (mem : MemoryJobStore) : Prop where
  rows : mem.rows.Mirrors db.jobs
  fences : mem.kitAttemptFences.Mirrors db.kitAttemptFences
  readable : ∀ id row, db.jobs.get id = some row → Readable row
  valid : ∀ id f, db.kitAttemptFences.get id = some f → isKitExecutionRef f.kitExecution = true

theorem rowToRecord_of_readable (h : Readable row) : rowToRecord row = row := by
  have hkit : row.kitExecution.filter isKitExecutionRef = row.kitExecution := by
    cases hk : row.kitExecution with
    | none => rfl
    | some kit => simp [Option.filter, h.kit kit hk]
  rw [rowToRecord, hkit, h.session, h.replay]

theorem cloneKitExecutionRef_of_valid {kit : KitExecutionRef} (h : isKitExecutionRef kit = true) :
    cloneKitExecutionRef kit = .ok kit := if_pos h

theorem cloneJobRecord_of_readable (h : Readable row) : MemoryJobStore.cloneJobRecord row = .ok row := by
  unfold MemoryJobStore.cloneJobRecord
  cases hk : row.kitExecution with
  | none => rfl
  | some kit =>
    simp only [cloneKitExecutionRef_of_valid (h.kit kit hk), Except.map]
    rw [← hk]

/-! ## Rewriting one row -/

/-- What `updateRow` answers and leaves. -/
theorem updateRow_spec (mem : MemoryJobStore) (id : String) (q : JobRecord → Bool) (f : JobRecord → JobRecord) :
    (mem.updateRow id q f).1 = (mem.rows.get id).any q ∧
      (∀ k, (mem.updateRow id q f).2.rows.get k =
        (mem.rows.get k).map fun r => if id = k ∧ q r = true then f r else r) ∧
      (mem.updateRow id q f).2.kitAttemptFences = mem.kitAttemptFences := by
  have hsame : ∀ {o : Option JobRecord} {k : String}, (∀ r, o = some r → ¬(id = k ∧ q r = true)) →
      o = o.map fun r => if id = k ∧ q r = true then f r else r := by
    intro o k hno
    cases o with
    | none => rfl
    | some r => rw [Option.map_some, if_neg (hno r rfl)]
  unfold MemoryJobStore.updateRow
  cases hrow : mem.rows.get id with
  | none =>
    refine ⟨rfl, fun k => hsame ?_, rfl⟩
    rintro r hr ⟨rfl, -⟩
    rw [hrow] at hr
    cases hr
  | some row =>
    dsimp only
    by_cases hq : q row = true
    · rw [if_pos hq]
      refine ⟨hq.symm, fun k => ?_, rfl⟩
      rw [JsMap.get_set]
      by_cases hk : id = k
      · subst hk
        rw [if_pos rfl, hrow, Option.map_some, if_pos ⟨rfl, hq⟩]
      · rw [if_neg hk]
        exact hsame fun r _ h => hk h.1
    · rw [if_neg hq]
      refine ⟨by simpa using hq, fun k => hsame ?_, rfl⟩
      rintro r hr ⟨rfl, hqr⟩
      rw [hrow] at hr
      cases hr
      exact hq hqr

/-- A method that looks a row up and rewrites it, against the UPDATE of that row. -/
theorem refines_updateRow (id : String) {q q' : JobRecord → Bool} {f f' : JobRecord → JobRecord}
    (hf : ∀ r, (f r).id = r.id) (h : Refines db mem) (hq : ∀ row, q' row = q row)
    (hfun : ∀ row, db.jobs.get id = some row → Readable row → q row = true → f' row = f row)
    (hread : ∀ row, Readable row → q row = true → Readable (f row)) :
    (updateJob db id q f hf).2 = (if (mem.updateRow id q' f').1 = true then 1 else 0) ∧
      Refines (updateJob db id q f hf).1 (mem.updateRow id q' f').2 := by
  obtain ⟨hret, hrows, hfences⟩ := updateRow_spec mem id q' f'
  have hget : ∀ k, (updateJob db id q f hf).1.jobs.get k =
      (db.jobs.get k).map fun r => if r.id == id && q r then f r else r := fun k => get_updateJobs
  refine ⟨?_, fun k => ?_, ?_, fun k row hrow => ?_, h.valid⟩
  · rw [updateJob_changes, hret, h.rows, funext hq]
  · rw [hrows, hget, h.rows]
    cases hrow : db.jobs.get k with
    | none => rfl
    | some row =>
      have hr := h.readable k row hrow
      rw [Option.map_some, Option.map_some, hq row, Table.key_of_get hrow]
      by_cases hp : id = k ∧ q row = true
      · rw [if_pos hp, if_pos (by simp [hp.1, hp.2]), hfun row (hp.1 ▸ hrow) hr hp.2]
      · rw [if_neg hp, if_neg]
        simp only [Bool.and_eq_true, beq_iff_eq]
        exact fun hc => hp ⟨hc.1.symm, hc.2⟩
  · rw [hfences]
    exact h.fences
  · rw [hget] at hrow
    obtain ⟨row₀, hrow₀, rfl⟩ := Option.map_eq_some_iff.1 hrow
    have hr := h.readable k row₀ hrow₀
    split
    · rename_i hp
      simp only [Bool.and_eq_true] at hp
      exact hread row₀ hr hp.2
    · exact hr

/-- A statement on all rows that satisfy a predicate, against a loop over the values. -/
theorem refines_updateWhere {p p' : JobRecord → Bool} {f f' : JobRecord → JobRecord} (hf : ∀ r, (f r).id = r.id)
    (h : Refines db mem) (hp : ∀ row, p' row = p row) (hfun : ∀ row, f' row = f row)
    (hread : ∀ row, Readable row → Readable (f row)) :
    (updateJobs db p f hf).2 = mem.rows.countWhere p' ∧
      Refines (updateJobs db p f hf).1 { mem with rows := mem.rows.updateWhere p' f' } := by
  obtain rfl : p' = p := funext hp
  obtain rfl : f' = f := funext hfun
  refine ⟨(h.rows.countWhere p').symm, fun k => ?_, h.fences, fun k row hrow => ?_, h.valid⟩
  · rw [JsMap.get_updateWhere, h.rows, get_updateJobs]
  · rw [get_updateJobs] at hrow
    obtain ⟨row₀, hrow₀, rfl⟩ := Option.map_eq_some_iff.1 hrow
    have hr := h.readable k row₀ hrow₀
    split
    · exact hread row₀ hr
    · exact hr

/-- A DELETE of the rows that satisfy a predicate, against a loop that deletes them. -/
theorem refines_deleteWhere {p p' : JobRecord → Bool} (h : Refines db mem) (hp : ∀ row, p' row = p row) :
    db.jobs.count p = mem.rows.countWhere p' ∧
      Refines { db with jobs := db.jobs.delete p } { mem with rows := mem.rows.deleteWhere p' } := by
  obtain rfl : p' = p := funext hp
  refine ⟨(h.rows.countWhere p').symm, fun k => ?_, h.fences, fun k row hrow => ?_, h.valid⟩
  · rw [JsMap.get_deleteWhere, h.rows, Table.get_delete]
  · dsimp only at hrow
    rw [Table.get_delete] at hrow
    exact h.readable k row (Option.filter_eq_some_iff.1 hrow).1

/-! ## Admission -/

/-- An admission whose row reads back as it is. -/
structure ReadableStart (input : JobStartInput) : Prop where
  session : parseKitSessionId input.kitSessionId = input.kitSessionId
  replay : input.kitExecution = none → input.replayContext.bind parseJobReplayContext = input.replayContext
  started : ∃ t, Narrow t ∧ input.startedAt = isoText t

theorem startRow_eq (hclock : now.db = now.date) (input : JobStartInput) :
    MemoryJobStore.startRow cfg now input = startRow cfg now input := by
  simp only [MemoryJobStore.startRow, startRow, hclock, Bool.and_assoc]

theorem readable_startRow {input : JobStartInput} (h : ReadableStart input)
    (hkit : ∀ kit, input.kitExecution = some kit → isKitExecutionRef kit = true) :
    Readable (startRow cfg now input) := by
  refine ⟨hkit, h.session, ?_, rfl, fun _ => rfl, h.started⟩
  cases hk : input.kitExecution with
  | none => simp only [startRow, hk, Option.isSome_none, Bool.false_eq_true, if_false, h.replay hk]
  | some kit => simp [startRow, hk]

/-- The job half of an admission of a new id. -/
theorem insertJob_refines {input : JobStartInput} (h : Refines db mem) (hclock : now.db = now.date)
    (hread : ReadableStart input) (hfresh : db.jobs.get input.id = none) (hva : input.validationAdmission = none)
    (hkit : ∀ kit, input.kitExecution = some kit → isKitExecutionRef kit = true) :
    ∃ db' mem', insertJob cfg now db input = .ok db' ∧
      MemoryJobStore.setStartRow cfg now mem input = (.ok (), mem') ∧ Refines db' mem' := by
  have hclone : ∀ e, input.kitExecution.map cloneKitExecutionRef ≠ some (.error e) := by
    intro e he
    obtain ⟨kit, hk, hc⟩ := Option.map_eq_some_iff.1 he
    rw [cloneKitExecutionRef_of_valid (hkit kit hk)] at hc
    cases hc
  obtain ⟨jobs, hjobs⟩ := Table.insert_eq_some_of_get (r := startRow cfg now input) hfresh
  refine ⟨{ db with jobs := jobs }, { mem with rows := mem.rows.set input.id (startRow cfg now input) }, ?_, ?_,
    fun k => ?_, h.fences, fun k row hrow => ?_, h.valid⟩
  · unfold insertJob
    split
    · exact absurd ‹_› (hclone _)
    · rw [hjobs]
  · unfold MemoryJobStore.setStartRow
    rw [hva, startRow_eq hclock]
    simp only [Option.isSome_none, Bool.false_eq_true, if_false]
  · rw [JsMap.get_set, Table.get_insert hjobs, h.rows]
    rfl
  · rw [Table.get_insert hjobs] at hrow
    split at hrow
    · cases hrow
      exact readable_startRow hread hkit
    · exact h.readable k row hrow

/-- The fence half: the two stores insert it, or both have one. -/
theorem insertKitAttemptFence_refines (input : KitAttemptFenceInput) (state : FenceState) (h : Refines db mem)
    (hvalid : isKitExecutionRef input.kitExecution = true) :
    (∃ db' mem', insertKitAttemptFence db input state = .ok (true, db') ∧ db'.jobs = db.jobs ∧
        mem.insertKitAttemptFence input state = .ok (true, mem') ∧ Refines db' mem') ∨
      insertKitAttemptFence db input state = .ok (false, db) ∧
        mem.insertKitAttemptFence input state = .ok (false, mem) := by
  unfold insertKitAttemptFence MemoryJobStore.insertKitAttemptFence
  rw [cloneKitExecutionRef_of_valid hvalid, h.fences]
  dsimp only
  cases hins : db.kitAttemptFences.insert ⟨input.attemptId, state, input.cli, input.kitExecution, input.kitSessionId,
    input.ownerPrincipal, input.fencedAt⟩ with
  | none =>
    rw [Table.insert_eq_none_iff] at hins
    exact Or.inr ⟨rfl, if_pos hins⟩
  | some fences =>
    have hnone := Table.get_of_insert hins
    refine Or.inl ⟨{ db with kitAttemptFences := fences }, _, rfl, rfl, if_neg (by simp [hnone]), h.rows, fun k => ?_,
      h.readable, fun k f hf => ?_⟩
    · rw [JsMap.get_set, Table.get_insert hins, h.fences]
    · dsimp only at hf
      rw [Table.get_insert hins] at hf
      split at hf
      · cases hf
        exact hvalid
      · exact h.valid k f hf

/-- Of an invalid reference no store inserts a fence. -/
theorem insertKitAttemptFence_invalid (db : Db) (mem : MemoryJobStore) (input : KitAttemptFenceInput)
    (state : FenceState) (hinvalid : ¬isKitExecutionRef input.kitExecution = true) :
    (∃ e, insertKitAttemptFence db input state = .error e) ∧
      ((∃ e, mem.insertKitAttemptFence input state = .error e) ∨
        mem.insertKitAttemptFence input state = .ok (false, mem)) := by
  have hclone : cloneKitExecutionRef input.kitExecution =
      .error "Invalid Personal Agent Config Kit execution reference" := if_neg hinvalid
  unfold insertKitAttemptFence MemoryJobStore.insertKitAttemptFence
  rw [hclone]
  refine ⟨⟨_, rfl⟩, ?_⟩
  split
  · exact Or.inr rfl
  · exact Or.inl ⟨_, rfl⟩

/-- An admission of a new id is made by both stores, or refused by both. -/
theorem recordStart_refines (cfg : Config) {input : JobStartInput} (h : Refines db mem) (hclock : now.db = now.date)
    (hread : ReadableStart input) (hfresh : db.jobs.get input.id = none) (hva : input.validationAdmission = none) :
    (∃ db' mem', recordStart cfg now db input = .ok db' ∧
        MemoryJobStore.recordStart cfg now mem input = (.ok (), mem') ∧ Refines db' mem') ∨
      ∃ e e', recordStart cfg now db input = .error e ∧
        MemoryJobStore.recordStart cfg now mem input = (.error e', mem) := by
  unfold recordStart MemoryJobStore.recordStart
  rw [hva]
  cases assertMcpArtifactAdmissionInvariant input with
  | error e => exact Or.inr ⟨e, e, rfl, rfl⟩
  | ok =>
    cases hk : input.kitExecution with
    | none => exact Or.inl (insertJob_refines h hclock hread hfresh hva fun kit hkit => by rw [hk] at hkit; cases hkit)
    | some kit =>
      dsimp only
      unfold recordKitStart MemoryJobStore.admitKitAttempt
      dsimp only
      by_cases hsession : JsText.trim (input.kitSessionId.getD "") = ""
      · rw [if_pos hsession, if_pos hsession]
        exact Or.inr ⟨_, _, rfl, rfl⟩
      · rw [if_neg hsession, if_neg hsession]
        by_cases hvalid : isKitExecutionRef kit = true
        · have hkits : ∀ kit', input.kitExecution = some kit' → isKitExecutionRef kit' = true := by
            intro kit' hkit'
            rw [hk] at hkit'
            cases hkit'
            exact hvalid
          rcases insertKitAttemptFence_refines ⟨input.id, input.cli, kit, _, input.ownerPrincipal, input.startedAt⟩
            .admitted h hvalid with ⟨db₁, mem₁, he, hjobs, he', h₁⟩ | ⟨he, he'⟩
          · rw [he, he']
            rw [← hjobs] at hfresh
            exact Or.inl (insertJob_refines h₁ hclock hread hfresh hva hkits)
          · rw [he, he']
            exact Or.inr ⟨_, _, rfl, rfl⟩
        · obtain ⟨⟨e, he⟩, ⟨e', he'⟩ | he'⟩ := insertKitAttemptFence_invalid db mem
            ⟨input.id, input.cli, kit, _, input.ownerPrincipal, input.startedAt⟩ .admitted hvalid
          · rw [he, he']
            exact Or.inr ⟨_, _, rfl, rfl⟩
          · rw [he, he']
            exact Or.inr ⟨_, _, rfl, rfl⟩

/-- A reservation with a valid reference is answered the same by both stores. -/
theorem fenceUnadmittedKitAttempt_refines {input : KitAttemptFenceInput} (h : Refines db mem)
    (hvalid : isKitExecutionRef input.kitExecution = true) :
    ∃ result db' mem', fenceUnadmittedKitAttempt db input = .ok (result, db') ∧
      mem.fenceUnadmittedKitAttempt input = .ok (result, mem') ∧ Refines db' mem' := by
  unfold fenceUnadmittedKitAttempt MemoryJobStore.fenceUnadmittedKitAttempt
  rcases insertKitAttemptFence_refines input .recovered h hvalid with ⟨db', mem', he, -, he', h'⟩ | ⟨he, he'⟩
  · rw [he, he']
    exact ⟨.reserved, db', mem', rfl, rfl, h'⟩
  · rw [he, he']
    dsimp only
    rw [h.fences]
    cases hf : db.kitAttemptFences.get input.attemptId with
    | none => exact ⟨.conflict, db, mem, rfl, rfl, h⟩
    | some f =>
      have hfv := h.valid _ f hf
      have hsame : sameKitExecutionRef f.kitExecution input.kitExecution =
          .ok (f.kitExecution == input.kitExecution) := by
        simp [sameKitExecutionRef, cloneKitExecutionRef_of_valid hfv, cloneKitExecutionRef_of_valid hvalid, bind,
          Except.bind, pure, Except.pure]
      rw [Option.filter_some, Option.filter_some, hfv, Bool.and_true]
      by_cases hp : (f.state == .recovered && f.cli == input.cli && f.kitSessionId == input.kitSessionId &&
          recoveredFenceOwnerMatches f.ownerPrincipal input.ownerPrincipal) = true
      · rw [if_pos hp]
        dsimp only
        rw [hsame]
        cases f.kitExecution == input.kitExecution with
        | true => exact ⟨.already_recovered, db, mem, rfl, rfl, h⟩
        | false => exact ⟨.conflict, db, mem, rfl, rfl, h⟩
      · rw [if_neg hp]
        exact ⟨.conflict, db, mem, rfl, rfl, h⟩

/-! ## Completion -/

theorem completable_eq (row : JobRecord) :
    (!(row.status != .queued && row.status != .running && row.status != .orphaned)) = completable row := by
  unfold completable
  cases row.status <;> rfl

/-- The assignments of a completion, when it does not keep a status that the statement overwrites. -/
theorem settleRow_eq {input : JobCompletionInput} (expiresAt : String)
    (hhttp : input.httpStatus = none → row.httpStatus = none) :
    MemoryJobStore.settleRow input expiresAt (MemoryJobStore.finishRow input row) = setComplete input expiresAt row := by
  simp only [MemoryJobStore.settleRow, MemoryJobStore.finishRow, setComplete, JobRecord.mk.injEq, true_and]
  refine ⟨?_, ?_, ?_⟩
  · cases hs : input.httpStatus with
    | none => exact hhttp hs
    | some httpStatus => rfl
  · cases input.progressJson <;> rfl
  · rw [Option.not_isSome]
    cases input.capture with
    | none => simp
    | some capture => rfl

/-- The method, as a rewrite of the row, when the expiry can be written. -/
theorem recordComplete_eq {input : JobCompletionInput} {expiresAt : String}
    (hexp : retentionExpiryIso cfg input.finishedAt = .ok expiresAt) :
    MemoryJobStore.recordComplete cfg mem input =
      let (b, mem) := mem.updateRow input.id completable fun row =>
        MemoryJobStore.settleRow input expiresAt (MemoryJobStore.finishRow input row)
      (.ok b, mem) := by
  unfold MemoryJobStore.recordComplete MemoryJobStore.updateRow
  cases mem.rows.get input.id with
  | none => rfl
  | some row =>
    dsimp only
    rw [← completable_eq, hexp]
    cases (row.status != .queued && row.status != .running && row.status != .orphaned) <;> rfl

theorem readable_setComplete {input : JobCompletionInput} {expiresAt : String} (h : Readable row) :
    Readable (setComplete input expiresAt row) := by
  refine ⟨h.kit, h.session, h.replay, h.finalizedAt, fun hopen => ?_, h.started⟩
  have hclosed : input.status.toStatus.isOpen = false := by cases input.status <;> rfl
  rw [show (setComplete input expiresAt row).status = input.status.toStatus from rfl, hclosed] at hopen
  cases hopen

theorem finalizeRow_eq (h : Readable row) : MemoryJobStore.finalizeRow now row = setFinalized now.nowIso row := by
  have hat := h.finalizedAt
  unfold MemoryJobStore.finalizeRow setFinalized
  cases hf : row.kitTerminalFinalized with
  | true =>
    rw [hf] at hat
    obtain ⟨at', hat'⟩ := Option.isSome_iff_exists.1 hat
    rw [if_pos rfl, hat', Option.getD_some, ← hat', ← hf]
  | false =>
    rw [hf, Option.isSome_eq_false_iff, Option.isNone_iff_eq_none] at hat
    rw [if_neg Bool.false_ne_true, hat]
    rfl

/-! ## One call -/

/-- What the two stores are compared on.  The clocks are one; an admission is to no validation run and reads back as it
is; a fence is reserved with a valid reference; a completion has an expiry that can be written, and does not leave out
the HTTP status on an orphaned row that has one; no sweep and no collection of instances takes place. -/
def Comparable (db : Db) (call : Call) : Prop :=
  call.now.db = call.now.date ∧
    match call.op with
    | .recordStart input => input.validationAdmission = none ∧ ReadableStart input
    | .fenceUnadmittedKitAttempt input => isKitExecutionRef input.kitExecution = true
    | .recordComplete input =>
      (∃ expiresAt, retentionExpiryIso call.cfg input.finishedAt = .ok expiresAt) ∧
        (input.httpStatus = none → ∀ row, db.jobs.get input.id = some row → row.status = .orphaned →
          row.httpStatus = none)
    | .recoverStaleJobs _ _ _ | .gcInstances _ => False
    | _ => True

/-- An answer: that the operation throws, or what it returns, whether an instance row was refreshed left out. -/
def answer : Except String Ret → Option Ret
  | .error _ => none
  | .ok (.heartbeat outcome) => some (.heartbeat { outcome with instanceRowRefreshed := true })
  | .ok ret => some ret

/-- The number of affected rows, as the answer of a method. -/
theorem changes_eq {n : ℕ} {b : Bool} (h : n = if b = true then 1 else 0) :
    decide (n > 0) = b ∧ decide (n = 1) = b := by
  subst h
  cases b <;> exact ⟨rfl, rfl⟩

theorem isOpen_eq (s : JobStoreStatus) : (s == .queued || s == .running) = s.isOpen := by cases s <;> rfl

theorem isSettled_eq (s : JobStoreStatus) : s.isSettled = !(s == .queued || s == .running || s == .orphaned) := by
  cases s <;> rfl

theorem capturable_eq {ownerInstance : String} (row : JobRecord) :
    (!(row.ownerInstance != some ownerInstance ||
      (row.capture.captureStatus.isSome && !(row.capture.captureStatus == some .not_captured &&
        row.capture.captureError == some CAPTURE_ACCOUNTING_RECOVERY_ERROR)) ||
      row.kitExecution.isSome || row.status == .queued || row.status == .running || row.status == .orphaned)) =
    capturable ownerInstance row := by
  simp only [capturable, isSettled_eq, bne, Bool.not_or, Bool.not_and, Bool.not_not, Option.not_isSome]
  ac_rfl

theorem captureRow_eq {ownerInstance : String} {capture : CaptureInput} (h : capturable ownerInstance row = true) :
    MemoryJobStore.captureRow capture row = setCapture capture row := by
  simp only [capturable, Bool.and_eq_true, Option.isNone_iff_eq_none] at h
  simp [MemoryJobStore.captureRow, setCapture, h.1.1.2]

theorem finalizable_eq {kitSessionId : String} (row : JobRecord) :
    (!(row.status == .queued || row.status == .running || row.status == .orphaned || row.kitExecution.isNone ||
      row.kitSessionId != some kitSessionId)) = finalizable kitSessionId row := by
  simp only [finalizable, isSettled_eq, bne, Bool.not_or, Bool.not_not, Option.not_isNone]
  ac_rfl

theorem acknowledgeable_eq {hostname artifactScope artifactPath : String} (row : JobRecord) :
    (!(row.ownerHostname != some hostname || row.mcpArtifactScope != some artifactScope ||
      row.mcpArtifactPath != some artifactPath || !row.mcpArtifactCleanupPending ||
      (row.status != .completed && row.status != .failed && row.status != .canceled && row.status != .orphaned))) =
    acknowledgeable hostname artifactScope artifactPath row := by
  have hs : (!row.status.isOpen) =
      !(row.status != .completed && row.status != .failed && row.status != .canceled && row.status != .orphaned) := by
    cases row.status <;> rfl
  simp only [acknowledgeable, hs, bne, Bool.not_or, Bool.not_not]

theorem orphaned_of_closed {s : JobStoreStatus} (hopen : s.isOpen = false) (hsettled : s.isSettled = false) :
    s = .orphaned := by
  cases s with
  | orphaned => rfl
  | queued | running => cases hopen
  | completed | failed | canceled => cases hsettled

/-- A completion whose expiry can be written. -/
theorem recordComplete_refines {input : JobCompletionInput} {expiresAt : String} (h : Refines db mem)
    (hexp : retentionExpiryIso cfg input.finishedAt = .ok expiresAt)
    (hhttp : input.httpStatus = none → ∀ row, db.jobs.get input.id = some row → row.status = .orphaned →
      row.httpStatus = none) :
    ∃ b db' mem', recordComplete cfg db input = .ok (b, db') ∧
      MemoryJobStore.recordComplete cfg mem input = (.ok b, mem') ∧ Refines db' mem' := by
  rw [recordComplete_eq hexp]
  unfold recordComplete
  rw [hexp]
  have hfun : ∀ row, db.jobs.get input.id = some row → Readable row → completable row = true →
      MemoryJobStore.settleRow input expiresAt (MemoryJobStore.finishRow input row) =
        setComplete input expiresAt row := by
    intro row hrow hread hc
    refine settleRow_eq expiresAt fun hnone => ?_
    by_cases hopen : row.status.isOpen = true
    · exact hread.httpStatus hopen
    · refine hhttp hnone row hrow ?_
      exact orphaned_of_closed (by simpa using hopen) (by simpa [completable] using hc)
  obtain ⟨hn, href⟩ := refines_updateRow input.id (setComplete_id input expiresAt) h (fun _ => rfl) hfun
    fun row hread _ => readable_setComplete hread
  exact ⟨_, _, _, rfl, congrArg (fun b => (Except.ok b, _)) (changes_eq hn).2.symm, href⟩

theorem refines_of_ok {call : MemoryJobStore.MemoryCall} (ret : Ret) {db' : Db} {mem' : MemoryJobStore}
    (he : perform call.1.cfg call.1.now db call.1.op = .ok (ret, db'))
    (he' : MemoryJobStore.perform call.1.cfg call.1.now mem call.1.op call.2 = (.ok ret, mem')) (href : Refines db' mem') :
    answer (step db call.1).2 = answer (MemoryJobStore.step mem call).2 ∧
      Refines (step db call.1).1 (MemoryJobStore.step mem call).1 := by
  rw [step, he, MemoryJobStore.step, he']
  exact ⟨rfl, href⟩

/-- **One call**: the two stores answer the same, and hold the same afterwards. -/
theorem step_refines {call : MemoryJobStore.MemoryCall} (h : Refines db mem) (hc : Comparable db call.1)
    (hfresh : ∀ input, call.1.op = .recordStart input → db.jobs.get input.id = none) :
    answer (step db call.1).2 = answer (MemoryJobStore.step mem call).2 ∧
      Refines (step db call.1).1 (MemoryJobStore.step mem call).1 := by
  obtain ⟨⟨cfg, now, op⟩, hv⟩ := call
  obtain ⟨hclock, hc⟩ := hc
  change now.db = now.date at hclock
  cases op with
  | recordStart input =>
    obtain ⟨hva, hread⟩ := hc
    rcases recordStart_refines cfg h hclock hread (hfresh input rfl) hva with
      ⟨db', mem', he, he', href⟩ | ⟨e, e', he, he'⟩
    · exact refines_of_ok .unit (by simp [perform, he, Except.map]) (by simp [MemoryJobStore.perform, he', Except.map]) href
    · have hstep : step db ⟨cfg, now, .recordStart input⟩ = (db, .error e) := by simp [step, perform, he, Except.map]
      have hmem : MemoryJobStore.step mem ⟨⟨cfg, now, .recordStart input⟩, hv⟩ = (mem, .error e') := by
        simp [MemoryJobStore.step, MemoryJobStore.perform, he', Except.map]
      rw [hstep, hmem]
      exact ⟨rfl, h⟩
  | fenceUnadmittedKitAttempt input =>
    obtain ⟨result, db', mem', he, he', href⟩ := fenceUnadmittedKitAttempt_refines h hc
    exact refines_of_ok (.fence result) (by simp [perform, he, Except.map]) (by simp [MemoryJobStore.perform, he']) href
  | markRunning id pid =>
    have hfun : ∀ row, MemoryJobStore.runRow cfg now pid row = setRunning pid (now.db + cfg.leaseTtlMs) row := by
      intro row
      simp only [MemoryJobStore.runRow, setRunning, hclock]
    obtain ⟨hn, href⟩ := refines_updateRow id (q := fun row => row.status == .queued)
      (setRunning_id pid (now.db + cfg.leaseTtlMs)) h (fun _ => rfl)
      (fun row _ _ _ => hfun row) fun row hr hq => ⟨hr.kit, hr.session, hr.replay, hr.finalizedAt,
        fun _ => hr.httpStatus (by rw [beq_iff_eq.1 hq]; rfl), hr.started⟩
    exact ⟨congrArg (fun b => some (Ret.bool b)) (changes_eq hn).1, href⟩
  | registerInstance info | deregisterInstance instanceId => exact ⟨rfl, h.rows, h.fences, h.readable, h.valid⟩
  | heartbeat instanceId =>
    have hp : ∀ row, MemoryJobStore.ownedBy instanceId row =
        (row.ownerInstance == some instanceId && row.status.isOpen) := by
      intro row
      rw [MemoryJobStore.ownedBy, isOpen_eq]
    have h₁ : Refines { db with
        gatewayInstances := db.gatewayInstances.update (fun g => g.instanceId == instanceId) (setHeartbeat now.db)
          (setHeartbeat_id now.db) } mem := ⟨h.rows, h.fences, h.readable, h.valid⟩
    have hfun : ∀ row : JobRecord, { row with leaseDeadline := some ((now.date : ℤ) + cfg.leaseTtlMs) } =
        setLease (now.db + cfg.leaseTtlMs) row := by
      intro row
      simp only [setLease, hclock]
    obtain ⟨hn, href⟩ := refines_updateWhere (setLease_id (now.db + cfg.leaseTtlMs)) h₁ hp hfun
      fun row hr => ⟨hr.kit, hr.session, hr.replay, hr.finalizedAt, hr.httpStatus, hr.started⟩
    exact ⟨congrArg (fun n => some (Ret.heartbeat ⟨true, n⟩)) hn, href⟩
  | recoverStaleJobs | gcInstances => exact hc.elim
  | recordOutput id stdout stderr truncated expected =>
    have hfun : ∀ row, MemoryJobStore.outputRow stdout stderr truncated row = setOutput stdout stderr truncated row := by
      intro row
      simp only [MemoryJobStore.outputRow, setOutput]
      cases row.kitExecution <;> rfl
    obtain ⟨hn, href⟩ := refines_updateRow id (setOutput_id stdout stderr truncated) h (fun _ => rfl)
      (fun row _ _ _ => hfun row)
      fun row hr _ => ⟨hr.kit, hr.session, hr.replay, hr.finalizedAt, hr.httpStatus, hr.started⟩
    exact ⟨congrArg (fun b => some (Ret.bool b)) (changes_eq hn).1, href⟩
  | recordProgress id progressJson =>
    obtain ⟨-, href⟩ := refines_updateRow id (q := fun _ => true) (setProgress_id progressJson) h (fun _ => rfl)
      (fun _ _ _ _ => rfl)
      fun row hr _ => ⟨hr.kit, hr.session, hr.replay, hr.finalizedAt, hr.httpStatus, hr.started⟩
    exact ⟨rfl, href⟩
  | recordProgressIfStatus id status progressJson =>
    obtain ⟨hn, href⟩ := refines_updateRow id (setProgress_id progressJson) h (fun _ => rfl) (fun _ _ _ _ => rfl)
      fun row hr _ => ⟨hr.kit, hr.session, hr.replay, hr.finalizedAt, hr.httpStatus, hr.started⟩
    exact ⟨congrArg (fun b => some (Ret.bool b)) (changes_eq hn).2, href⟩
  | recordCapture input =>
    obtain ⟨hn, href⟩ := refines_updateRow input.id (setCapture_id input.capture) h capturable_eq
      (fun row _ _ hq => captureRow_eq hq)
      fun row hr _ => ⟨hr.kit, hr.session, hr.replay, hr.finalizedAt, hr.httpStatus, hr.started⟩
    exact ⟨congrArg (fun b => some (Ret.bool b)) (changes_eq hn).2, href⟩
  | recordComplete input =>
    obtain ⟨⟨expiresAt, hexp⟩, hhttp⟩ := hc
    obtain ⟨b, db', mem', he, he', href⟩ := recordComplete_refines h hexp hhttp
    exact refines_of_ok (.bool b) (by simp [perform, he, Except.map]) (by simp [MemoryJobStore.perform, he', Except.map]) href
  | markKitTerminalFinalized id session =>
    obtain ⟨hn, href⟩ := refines_updateRow id (setFinalized_id now.nowIso) h finalizable_eq
      (fun row _ hr _ => finalizeRow_eq hr)
      fun row hr _ => ⟨hr.kit, hr.session, hr.replay, rfl, hr.httpStatus, hr.started⟩
    exact ⟨congrArg (fun b => some (Ret.bool b)) (changes_eq hn).1, href⟩
  | acknowledgeMcpArtifactCleanup id hostname artifactScope artifactPath =>
    obtain ⟨hn, href⟩ := refines_updateRow id setAcknowledged_id h acknowledgeable_eq (fun _ _ _ _ => rfl)
      fun row hr _ => ⟨hr.kit, hr.session, hr.replay, hr.finalizedAt, hr.httpStatus, hr.started⟩
    exact ⟨congrArg (fun b => some (Ret.bool b)) (changes_eq hn).2, href⟩
  | evictExpired =>
    cases hret : cfg.retentionMs with
    | none =>
      exact refines_of_ok (.count 0) (by simp [perform, evictExpired, hret])
        (by simp [MemoryJobStore.perform, MemoryJobStore.evictExpired, hret]) h
    | some r =>
      obtain ⟨hn, href⟩ := refines_deleteWhere (p := expired now.nowIso) h fun _ => rfl
      refine refines_of_ok (.count (db.jobs.count (expired now.nowIso))) (by simp [perform, evictExpired, hret]) ?_ href
      simp only [MemoryJobStore.perform, MemoryJobStore.evictExpired, hret, hn]
      rfl
  | recordValidationRun | setValidationProviderLinks | setValidationJudgeLink | transitionValidationRunStatus
    | skipValidationJudge | finalizeValidationReceipt | evictWedgedValidationRuns => cases hv

/-! ## Reads -/

theorem getById_refines (h : Refines db mem) (id : String) :
    MemoryJobStore.getById mem id = .ok (getById db id) := by
  unfold MemoryJobStore.getById getById
  rw [h.rows]
  cases hrow : db.jobs.get id with
  | none => rfl
  | some row =>
    have hr := h.readable id row hrow
    rw [Option.map_some, rowToRecord_of_readable hr, MemoryJobStore.cloneJobRecord?, cloneJobRecord_of_readable hr]
    rfl

theorem Refines.readable_of_mem (h : Refines db mem) (hrow : row ∈ db.jobs.rows) : Readable row :=
  h.readable row.id row (Table.get_of_mem hrow)

/-- A projection of the rows, and the same of the rows a WHERE clause selects when it keeps all that are projected. -/
theorem mem_projection_iff {α : Type} {q : JobRecord → Bool} {g : JobRecord → Option α}
    {order : JobRecord → JobRecord → Prop}
    [DecidableRel order] (h : Refines db mem) (hq : ∀ row x, g row = some x → q row = true) (x : α) :
    x ∈ ((db.jobs.select q).insertionSort order).filterMap (g ∘ rowToRecord) ↔ x ∈ mem.rows.values.filterMap g := by
  rw [List.mem_filterMap, List.mem_filterMap]
  constructor
  · rintro ⟨row, hrow, hx⟩
    rw [List.mem_insertionSort, Table.select, List.mem_filter] at hrow
    rw [Function.comp, rowToRecord_of_readable (h.readable_of_mem hrow.1)] at hx
    exact ⟨row, h.rows.perm.mem_iff.2 hrow.1, hx⟩
  · rintro ⟨row, hrow, hx⟩
    have hmem := h.rows.perm.mem_iff.1 hrow
    refine ⟨row, ?_, ?_⟩
    · rw [List.mem_insertionSort, Table.select, List.mem_filter]
      exact ⟨hmem, hq row x hx⟩
    · rw [Function.comp, rowToRecord_of_readable (h.readable_of_mem hmem)]
      exact hx

theorem isSome_of_truthyText {o : Option String} {s : String} (h : truthyText o = some s) : o.isSome = true := by
  obtain ⟨rfl, -⟩ := Option.filter_eq_some_iff.1 h
  rfl

theorem kitSettled_of_pending {x : PendingKitFinalization} (h : toPendingKitFinalization row = some x) :
    kitSettled false row = true := by
  unfold toPendingKitFinalization at h
  split at h
  · cases h
  · rename_i hopen
    split at h
    · rename_i hkit hsession hfinished
      simp only [Bool.or_eq_true, Bool.not_eq_true', not_or, Bool.not_eq_false, Bool.not_eq_true] at hopen
      simp [kitSettled, hkit, isSome_of_truthyText hsession, hopen]
    · cases h

theorem kitSettled_of_acknowledged {x : AcknowledgedKitAttemptRelease}
    (h : toAcknowledgedKitAttemptRelease row = some x) : kitSettled true row = true := by
  unfold toAcknowledgedKitAttemptRelease at h
  split at h
  · cases h
  · rename_i hopen
    split at h
    · rename_i hkit hsession
      simp only [Bool.or_eq_true, Bool.not_eq_true', not_or, Bool.not_eq_false] at hopen
      simp [kitSettled, hkit, isSome_of_truthyText hsession, hopen]
    · cases h

theorem mem_getPendingKitFinalizations_iff (h : Refines db mem) (localeCompare : String → String → Ordering)
    (x : PendingKitFinalization) :
    x ∈ getPendingKitFinalizations db ↔ x ∈ mem.getPendingKitFinalizations localeCompare := by
  unfold getPendingKitFinalizations MemoryJobStore.getPendingKitFinalizations
  rw [List.mem_insertionSort]
  exact mem_projection_iff h (fun _ _ hx => kitSettled_of_pending hx) x

theorem mem_getAcknowledgedKitAttemptReleases_iff (h : Refines db mem) (localeCompare : String → String → Ordering)
    (x : AcknowledgedKitAttemptRelease) :
    x ∈ getAcknowledgedKitAttemptReleases db ↔ x ∈ mem.getAcknowledgedKitAttemptReleases localeCompare := by
  unfold getAcknowledgedKitAttemptReleases MemoryJobStore.getAcknowledgedKitAttemptReleases
  rw [List.mem_insertionSort]
  exact mem_projection_iff h (fun _ _ hx => kitSettled_of_acknowledged hx) x

theorem mem_getPinnedKitReleaseIds_iff (h : Refines db mem) (x : String) :
    x ∈ getPinnedKitReleaseIds db ↔ x ∈ mem.getPinnedKitReleaseIds := by
  unfold getPinnedKitReleaseIds MemoryJobStore.getPinnedKitReleaseIds
  rw [List.mem_insertionSort, List.mem_insertionSort, List.mem_dedup, List.mem_dedup, List.mem_filterMap,
    List.mem_filterMap]
  have hrow : ∀ row ∈ db.jobs.rows, (row.kitExecution.filter isKitExecutionRef) = row.kitExecution := by
    intro row hrow
    exact congrArg JobRecord.kitExecution (rowToRecord_of_readable (h.readable_of_mem hrow))
  constructor
  · rintro ⟨row, hsel, hx⟩
    obtain ⟨hmem, hq⟩ := List.mem_filter.1 hsel
    rw [hrow row hmem] at hx
    refine ⟨row, h.rows.perm.mem_iff.2 hmem, ?_⟩
    rw [isOpen_eq, if_pos, hx]
    cases ho : row.status.isOpen <;> simp_all
  · rintro ⟨row, hvalue, hx⟩
    have hmem := h.rows.perm.mem_iff.1 hvalue
    rw [isOpen_eq] at hx
    split at hx
    · rename_i hp
      refine ⟨row, List.mem_filter.2 ⟨hmem, ?_⟩, by rw [hrow row hmem, hx]⟩
      obtain ⟨kit, hk, -⟩ := Option.map_eq_some_iff.1 hx
      cases ho : row.status.isOpen <;> simp_all
    · cases hx

/-- The reads of `findByRequestKey` are compared at one clock, before the year 10000, with a window of whole
milliseconds that begins within the range of a date. -/
structure WholeWindow (cfg : Config) (now : Clock) : Prop where
  clock : now.db = now.date
  window : ∃ w : ℤ, cfg.dedupWindowMs = w ∧ |now.date - w| ≤ maxTime ∧ now.date - w < year10000

theorem parse_startedAt {t : ℤ} (ht : Narrow t) : cfg.dateParse.parse (isoText t) = some t := by
  have habs : |t| ≤ maxTime := by
    obtain ⟨hlo, hhi⟩ := ht
    simp only [yearZero, year10000] at hlo hhi
    rw [abs_le, maxTime]
    omega
  exact cfg.dateParse.parse_toISOString t (isoText t) (if_pos habs)

/-- The window, as the two stores compare it: texts, or instants. -/
theorem reusable_eq {w : ℤ} {requestKey : String} (hclock : now.db = now.date) (hw : cfg.dedupWindowMs = w)
    (hcut : now.date - w < year10000) (hrow : Readable row) :
    MemoryJobStore.reusable cfg now requestKey row = reusable now requestKey (isoText (now.date - w)) row := by
  obtain ⟨t, ht, hstarted⟩ := hrow.started
  have hwindow : (!(cfg.dateParse.parse row.startedAt).any fun (started : ℤ) =>
      decide ((started : ℚ) < now.date - cfg.dedupWindowMs)) = decide (row.startedAt ≥ isoText (now.date - w)) := by
    rw [hstarted, parse_startedAt ht, Option.any_some, hw, ← decide_not, decide_eq_decide, not_lt]
    have hcast : ((now.date : ℚ) - (w : ℚ) ≤ (t : ℚ)) ↔ (now.date : ℤ) - w ≤ t := by exact_mod_cast Iff.rfl
    rw [hcast]
    by_cases hzero : yearZero ≤ (now.date : ℤ) - w
    · rw [ge_iff_le, ← not_lt, ← not_lt, isoText_lt_iff ht ⟨hzero, hcut⟩]
    · have hlt : isoText (now.date - w) < isoText t := isoText_signed_lt (fun hc => hzero hc.1) ht
      exact iff_of_true (by have := ht.1; omega) hlt.le
  unfold MemoryJobStore.reusable reusable
  rw [hwindow, hclock]
  ac_rfl

theorem startedAfter_iff {a b : JobRecord} (ha : Readable a) (hb : Readable b) :
    MemoryJobStore.startedAfter cfg a b = true ↔ b.startedAt < a.startedAt := by
  obtain ⟨t, ht, hat⟩ := ha.started
  obtain ⟨u, hu, hbu⟩ := hb.started
  unfold MemoryJobStore.startedAfter
  rw [hat, hbu, parse_startedAt ht, parse_startedAt hu, Option.any_some, Option.any_some, decide_eq_true_iff,
    isoText_lt_iff hu ht]

theorem findByRequestKey_refines (h : Refines db mem) (hwindow : WholeWindow cfg now)
    (hdistinct : (db.jobs.rows.map JobRecord.startedAt).Nodup) (requestKey : String) :
    MemoryJobStore.findByRequestKey cfg now mem requestKey = findByRequestKey cfg now db requestKey := by
  obtain ⟨hclock, w, hw, habs, hcut⟩ := hwindow
  have hiso : dateIso (now.date - cfg.dedupWindowMs) = .ok (isoText (now.date - w)) := by
    have hq : (now.date : ℚ) - cfg.dedupWindowMs = ((now.date - w : ℤ) : ℚ) := by
      rw [hw]
      push_cast
      rfl
    unfold dateIso
    rw [hq, trunc_intCast, if_pos (by exact_mod_cast habs)]
  have hfilter : (mem.rows.values.filter (MemoryJobStore.reusable cfg now requestKey)).Perm
      (db.jobs.select (reusable now requestKey (isoText (now.date - w)))) := by
    have hsame : mem.rows.values.filter (MemoryJobStore.reusable cfg now requestKey) =
        mem.rows.values.filter (reusable now requestKey (isoText (now.date - w))) :=
      List.filter_congr fun row hrow =>
        reusable_eq hclock hw hcut (h.readable_of_mem (h.rows.perm.mem_iff.1 hrow))
    rw [hsame]
    exact h.rows.perm.filter _
  have hread : ∀ row ∈ mem.rows.values.filter (MemoryJobStore.reusable cfg now requestKey), row ∈ db.jobs.rows :=
    fun row hrow => h.rows.perm.mem_iff.1 (List.mem_of_mem_filter hrow)
  have hlatest : latest (MemoryJobStore.startedAfter cfg)
      (mem.rows.values.filter (MemoryJobStore.reusable cfg now requestKey)) =
      latestStarted (db.jobs.select (reusable now requestKey (isoText (now.date - w)))) := by
    refine latest_perm JobRecord.startedAt hfilter (fun x hx y hy => ?_) (fun x _ y _ => by simp)
      fun x hx y hy he => ?_
    · exact startedAfter_iff (h.readable_of_mem (hread x hx)) (h.readable_of_mem (hread y hy))
    · exact List.inj_on_of_nodup_map hdistinct (hread x hx) (hread y hy) he
  unfold MemoryJobStore.findByRequestKey findByRequestKey
  rw [hiso, hlatest]
  dsimp only
  cases hbest : latestStarted (db.jobs.select (reusable now requestKey (isoText (now.date - w)))) with
  | none => rfl
  | some row =>
    have hmem : row ∈ db.jobs.rows := by
      have hle := latest_mem hbest
      exact (List.mem_filter.1 hle).1
    have hr := h.readable_of_mem hmem
    rw [Option.map_some, rowToRecord_of_readable hr, MemoryJobStore.cloneJobRecord?, cloneJobRecord_of_readable hr]
    rfl

/-- The reads of the two stores give the same records, or the same sets. -/
structure SameReads (db : Db) (mem : MemoryJobStore) : Prop where
  getById : ∀ id, MemoryJobStore.getById mem id = .ok (getById db id)
  findByRequestKey : ∀ cfg now requestKey, WholeWindow cfg now → (db.jobs.rows.map JobRecord.startedAt).Nodup →
    MemoryJobStore.findByRequestKey cfg now mem requestKey = findByRequestKey cfg now db requestKey
  getPendingKitFinalizations : ∀ localeCompare x,
    x ∈ getPendingKitFinalizations db ↔ x ∈ mem.getPendingKitFinalizations localeCompare
  getAcknowledgedKitAttemptReleases : ∀ localeCompare x,
    x ∈ getAcknowledgedKitAttemptReleases db ↔ x ∈ mem.getAcknowledgedKitAttemptReleases localeCompare
  getPinnedKitReleaseIds : ∀ x, x ∈ getPinnedKitReleaseIds db ↔ x ∈ mem.getPinnedKitReleaseIds

theorem Refines.sameReads (h : Refines db mem) : SameReads db mem :=
  ⟨getById_refines h, fun _ _ requestKey hwindow hdistinct => findByRequestKey_refines h hwindow hdistinct requestKey,
    mem_getPendingKitFinalizations_iff h, mem_getAcknowledgedKitAttemptReleases_iff h, mem_getPinnedKitReleaseIds_iff h⟩

/-! ## Runs -/

/-- A call of the SQLite store, among those the in-memory store has. -/
def sqliteStep (db : Db) (call : MemoryJobStore.MemoryCall) : Db × Except String Ret := step db call.1

/-- The id an admission is for. -/
def admittedId (call : MemoryJobStore.MemoryCall) : Option String :=
  match call.1.op with
  | .recordStart input => some input.id
  | _ => none

/-- A call that does not admit an id leaves it without a row. -/
theorem get_none_step {call : MemoryJobStore.MemoryCall} {id : String} (hnone : db.jobs.get id = none)
    (hne : admittedId call ≠ some id) : (sqliteStep db call).1.jobs.get id = none := by
  have hm := step_move db call.1 id
  rw [hnone] at hm
  unfold sqliteStep
  generalize (step db call.1).1.jobs.get id = o at hm ⊢
  cases hm with
  | same => rfl
  | admitted input hop hid =>
    have hadmitted : admittedId call = some id := by
      unfold admittedId
      rw [hop, ← hid]
    exact absurd hadmitted hne

/-- Two stores that hold the same answer every run the same, and hold the same in every state of it. -/
theorem run_refines {calls : List MemoryJobStore.MemoryCall} (h : Refines db mem)
    (hfresh : ∀ id ∈ calls.filterMap admittedId, db.jobs.get id = none) (hids : (calls.filterMap admittedId).Nodup)
    (hc : Run.Along sqliteStep (fun db call => Comparable db call.1) db calls) :
    (Run.outputs sqliteStep db calls).map answer = (Run.outputs MemoryJobStore.step mem calls).map answer ∧
      ∀ as bs, calls = as ++ bs → Refines (Run.final sqliteStep db as) (Run.final MemoryJobStore.step mem as) := by
  induction calls generalizing db mem with
  | nil =>
    refine ⟨rfl, fun as bs he => ?_⟩
    obtain ⟨rfl, rfl⟩ := List.append_eq_nil_iff.1 he.symm
    exact h
  | cons call calls ih =>
    have hnew : ∀ input, call.1.op = .recordStart input → db.jobs.get input.id = none := by
      intro input hop
      have hadmitted : admittedId call = some input.id := by
        unfold admittedId
        rw [hop]
      refine hfresh input.id ?_
      rw [List.filterMap_cons_some hadmitted]
      exact List.mem_cons_self
    obtain ⟨hanswer, hnext⟩ := step_refines h hc.1 hnew
    have hrest : (calls.filterMap admittedId).Nodup ∧
        ∀ id ∈ calls.filterMap admittedId, admittedId call ≠ some id ∧ db.jobs.get id = none := by
      cases ha : admittedId call with
      | none =>
        rw [List.filterMap_cons_none ha] at hids hfresh
        exact ⟨hids, fun id hid => ⟨nofun, hfresh id hid⟩⟩
      | some id₀ =>
        rw [List.filterMap_cons_some ha] at hids hfresh
        obtain ⟨hnot, hids⟩ := List.nodup_cons.1 hids
        refine ⟨hids, fun id hid => ⟨?_, hfresh id (List.mem_cons_of_mem id₀ hid)⟩⟩
        rintro he
        obtain rfl := Option.some.inj he
        exact hnot hid
    obtain ⟨houts, hstates⟩ := ih hnext
      (fun id hid => get_none_step (hrest.2 id hid).2 (hrest.2 id hid).1) hrest.1 hc.2
    refine ⟨?_, fun as bs he => ?_⟩
    · rw [Run.outputs, Run.outputs, List.map_cons, List.map_cons]
      exact congrArg₂ List.cons hanswer houts
    · cases as with
      | nil => exact h
      | cons a as =>
        obtain ⟨rfl, hrest⟩ := List.cons.inj he
        exact hstates as bs hrest

/-- **The in-memory store refines the SQLite store.**  In every run from the empty stores that admits each id once and
makes comparable calls only, the two stores answer every call the same, and after every call all reads give the same
records, or the same sets. -/
theorem memory_refines (calls : List MemoryJobStore.MemoryCall) (hids : (calls.filterMap admittedId).Nodup)
    (hc : Run.Along sqliteStep (fun db call => Comparable db call.1) Db.empty calls) :
    (Run.outputs sqliteStep Db.empty calls).map answer =
        (Run.outputs MemoryJobStore.step MemoryJobStore.empty calls).map answer ∧
      ∀ as bs, calls = as ++ bs →
        SameReads (Run.final sqliteStep Db.empty as) (Run.final MemoryJobStore.step MemoryJobStore.empty as) := by
  have hempty : Refines Db.empty MemoryJobStore.empty := by
    refine ⟨fun _ => rfl, fun _ => rfl, ?_, ?_⟩
    · intro id row h
      cases h
    · intro id f h
      cases h
  obtain ⟨houts, hstates⟩ := run_refines hempty (fun _ _ => rfl) hids hc
  exact ⟨houts, fun as bs he => (hstates as bs he).sameReads⟩

/-- A job that is admitted and completed is the same record in both stores. -/
theorem memory_refines_completed :
    let cfg : Config := ⟨some 86400000, 3600000, 30000, isoDateParse⟩
    let now : Clock := ⟨0, 0, by decide⟩
    let start : MemoryJobStore.MemoryCall := ⟨⟨cfg, now, .recordStart (.plain "job" (isoText (0 : ℕ)))⟩, rfl⟩
    let complete : MemoryJobStore.MemoryCall :=
      ⟨⟨cfg, now, .recordComplete (.plain "job" .completed (isoText (0 : ℕ)))⟩, rfl⟩
    MemoryJobStore.getById (Run.final MemoryJobStore.step MemoryJobStore.empty [start, complete]) "job" =
        .ok (getById (Run.final sqliteStep Db.empty [start, complete]) "job") ∧
      (getById (Run.final sqliteStep Db.empty [start, complete]) "job").isSome = true := by
  intro cfg now start complete
  have hread : ReadableStart (.plain "job" (isoText (0 : ℕ))) := ⟨rfl, fun _ => rfl, (0 : ℕ), by decide, rfl⟩
  have hstart : Comparable Db.empty start.1 := ⟨rfl, rfl, hread⟩
  have hcomplete : Comparable (sqliteStep Db.empty start).1 complete.1 := by
    refine ⟨rfl, ⟨isoText 86400000, by decide +kernel⟩, fun _ row hrow hs => ?_⟩
    have hopen : (sqliteStep Db.empty start).1.jobs.get "job" =
        some (startRow cfg now (.plain "job" (isoText (0 : ℕ)))) := by
      decide +kernel
    obtain rfl := Option.some.inj (hopen.symm.trans hrow)
    cases hs
  have h := memory_refines [start, complete] (by decide) ⟨hstart, hcomplete, trivial⟩
  exact ⟨(h.2 [start, complete] [] rfl).getById "job", by decide +kernel⟩

/-- What the comparison leaves out, one run for each.  By design the in-memory store has no instance rows to refresh.
The other differences: a read of the SQLite store trims the session id and checks the replay context; its reservation
checks the reference first; its completion overwrites an HTTP status that is left out, and throws before it looks for
the row; its window is truncated to whole milliseconds, must begin within the range of a date, and is compared as a
text, which the year 10000 precedes. -/
theorem memory_differs :
    let cfg : Config := ⟨none, 0, 30000, isoDateParse⟩
    let now : Clock := ⟨0, 0, by decide⟩
    let started := "1970-01-01T00:00:00.000Z"
    let input : JobStartInput := .plain "job" started
    let fence (cli releaseId : String) : KitAttemptFenceInput :=
      ⟨"attempt", cli, ⟨releaseId, "stamp", none, none, "context"⟩, "session", none, started⟩
    let heartbeat : MemoryJobStore.MemoryCall := ⟨⟨cfg, now, .heartbeat "instance"⟩, rfl⟩
    let start (input : JobStartInput) : MemoryJobStore.MemoryCall := ⟨⟨cfg, now, .recordStart input⟩, rfl⟩
    let launch : MemoryJobStore.MemoryCall := ⟨⟨cfg, now, .markRunning "job" none⟩, rfl⟩
    let reserve (input : KitAttemptFenceInput) : MemoryJobStore.MemoryCall :=
      ⟨⟨cfg, now, .fenceUnadmittedKitAttempt input⟩, rfl⟩
    let complete (cfg : Config) (status : TerminalJobStoreStatus) (httpStatus : Option (Option ℤ)) :
        MemoryJobStore.MemoryCall :=
      ⟨⟨cfg, now, .recordComplete { JobCompletionInput.plain "job" status started with httpStatus := httpStatus }⟩, rfl⟩
    let session := [start { input with kitSessionId := some " session " }]
    let replay := [start { input with
      replayContext := some ⟨[⟨"AGENTS.md", none, none, 0, none, false, .unreadable⟩], none⟩ }]
    let reserved := [reserve (fence "claude" "release"), reserve (fence "codex" "")]
    let orphan := [start input, complete cfg .orphaned (some (some 500)), complete cfg .completed none]
    let unwritable := complete ⟨some (10 ^ 17), 0, 30000, isoDateParse⟩ .completed none
    let find (cfg : Config) (now : Clock) : Except String (Option JobRecord) × Except String (Option JobRecord) :=
      (findByRequestKey cfg now (Run.final sqliteStep Db.empty [start input, launch]) "job",
        MemoryJobStore.findByRequestKey cfg now
          (Run.final MemoryJobStore.step MemoryJobStore.empty [start input, launch]) "job")
    let read (calls : List MemoryJobStore.MemoryCall) : Option JobRecord × Except String (Option JobRecord) :=
      (getById (Run.final sqliteStep Db.empty calls) "job",
        MemoryJobStore.getById (Run.final MemoryJobStore.step MemoryJobStore.empty calls) "job")
    (Run.outputs sqliteStep Db.empty [heartbeat] = [.ok (.heartbeat ⟨false, 0⟩)] ∧
        Run.outputs MemoryJobStore.step MemoryJobStore.empty [heartbeat] = [.ok (.heartbeat ⟨true, 0⟩)]) ∧
      (read session).2 ≠ .ok (read session).1 ∧
      (read replay).2 ≠ .ok (read replay).1 ∧
      (Run.outputs sqliteStep Db.empty reserved).map answer = [some (.fence .reserved), none] ∧
      (Run.outputs MemoryJobStore.step MemoryJobStore.empty reserved).map answer =
        [some (.fence .reserved), some (.fence .conflict)] ∧
      (read orphan).2 ≠ .ok (read orphan).1 ∧
      (Run.outputs sqliteStep Db.empty [unwritable]).map answer = [none] ∧
      (Run.outputs MemoryJobStore.step MemoryJobStore.empty [unwritable]).map answer = [some (.bool false)] ∧
      (find ⟨none, 1 / 2, 30000, isoDateParse⟩ ⟨1, 1, by decide⟩).2 ≠
        (find ⟨none, 1 / 2, 30000, isoDateParse⟩ ⟨1, 1, by decide⟩).1 ∧
      (find ⟨none, 10 ^ 17, 30000, isoDateParse⟩ now).2 ≠ (find ⟨none, 10 ^ 17, 30000, isoDateParse⟩ now).1 ∧
      (find cfg ⟨253402300800000, 253402300800000, by decide⟩).2 ≠
        (find cfg ⟨253402300800000, 253402300800000, by decide⟩).1 := by
  refine ⟨⟨by decide +kernel, by decide +kernel⟩, by decide +kernel, by decide +kernel, by decide +kernel,
    by decide +kernel, by decide +kernel, by decide +kernel, by decide +kernel, by decide +kernel, by decide +kernel,
    by decide +kernel⟩

end LlmGateway.JobStore
