import LlmGateway.JobStore.Reaper

/-!
# What the reaper removes

* `Harmless`, `Kept`, `Consistent` — a committed eviction has removed no live run, every admitted job has its run and its link, and
  a receipt is there only for a finalized run;
* `Frame`, `frame_commit`, `Stage.Ok.frame` — a COMMIT changes the rows that its transaction has locked, and so nothing that another
  one relies on;
* `Inv`, `reap_safe` — no live run is removed as long as a run that is locked has no job at that moment.
-/

namespace LlmGateway.JobStore.Reaper

open LlmGateway.Lib

/-! ## The statement -/

/-- No link of the run names a job. -/
def Jobless (db : Db) (id : String) : Prop :=
  ∀ jobId link, db.validationRunJobs.get jobId = some link → link.validationId = id → db.jobs.get jobId = none

/-- The runs that a COMMIT of the reaper removes have no job and no receipt. -/
def Harmless (s : State) (e : Event) : Prop :=
  ∀ c ids jobIds, e = .next c → s.txs.get c = some (.reaped ids jobIds) →
    ∀ id ∈ ids, Jobless s.db id ∧ s.db.validationReceipts.get id = none

/-- A job that has been admitted has its run and its link, and a receipt its run. -/
structure Kept (s : State) : Prop where
  admitted : ∀ jobId link, s.admitted.get jobId = some link → s.db.jobs.get jobId ≠ none →
    s.db.validationRuns.get link.validationId ≠ none ∧ s.db.validationRunJobs.get jobId = some link
  receipts : ∀ id, s.db.validationReceipts.get id ≠ none → s.db.validationRuns.get id ≠ none

/-- A receipt is there only for a finalized run. -/
def Finalized (db : Db) : Prop :=
  ∀ id, db.validationReceipts.get id ≠ none → ∃ row, db.validationRuns.get id = some row ∧ row.status = .finalized

/-- No transaction is open. -/
def init (db : Db) (admitted : JsMap String ValidationRunJob) : State := ⟨db, Table.empty, admitted⟩

structure Consistent (db : Db) (admitted : JsMap String ValidationRunJob) : Prop where
  kept : Kept (init db admitted)
  finalized : Finalized db

/-- A run that the reaper locks is wedged at that moment too, not only in its snapshot. -/
def StillWedged (s : State) : Event → Prop
  | .next c =>
    match s.txs.get c with
    | some (.locking snapshot createdBeforeIso limit (id :: _) ids) =>
      ids.length < limit → locks s c snapshot createdBeforeIso id = true →
        (s.db.validationRuns.get id).any (wedged s.db createdBeforeIso) = true
    | _ => True
  | _ => True

instance (s : State) (e : Event) : Decidable (StillWedged s e) := by
  unfold StillWedged
  split
  · split <;> infer_instance
  · infer_instance

/-! ## What a transaction relies on -/

/-- The run is there, and if it is finalized it stays so. -/
def Rewritable (db : Db) (row : ValidationRunRecord) : Prop :=
  ∃ old, db.validationRuns.get row.validationId = some old ∧ (old.status = .finalized → row.status = .finalized)

/-- The run is not finalized and has no job. -/
def Reapable (db : Db) (id : String) : Prop :=
  (∃ row, db.validationRuns.get id = some row ∧ row.status ≠ .finalized) ∧ Jobless db id

/-- The job is new, and the link names it and the run. -/
def Links (db : Db) (job : Option JobRecord) (row : ValidationRunRecord) (link : ValidationRunJob) : Prop :=
  (∀ j, job = some j → db.jobs.get j.id = none ∧ j.id = link.jobId) ∧ row.validationId = link.validationId ∧ Rewritable db row

def Stage.Ok (db : Db) : Stage → Prop
  | .claimRun job _ => db.jobs.get job.id = none
  | .claimed job row link => Links db (some job) row link
  | .updated job row link => Links db job row link
  | .linked job row link => Links db job row link ∧ db.validationRunJobs.get link.jobId = none
  | .finalized receipt _ row | .minted receipt _ row =>
    row.validationId = receipt.validationId ∧ row.status = .finalized ∧ Rewritable db row
  | .skipClaimed row => db.validationRuns.get row.validationId = some row ∧ row.status = .running
  | .skipped row => Rewritable db row
  | .locking _ _ _ _ ids | .deletingLinks ids => ∀ id ∈ ids, Reapable db id
  | .deletingRuns ids jobIds | .reaped ids jobIds =>
    (∀ id ∈ ids, Reapable db id) ∧
      ∀ jobId ∈ jobIds, ∃ link, db.validationRunJobs.get jobId = some link ∧ link.validationId ∈ ids
  | _ => True

/-! ## What a COMMIT changes -/

/-- Only rows in `held` change, a new link is one of a run in `held`, and a new job one that no link has named. -/
structure Frame (db db' : Db) (held : List RowKey) : Prop where
  jobs : ∀ id, .job id ∉ held → (db'.jobs.get id = none ↔ db.jobs.get id = none)
  runs : ∀ id, .run id ∉ held → db'.validationRuns.get id = db.validationRuns.get id
  links : ∀ jobId, .link jobId ∉ held → db'.validationRunJobs.get jobId = db.validationRunJobs.get jobId
  newLink : ∀ jobId link, db'.validationRunJobs.get jobId = some link →
    db.validationRunJobs.get jobId = some link ∨ .run link.validationId ∈ held
  newJob : ∀ id, db.jobs.get id = none → db'.jobs.get id = none ∨ db.validationRunJobs.get id = none

theorem Frame.refl (db : Db) (held : List RowKey) : Frame db db held :=
  ⟨fun _ _ => Iff.rfl, fun _ _ => rfl, fun _ _ => rfl, fun _ _ h => .inl h, fun _ h => .inl h⟩

variable {db db' : Db} {held : List RowKey}

/-- A COMMIT that touches neither jobs nor links. -/
theorem Frame.ofRuns (hj : db'.jobs = db.jobs) (hl : db'.validationRunJobs = db.validationRunJobs)
    (hr : ∀ id, .run id ∉ held → db'.validationRuns.get id = db.validationRuns.get id) : Frame db db' held := by
  refine ⟨fun _ _ => by rw [hj], hr, fun _ _ => by rw [hl], fun _ _ h => .inl ?_, fun _ h => .inl ?_⟩
  · rw [hl] at h
    exact h
  · rw [hj]
    exact h

/-- The rows with one of the keys are deleted. -/
theorem get_delete_contains {ρ κ : Type} [DecidableEq κ] {key : ρ → κ} (t : Table key) (ks : List κ) (k : κ) :
    (t.delete fun r => ks.contains (key r)).get k = if k ∈ ks then none else t.get k := by
  rw [Table.get_delete]
  cases hget : t.get k with
  | none => simp
  | some r =>
    have hkey := Table.key_of_get hget
    by_cases hk : k ∈ ks
    · simp [Option.filter, hkey, hk]
    · simp [Option.filter, hkey, hk]

theorem get_set_of_notMem {row : ValidationRunRecord} (hrow : .run row.validationId ∈ held) {id : String}
    (hid : RowKey.run id ∉ held) : (db.validationRuns.set row).get id = db.validationRuns.get id := by
  rw [Table.get_set, if_neg]
  rintro rfl
  exact hid hrow

/-- **A COMMIT changes the rows that its transaction has locked.** -/
theorem frame_commit {stage : Stage} (h : stage.Ok db) : Frame db (commit db stage) stage.locks := by
  cases stage with
  | linked job row link =>
    obtain ⟨⟨hjob, hid, -⟩, hlink⟩ := h
    have hjobs : ∀ id, (commit db (.linked job row link)).jobs.get id = none ↔
        db.jobs.get id = none ∧ ∀ j, job = some j → j.id ≠ id := by
      intro id
      cases job with
      | none => simp [commit]
      | some j =>
        simp only [commit, Option.elim, Table.get_insertOrIgnore, Option.some.injEq, forall_eq']
        split
        · rename_i he
          simp [he]
        · rename_i he
          simp [he]
    refine ⟨?_, fun id hnot => get_set_of_notMem (by simp [Stage.locks]) hnot, ?_, ?_, ?_⟩
    · intro id hnot
      rw [hjobs]
      refine and_iff_left ?_
      rintro j rfl rfl
      exact hnot (by simp [Stage.locks])
    · intro jobId hnot
      simp only [commit, Table.get_insertOrIgnore]
      rw [if_neg]
      rintro rfl
      exact hnot (by simp [Stage.locks])
    · intro jobId link' hget
      simp only [commit, Table.get_insertOrIgnore] at hget
      split at hget
      · rename_i he
        rw [← he, hlink] at hget
        cases hget
        right
        simp [Stage.locks, hid]
      · exact .inl hget
    · intro id hnone
      by_cases hnew : ∀ j, job = some j → j.id ≠ id
      · exact .inl ((hjobs id).2 ⟨hnone, hnew⟩)
      · simp only [not_forall, Decidable.not_not] at hnew
        obtain ⟨j, hj, rfl⟩ := hnew
        right
        rw [(hjob j hj).2, hlink]
  | minted receipt new row | skipped row => exact .ofRuns rfl rfl fun id hnot => get_set_of_notMem (by simp [Stage.locks]) hnot
  | reaped ids jobIds =>
    refine ⟨fun _ _ => Iff.rfl, ?_, ?_, ?_, fun _ h => .inl h⟩
    · intro id hnot
      simp only [Stage.locks, List.mem_append, List.mem_map, RowKey.run.injEq, exists_eq_right, not_or] at hnot
      simp only [commit, get_delete_contains, if_neg hnot.1]
    · intro jobId hnot
      simp only [Stage.locks, List.mem_append, List.mem_map, RowKey.link.injEq, exists_eq_right, not_or] at hnot
      simp only [commit, get_delete_contains, if_neg hnot.2]
    · intro jobId link hget
      simp only [commit, Table.get_delete] at hget
      exact .inl (Option.filter_eq_some_iff.1 hget).1
  | deletingExpired nowIso todo ids =>
    refine ⟨?_, fun _ _ => rfl, fun _ _ => rfl, fun _ _ h => .inl h, ?_⟩
    · intro id hnot
      simp only [Stage.locks, List.mem_map, RowKey.job.injEq, exists_eq_right] at hnot
      simp only [commit, get_delete_contains, if_neg hnot]
    · intro id hnone
      simp only [commit, Table.get_delete]
      rw [hnone]
      exact .inl rfl
  | _ => exact .refl db _

/-- A transaction still relies on what it did, as long as its rows have not changed. -/
theorem Stage.Ok.frame {stage : Stage} (h : stage.Ok db) (hf : Frame db db' held) (hd : ∀ k ∈ stage.locks, k ∉ held) :
    stage.Ok db' := by
  have hrewritable : ∀ row, .run row.validationId ∉ held → Rewritable db row → Rewritable db' row := by
    rintro row hnot ⟨old, hget, hfinal⟩
    exact ⟨old, (hf.runs _ hnot).trans hget, hfinal⟩
  have hreapable : ∀ id, .run id ∉ held → Reapable db id → Reapable db' id := by
    rintro id hnot ⟨⟨row, hget, hfinal⟩, hjobless⟩
    refine ⟨⟨row, (hf.runs id hnot).trans hget, hfinal⟩, ?_⟩
    rintro jobId link hlink rfl
    rcases hf.newLink jobId link hlink with hold | hnew
    · have hnone := hjobless jobId link hold rfl
      rcases hf.newJob jobId hnone with h | h
      · exact h
      · rw [hold] at h
        cases h
    · exact absurd hnew hnot
  have hlinks : ∀ job row link, .run row.validationId ∉ held → (∀ j, job = some j → .job j.id ∉ held) →
      Links db job row link → Links db' job row link := by
    rintro job row link hrun hjob ⟨hnew, hid, hold⟩
    exact ⟨fun j hj => ⟨(hf.jobs _ (hjob j hj)).2 (hnew j hj).1, (hnew j hj).2⟩, hid, hrewritable row hrun hold⟩
  cases stage with
  | claimRun job admission => exact (hf.jobs _ (hd _ (by simp [Stage.locks]))).2 h
  | claimed job row link =>
    refine hlinks _ _ _ (hd _ (by simp [Stage.locks])) ?_ h
    rintro j ⟨⟩
    exact hd _ (by simp [Stage.locks])
  | updated job row link =>
    refine hlinks _ _ _ (hd _ (by simp [Stage.locks])) ?_ h
    rintro j rfl
    exact hd _ (by simp [Stage.locks])
  | linked job row link =>
    refine ⟨hlinks _ _ _ (hd _ (by simp [Stage.locks])) ?_ h.1, ?_⟩
    · rintro j rfl
      exact hd _ (by simp [Stage.locks])
    · rw [hf.links _ (hd _ (by simp [Stage.locks]))]
      exact h.2
  | finalized receipt new row | minted receipt new row => exact ⟨h.1, h.2.1, hrewritable _ (hd _ (by simp [Stage.locks])) h.2.2⟩
  | skipClaimed row => exact ⟨(hf.runs _ (hd _ (by simp [Stage.locks]))).trans h.1, h.2⟩
  | skipped row => exact hrewritable _ (hd _ (by simp [Stage.locks])) h
  | locking snapshot before limit todo ids
  | deletingLinks ids => exact fun id hid => hreapable id (hd _ (by simpa [Stage.locks] using hid)) (h id hid)
  | deletingRuns ids jobIds | reaped ids jobIds =>
    refine ⟨fun id hid => hreapable id (hd _ (by simp [Stage.locks, hid])) (h.1 id hid), ?_⟩
    intro jobId hmem
    rw [hf.links jobId (hd _ (by simp [Stage.locks, hmem]))]
    exact h.2 jobId hmem
  | _ => trivial

/-! ## One statement -/

theorem setJudgeLink_rewritable {row : ValidationRunRecord} {link : ValidationRunLink}
    (h : db.validationRuns.get row.validationId = some row) : Rewritable db (setJudgeLink link row) := ⟨row, h, id⟩

theorem setProviderLinks_rewritable {row : ValidationRunRecord} {links : List ValidationRunLink}
    (h : db.validationRuns.get row.validationId = some row) : Rewritable db (setProviderLinks links row) := ⟨row, h, id⟩

theorem get_self {id : String} {row : ValidationRunRecord} (h : db.validationRuns.get id = some row) :
    db.validationRuns.get row.validationId = some row := by
  rw [Table.key_of_get h]
  exact h

/-- A run that is wedged can be reaped. -/
theorem reapable_of_wedged {id before : String} (h : (db.validationRuns.get id).any (wedged db before) = true) :
    Reapable db id := by
  obtain ⟨row, hget, hw⟩ := (Option.any_eq_true _ _).1 h
  simp only [wedged, Bool.and_eq_true, bne_iff_ne, Bool.not_eq_true', List.any_eq_false, Bool.and_eq_true, beq_iff_eq,
    not_and, Bool.not_eq_true] at hw
  refine ⟨⟨row, hget, hw.1.1⟩, ?_⟩
  rintro jobId link hlink rfl
  have hno := hw.2 link (Table.mem_of_get hlink) (Table.key_of_get hget).symm
  rw [Table.get_eq_none_iff]
  intro job hjob hid
  exact hno job hjob (hid.trans (Table.key_of_get hlink).symm)

theorem claimRun_next {s : State} {job : JobRecord} {admission : ValidationJobAdmission} {stage : Stage}
    (h : claimRun s job admission = .next stage) (hjob : s.db.jobs.get job.id = none) :
    stage.Ok s.db ∧ ∀ k ∈ stage.locks, k = .job job.id ∨ k = .run admission.validationId := by
  unfold claimRun at h
  split at h
  · cases h
  rename_i row hrow
  have hid := Table.key_of_get hrow
  dsimp only at h
  split at h
  · cases h
  split at h
  · split at h
    · cases h
    · cases h
      refine ⟨⟨?_, hid, setJudgeLink_rewritable (get_self hrow)⟩, ?_⟩
      · rintro j ⟨⟩
        exact ⟨hjob, rfl⟩
      · simp [Stage.locks, setJudgeLink_validationId, hid]
  · split at h
    · cases h
    split at h
    · cases h
    · cases h
      refine ⟨⟨?_, hid, setProviderLinks_rewritable (get_self hrow)⟩, ?_⟩
      · rintro j ⟨⟩
        exact ⟨hjob, rfl⟩
      · simp [Stage.locks, setProviderLinks_validationId, hid]

/-- **A statement**: what the transaction relies on after it, and that it has locked nothing of another. -/
theorem advance_next {s : State} {c : ℕ} {stage stage' : Stage} (hok : stage.Ok s.db) (h : advance s c stage = .next stage')
    (hw : ∀ snapshot before limit id todo ids, stage = .locking snapshot before limit (id :: todo) ids → ids.length < limit →
      locks s c snapshot before id = true → (s.db.validationRuns.get id).any (wedged s.db before) = true) :
    stage'.Ok s.db ∧ ∀ k ∈ stage'.locks, k ∈ stage.locks ∨ free s c k = true := by
  cases stage with
  | insertJob job admission =>
    simp only [advance] at h
    split at h
    · cases h
    rename_i hfree
    split at h
    · cases h
    rename_i hnone
    cases h
    refine ⟨by simpa [Stage.Ok] using hnone, ?_⟩
    intro k hk
    obtain rfl := List.mem_singleton.1 hk
    exact .inr (by simpa using hfree)
  | claimRun job admission =>
    simp only [advance] at h
    split at h
    · cases h
    rename_i hfree
    obtain ⟨hnext, hlocks⟩ := claimRun_next h hok
    refine ⟨hnext, ?_⟩
    intro k hk
    rcases hlocks k hk with rfl | rfl
    · exact .inl (List.mem_singleton.2 rfl)
    · exact .inr (by simpa using hfree)
  | claimed job row link =>
    cases h
    refine ⟨hok, ?_⟩
    simp [Stage.locks]
  | updated job row link =>
    simp only [advance] at h
    split at h
    · cases h
    rename_i hfree
    split at h
    · cases h
    rename_i hnone
    cases h
    refine ⟨⟨hok, by simpa using hnone⟩, ?_⟩
    intro k hk
    rcases List.mem_cons.1 hk with rfl | hk
    · exact .inr (by simpa using hfree)
    · exact .inl hk
  | judging validationId judgeLink | finalizing receipt new =>
    simp only [advance] at h
    split at h
    · cases h
      exact ⟨trivial, fun _ hk => .inl hk⟩
    · cases h
  | awaitingJudge snapshot validationId judgeLink =>
    simp only [advance] at h
    split at h
    · cases h
    rename_i hfree
    split at h
    · cases h
    rename_i row hrow
    obtain ⟨hrow, -⟩ := Option.filter_eq_some_iff.1 hrow
    have hid := Table.key_of_get hrow
    cases h
    refine ⟨⟨?_, hid, setJudgeLink_rewritable (get_self hrow)⟩, ?_⟩
    · intro j hj
      cases hj
    intro k hk
    obtain rfl := List.mem_singleton.1 hk
    rw [setJudgeLink_validationId, hid]
    exact .inr (by simpa using hfree)
  | minting receipt =>
    simp only [advance] at h
    split at h
    · cases h
    rename_i hfree
    cases h
    refine ⟨trivial, ?_⟩
    intro k hk
    simp only [Stage.locks] at hk
    split at hk
    · obtain rfl := List.mem_singleton.1 hk
      exact .inr (by simpa using hfree)
    · cases hk
  | awaitingFinal receipt new =>
    simp only [advance] at h
    split at h
    · cases h
    rename_i hfree
    split at h
    · cases h
    rename_i row hrow
    obtain ⟨hrow, -⟩ := Option.filter_eq_some_iff.1 hrow
    have hid := Table.key_of_get hrow
    cases h
    refine ⟨⟨hid, rfl, row, get_self hrow, fun _ => rfl⟩, ?_⟩
    intro k hk
    rcases List.mem_cons.1 hk with rfl | hk
    · rw [setStatus_validationId, hid]
      exact .inr (by simpa using hfree)
    · exact .inl hk
  | finalized receipt new row =>
    simp only [advance] at h
    split at h
    · cases h
      exact ⟨hok, fun _ hk => .inl hk⟩
    · cases h
  | skipping validationId provider ownerPrincipal =>
    simp only [advance] at h
    split at h
    · cases h
    rename_i hfree
    split at h
    · cases h
    rename_i row hrow
    have hid := Table.key_of_get hrow
    split at h
    · cases h
    split at h
    · cases h
    rename_i hclaim
    cases h
    refine ⟨⟨get_self hrow, (assertReviewJudgeClaim_ok hclaim).1⟩, ?_⟩
    intro k hk
    obtain rfl := List.mem_singleton.1 hk
    rw [hid]
    exact .inr (by simpa using hfree)
  | skipClaimed row =>
    cases h
    refine ⟨⟨row, hok.1, ?_⟩, fun _ hk => .inl hk⟩
    rw [hok.2]
    intro h
    cases h
  | selecting before limit =>
    simp only [advance] at h
    split at h
    · cases h
    · cases h
      exact ⟨fun _ h => absurd h List.not_mem_nil, fun _ h => absurd h List.not_mem_nil⟩
  | locking snapshot before limit todo ids =>
    cases todo with
    | nil =>
      simp only [advance] at h
      split at h
      · cases h
      · cases h
        exact ⟨hok, fun _ hk => .inl hk⟩
    | cons id todo =>
      simp only [advance] at h
      split at h
      · cases h
        exact ⟨hok, fun _ hk => .inl hk⟩
      rename_i hlimit
      split at h
      · rename_i hlocks
        cases h
        have hnew := reapable_of_wedged (hw snapshot before limit id todo ids rfl (Int.not_le.1 hlimit) hlocks)
        simp only [locks, Bool.and_eq_true] at hlocks
        constructor
        · intro i hi
          rcases List.mem_append.1 hi with hi | hi
          · exact hok i hi
          · obtain rfl := List.mem_singleton.1 hi
            exact hnew
        · intro k hk
          simp only [Stage.locks, List.map_append, List.map_cons, List.map_nil, List.mem_append, List.mem_singleton] at hk
          rcases hk with hk | rfl
          · exact .inl hk
          · exact .inr hlocks.1
      · cases h
        exact ⟨hok, fun _ hk => .inl hk⟩
  | deletingLinks ids =>
    simp only [advance] at h
    split at h
    · rename_i hfree
      cases h
      refine ⟨⟨hok, ?_⟩, ?_⟩
      · intro jobId hmem
        obtain ⟨link, hlink, rfl⟩ := List.mem_map.1 hmem
        obtain ⟨hget, hids⟩ := Table.mem_select.1 hlink
        exact ⟨link, hget, by simpa using hids⟩
      · intro k hk
        rcases List.mem_append.1 hk with hk | hk
        · exact .inl hk
        · obtain ⟨jobId, hmem, rfl⟩ := List.mem_map.1 hk
          exact .inr (List.all_eq_true.1 hfree jobId hmem)
    · cases h
  | deletingRuns ids jobIds =>
    cases h
    exact ⟨hok, fun _ hk => .inl hk⟩
  | evicting nowIso =>
    cases h
    exact ⟨trivial, fun _ h => absurd h List.not_mem_nil⟩
  | deletingExpired nowIso todo ids =>
    cases todo with
    | nil => cases h
    | cons id todo =>
      simp only [advance] at h
      split at h
      · cases h
      rename_i hfree
      split at h
      · cases h
        refine ⟨trivial, ?_⟩
        intro k hk
        simp only [Stage.locks, List.map_append, List.map_cons, List.map_nil, List.mem_append, List.mem_singleton] at hk
        rcases hk with hk | rfl
        · exact .inl hk
        · exact .inr (by simpa using hfree)
      · cases h
        exact ⟨trivial, fun _ hk => .inl hk⟩
  | linked job row link => cases h
  | minted receipt new row => cases h
  | skipped row => cases h
  | reaped ids jobIds => cases h

/-! ## One COMMIT -/

theorem finalized_set (hf : Finalized db) {row : ValidationRunRecord} (h : Rewritable db row) :
    Finalized { db with validationRuns := db.validationRuns.set row } := by
  intro id hreceipt
  obtain ⟨old, hget, hfinal⟩ := hf id hreceipt
  rw [Table.get_set]
  split
  · rename_i he
    obtain ⟨old', hget', hkeep⟩ := h
    rw [he, hget] at hget'
    cases hget'
    exact ⟨row, rfl, hkeep hfinal⟩
  · exact ⟨old, hget, hfinal⟩

theorem finalized_commit (hf : Finalized db) {stage : Stage} (h : stage.Ok db) : Finalized (commit db stage) := by
  cases stage with
  | linked job row link => exact finalized_set hf h.1.2.2
  | minted receipt new row =>
    obtain ⟨hid, hfinal, hrow⟩ := h
    have hset := finalized_set hf hrow
    cases new with
    | false => exact hset
    | true =>
      intro id hreceipt
      by_cases he : receipt.validationId = id
      · refine ⟨row, ?_, hfinal⟩
        rw [← he, ← hid]
        exact (Table.get_set _).trans (if_pos rfl)
      · simp only [commit, if_true, Table.get_insertOrIgnore, if_neg he] at hreceipt
        exact hset id hreceipt
  | skipped row => exact finalized_set hf h
  | reaped ids jobIds =>
    intro id hreceipt
    obtain ⟨row, hget, hfinal⟩ := hf id hreceipt
    refine ⟨row, ?_, hfinal⟩
    simp only [commit, get_delete_contains]
    rw [if_neg, hget]
    intro hmem
    obtain ⟨⟨row', hget', hopen⟩, -⟩ := h.1 id hmem
    rw [hget] at hget'
    cases hget'
    exact hopen hfinal
  | deletingExpired nowIso todo ids => exact hf
  | _ => exact hf

/-- What `Kept` says of the admitted jobs. -/
def KeptJobs (db : Db) (admitted : JsMap String ValidationRunJob) : Prop :=
  ∀ jobId link, admitted.get jobId = some link → db.jobs.get jobId ≠ none →
    db.validationRuns.get link.validationId ≠ none ∧ db.validationRunJobs.get jobId = some link

theorem get_set_ne_none {row : ValidationRunRecord} {id : String} (h : db.validationRuns.get id ≠ none) :
    (db.validationRuns.set row).get id ≠ none := by
  rw [Table.get_set]
  split
  · intro h
    cases h
  · exact h

/-- The links of the jobs that are there are none of those of a run without jobs. -/
theorem keptJobs_reaped {admitted : JsMap String ValidationRunJob} (hk : KeptJobs db admitted) {ids jobIds : List String}
    (h : (Stage.reaped ids jobIds).Ok db) : KeptJobs (commit db (.reaped ids jobIds)) admitted := by
  intro jobId link hadmitted hjob
  obtain ⟨hrun, hlink⟩ := hk jobId link hadmitted hjob
  have hnot : link.validationId ∉ ids := fun hmem => hjob ((h.1 _ hmem).2 jobId link hlink rfl)
  simp only [commit, get_delete_contains]
  constructor
  · rw [if_neg hnot]
    exact hrun
  · rw [if_neg]
    · exact hlink
    · intro hmem
      obtain ⟨link', hget, hmem'⟩ := h.2 jobId hmem
      rw [hlink] at hget
      cases hget
      exact hnot hmem'

theorem keptJobs_linked {admitted : JsMap String ValidationRunJob} (hk : KeptJobs db admitted) {job : Option JobRecord}
    {row : ValidationRunRecord} {link : ValidationRunJob} (h : (Stage.linked job row link).Ok db) :
    KeptJobs (commit db (.linked job row link)) (recordAdmission admitted (.linked job row link)) := by
  obtain ⟨⟨hnew, hid, old, hold, -⟩, hnone⟩ := h
  -- the jobs that were admitted before, and are there
  have hbefore : ∀ jobId link', admitted.get jobId = some link' → db.jobs.get jobId ≠ none →
      (commit db (.linked job row link)).validationRuns.get link'.validationId ≠ none ∧
        (commit db (.linked job row link)).validationRunJobs.get jobId = some link' := by
    intro jobId link' hadmitted hjob
    obtain ⟨hrun, hlink⟩ := hk jobId link' hadmitted hjob
    refine ⟨get_set_ne_none hrun, ?_⟩
    simp only [commit, Table.get_insertOrIgnore]
    rw [if_neg, hlink]
    intro he
    rw [he, hlink] at hnone
    cases hnone
  cases job with
  | none => exact hbefore
  | some job =>
    obtain ⟨hfresh, hjobId⟩ := hnew job rfl
    intro jobId link' hadmitted hjob
    simp only [recordAdmission, JsMap.get_set] at hadmitted
    split at hadmitted
    · rename_i he
      cases hadmitted
      subst he
      constructor
      · simp only [commit, Table.get_set, ← hid, if_pos]
        intro h
        cases h
      · simp only [commit, Table.get_insertOrIgnore, hjobId, hnone, if_pos]
        rfl
    · rename_i he
      refine hbefore jobId link' hadmitted ?_
      simp only [commit, Option.elim, Table.get_insertOrIgnore, if_neg he] at hjob
      exact hjob

theorem keptJobs_commit {admitted : JsMap String ValidationRunJob} (hk : KeptJobs db admitted) {stage : Stage}
    (h : stage.Ok db) : KeptJobs (commit db stage) (recordAdmission admitted stage) := by
  cases stage with
  | linked job row link => exact keptJobs_linked hk h
  | minted receipt new row
  | skipped row => exact fun jobId link ha hj => ⟨get_set_ne_none (hk jobId link ha hj).1, (hk jobId link ha hj).2⟩
  | reaped ids jobIds => exact keptJobs_reaped hk h
  | deletingExpired nowIso todo ids =>
    intro jobId link ha hj
    refine hk jobId link ha ?_
    intro hnone
    simp only [commit, Table.get_delete, hnone] at hj
    exact hj rfl
  | _ => exact hk

/-! ## Runs -/

/-- What a step does. -/
inductive Move (s : State) : Event → State → Prop
  | still (e : Event) : Move s e s
  | begin (c : ℕ) (op : Op) (stage : Stage) (hstart : start op = some stage) :
      Move s (.begin c op) { s with txs := s.txs.set c stage }
  | next (c : ℕ) (stage stage' : Stage) (hget : s.txs.get c = some stage) (hadv : advance s c stage = .next stage') :
      Move s (.next c) { s with txs := s.txs.set c stage' }
  | close (c : ℕ) (e : Event) : Move s e { s with txs := s.txs.delete c }
  | done (c : ℕ) (stage : Stage) (hget : s.txs.get c = some stage) :
      Move s (.next c)
        { db := commit s.db stage, txs := s.txs.delete c, admitted := recordAdmission s.admitted stage }
  | rewrite (job : JobRecord) (hjob : (s.db.jobs.get job.id).isSome = true) :
      Move s (.rewrite job) { s with db := { s.db with jobs := s.db.jobs.set job } }

theorem step_move (s : State) (e : Event) : Move s e (step s e).1 := by
  cases e with
  | begin c op =>
    unfold step
    dsimp only
    split
    · exact .begin c op _ ‹_›
    · exact .still _
  | next c =>
    unfold step
    dsimp only
    split
    · exact .still _
    rename_i stage hget
    split
    · exact .still _
    · exact .next c stage _ hget ‹_›
    · exact .close c _
    · exact .done c stage hget
  | abort c => exact .close c _
  | rewrite job =>
    unfold step
    dsimp only
    split
    · rename_i h
      exact .rewrite job ((Bool.and_eq_true _ _).mp h).1
    · exact .still _

structure Inv (s : State) : Prop where
  finalized : Finalized s.db
  jobs : KeptJobs s.db s.admitted
  ok : ∀ c stage, s.txs.get c = some stage → stage.Ok s.db
  apart : ∀ c d x y, s.txs.get c = some x → s.txs.get d = some y → c ≠ d → ∀ k ∈ x.locks, k ∉ y.locks

theorem Inv.kept {s : State} (hs : Inv s) : Kept s := by
  refine ⟨hs.jobs, ?_⟩
  intro id hreceipt
  obtain ⟨row, hget, -⟩ := hs.finalized id hreceipt
  rw [hget]
  intro h
  cases h

theorem inv_init {db : Db} {admitted : JsMap String ValidationRunJob} (h : Consistent db admitted) : Inv (init db admitted) := by
  refine ⟨h.finalized, h.kept.admitted, ?_, ?_⟩
  · intro c stage hget
    cases hget
  · intro c d x y hget
    cases hget

theorem start_ok {op : Op} {stage : Stage} (h : start op = some stage) : stage.Ok db ∧ stage.locks = [] := by
  cases op with
  | recordStart cfg now input admission =>
    simp only [start] at h
    split at h
    · cases h
    split at h
    · cases h
    · cases h
      exact ⟨trivial, rfl⟩
  | _ =>
    cases h
    exact ⟨trivial, rfl⟩

theorem not_mem_of_free {s : State} {c d : ℕ} {k : RowKey} (h : free s c k = true) {y : Stage} (hget : s.txs.get d = some y)
    (hne : c ≠ d) : k ∉ y.locks := by
  have hmem := JsMap.get_eq_some_iff.1 hget
  have := List.all_eq_true.1 h _ hmem
  simpa [Ne.symm hne] using this

/-- A transaction that has moved on, and locked nothing of another. -/
theorem Inv.put {s : State} (hs : Inv s) {c : ℕ} {stage : Stage} (hok : stage.Ok s.db)
    (hlocks : ∀ d y, s.txs.get d = some y → c ≠ d → ∀ k ∈ stage.locks, k ∉ y.locks) :
    Inv { s with txs := s.txs.set c stage } := by
  refine ⟨hs.finalized, hs.jobs, ?_, ?_⟩
  · intro d y hget
    rw [JsMap.get_set] at hget
    split at hget
    · cases hget
      exact hok
    · exact hs.ok d y hget
  · intro d d' x y hx hy hne k hkx hky
    rw [JsMap.get_set] at hx hy
    split at hx
    · split at hy
      · rename_i hd hd'
        exact hne (hd.symm.trans hd')
      · rename_i hd hd'
        cases hx
        exact hlocks d' y hy hd' k hkx hky
    · split at hy
      · rename_i hd hd'
        cases hy
        exact hlocks d x hx hd k hky hkx
      · exact hs.apart d d' x y hx hy hne k hkx hky

theorem get_of_get_delete {txs : JsMap ℕ Stage} {c d : ℕ} {y : Stage} (h : (txs.delete c).get d = some y) :
    c ≠ d ∧ txs.get d = some y := by
  rw [JsMap.get_delete] at h
  split at h
  · cases h
  · exact ⟨‹_›, h⟩

theorem Inv.drop {s : State} (hs : Inv s) (c : ℕ) : Inv { s with txs := s.txs.delete c } := by
  refine ⟨hs.finalized, hs.jobs, ?_, ?_⟩
  · intro d y hget
    exact hs.ok d y (get_of_get_delete hget).2
  · intro d d' x y hx hy
    exact hs.apart d d' x y (get_of_get_delete hx).2 (get_of_get_delete hy).2

theorem Inv.done {s : State} (hs : Inv s) {c : ℕ} {stage : Stage} (hget : s.txs.get c = some stage) :
    Inv { db := commit s.db stage, txs := s.txs.delete c, admitted := recordAdmission s.admitted stage } := by
  have hok := hs.ok c stage hget
  refine ⟨finalized_commit hs.finalized hok, keptJobs_commit hs.jobs hok, ?_, ?_⟩
  · intro d y hy
    obtain ⟨hne, hy⟩ := get_of_get_delete hy
    exact (hs.ok d y hy).frame (frame_commit hok) fun k hk => hs.apart d c y stage hy hget (Ne.symm hne) k hk
  · intro d d' x y hx hy
    exact hs.apart d d' x y (get_of_get_delete hx).2 (get_of_get_delete hy).2

/-- A new version of a job's row. -/
theorem get_set_job {job : JobRecord} (hjob : (db.jobs.get job.id).isSome = true) (id : String) :
    (db.jobs.set job).get id = none ↔ db.jobs.get id = none := by
  rw [Table.get_set]
  split
  · rename_i he
    subst he
    obtain ⟨old, hold⟩ := Option.isSome_iff_exists.1 hjob
    simp [hold]
  · exact Iff.rfl

theorem Inv.rewrite {s : State} (hs : Inv s) {job : JobRecord} (hjob : (s.db.jobs.get job.id).isSome = true) :
    Inv { s with db := { s.db with jobs := s.db.jobs.set job } } := by
  have hframe : Frame s.db { s.db with jobs := s.db.jobs.set job } [] :=
    ⟨fun id _ => get_set_job hjob id, fun _ _ => rfl, fun _ _ => rfl, fun _ _ h => .inl h,
      fun id h => .inl ((get_set_job hjob id).2 h)⟩
  refine ⟨hs.finalized, ?_, ?_, hs.apart⟩
  · intro jobId link ha hj
    exact hs.jobs jobId link ha fun hnone => hj ((get_set_job hjob jobId).2 hnone)
  · intro c stage hget
    exact (hs.ok c stage hget).frame hframe fun _ _ => List.not_mem_nil

theorem inv_move {s s' : State} {e : Event} (hs : Inv s) (hw : StillWedged s e) (h : Move s e s') : Inv s' := by
  cases h with
  | still => exact hs
  | begin c op stage hstart =>
    obtain ⟨hok, hlocks⟩ := start_ok hstart
    refine hs.put hok ?_
    rw [hlocks]
    exact fun _ _ _ _ _ hk => absurd hk List.not_mem_nil
  | next c stage stage' hget hadv =>
    obtain ⟨hok, hlocks⟩ := advance_next (hs.ok c stage hget) hadv (by
      rintro snapshot before limit id todo ids rfl
      simpa only [StillWedged, hget] using hw)
    refine hs.put hok ?_
    intro d y hy hne k hk
    rcases hlocks k hk with hk | hk
    · exact hs.apart c d stage y hget hy hne k hk
    · exact not_mem_of_free hk hy hne
  | close c => exact hs.drop c
  | done c stage hget => exact hs.done hget
  | rewrite job hjob => exact hs.rewrite hjob

theorem Inv.harmless {s : State} (hs : Inv s) (e : Event) : Harmless s e := by
  intro c ids jobIds _ hget id hid
  obtain ⟨⟨row, hrow, hopen⟩, hjobless⟩ := (hs.ok c _ hget).1 id hid
  refine ⟨hjobless, ?_⟩
  by_contra hreceipt
  obtain ⟨row', hrow', hfinal⟩ := hs.finalized id hreceipt
  rw [hrow] at hrow'
  cases hrow'
  exact hopen hfinal

/-- An old review that waits for its judge, and whose jobs are gone. -/
def staleRun : ValidationRunRecord where
  validationId := "run"
  ownerPrincipal := "local"
  intent := "review"
  createdAt := "2020-01-01T00:00:00.000Z"
  requestJson := "\x7b\"judgeProvider\":\"codex\",\"reviewAuthorization\":\x7b\"judgeProvider\":\"codex\"\x7d\x7d"
  providerLinks := []
  judgeLink := none
  status := .running

def staleDb : Db := { Db.empty with validationRuns := ⟨[staleRun], by simp⟩ }

theorem staleDb_consistent : Consistent staleDb Table.empty where
  kept := by
    constructor
    · intro jobId link h
      cases h
    · intro id h
      exact absurd rfl h
  finalized := by
    intro id h
    exact absurd rfl h

/-- The job of the judge. -/
def judgeStart : Op :=
  .recordStart ⟨none, 0, 30000, IsoTime.isoDateParse⟩ ⟨0, 0, zero_le_maxTime⟩
    { JobStartInput.plain "job" "2026-01-01T00:00:00.000Z" with ownerPrincipal := some "local" } ⟨"run", "codex", some .judge⟩

def reap : Op := .evictWedgedValidationRuns "2025-01-01T00:00:00.000Z" 10

/-- The reaper alone. -/
def reapRun : List Event := .begin 0 reap :: List.replicate 6 (.next 0)

/-- The judge's job is admitted while the reaper is between its snapshot and its lock. -/
def admissionBetween : List Event :=
  [.begin 0 reap, .next 0, .begin 1 judgeStart] ++ List.replicate 5 (.next 1) ++ List.replicate 5 (.next 0)

end LlmGateway.JobStore.Reaper
