import LlmGateway.JobStore.JobRows

/-!
# The lifecycle of a job row

* `StatusMove`, `step_statusMove` — the edges a step can move the status of an id along;
* `settled_step`, `settled_run` — a completed, failed or canceled row keeps its outcome until it is deleted;
* `lifecycle_finality` — the two together, of every run.
-/

namespace LlmGateway.JobStore

open LlmGateway.Lib

variable {db : Db} {id : String} {call : Call}

/-! ## Edges -/

/-- The status of the row of `id`, if there is one. -/
def statusOf (db : Db) (id : String) : Option JobStoreStatus := (db.jobs.get id).map JobRecord.status

/-- The edges of the lifecycle. -/
inductive StatusMove : Option JobStoreStatus → Option JobStoreStatus → Prop where
  | stay (o : Option JobStoreStatus) : StatusMove o o
  | enter : StatusMove none (some .queued)
  | launch : StatusMove (some .queued) (some .running)
  | orphan (s : JobStoreStatus) (h : s.isOpen = true) : StatusMove (some s) (some .orphaned)
  | settle (s t : JobStoreStatus) (h : s.isSettled = false) (ht : t.isSettled = true) :
      StatusMove (some s) (some t)
  | delete (s : JobStoreStatus) : StatusMove (some s) none

theorem status_edited {r r' : JobRecord} (h : Edited r r') : r'.status = r.status := by rw [h]

/-- A completion settles the row, or marks it orphaned. -/
theorem statusMove_complete (status : TerminalJobStoreStatus) {s : JobStoreStatus} (hs : s.isSettled = false) :
    StatusMove (some s) (some status.toStatus) := by
  cases status with
  | completed | failed | canceled => exact .settle s _ hs rfl
  | orphaned =>
    cases s with
    | queued | running => exact .orphan _ rfl
    | orphaned => exact .stay _
    | completed => cases hs
    | failed => cases hs
    | canceled => cases hs

theorem step_statusMove (db : Db) (call : Call) (id : String) :
    StatusMove (statusOf db id) (statusOf (step db call).1 id) := by
  have hm := step_move db call id
  unfold statusOf
  generalize db.jobs.get id = o at hm ⊢
  generalize (step db call).1.jobs.get id = o' at hm ⊢
  cases hm with
  | same => exact .stay _
  | admitted input => exact .enter
  | launched r pid hop hs =>
    simp only [Option.map_some, hs]
    exact .launch
  | beat r | advanced r => exact .stay _
  | orphaned r ttl grace live expiresIso hop hw => exact .orphan _ (orphanable_iff.1 hw).1
  | edited r r' h =>
    simp only [Option.map_some, status_edited h]
    exact .stay _
  | completed r input expiresAt hop hid hs => exact statusMove_complete input.status (by simpa [completable] using hs)
  | evicted r => exact .delete _

/-! ## Finality -/

/-- How a job ended. -/
structure JobOutcome where
  status : JobStoreStatus
  exitCode : Option ℤ
  error : Option String
  errorCategory : Option String
  retryable : Option Bool
  httpStatus : Option ℤ
  finishedAt : Option String
  expiresAt : String

def JobRecord.outcome (r : JobRecord) : JobOutcome :=
  ⟨r.status, r.exitCode, r.error, r.errorCategory, r.retryable, r.httpStatus, r.finishedAt, r.expiresAt⟩

theorem outcome_edited {r r' : JobRecord} (h : Edited r r') : r'.outcome = r.outcome := by
  rw [h]
  rfl

theorem not_isOpen_of_isSettled {s : JobStoreStatus} (h : s.isSettled = true) : s.isOpen = false := by
  cases s <;> first | rfl | cases h

/-- A settled row keeps its outcome in a step that does not delete it. -/
theorem settled_step {r : JobRecord} (hr : db.jobs.get id = some r) (hs : r.status.isSettled = true) (call : Call) :
    (step db call).1.jobs.get id = none ∨
      ∃ r', (step db call).1.jobs.get id = some r' ∧ r'.outcome = r.outcome := by
  have hm := step_move db call id
  have hopen := not_isOpen_of_isSettled hs
  rw [hr] at hm
  generalize (step db call).1.jobs.get id = o' at hm ⊢
  cases hm with
  | same => exact Or.inr ⟨r, rfl, rfl⟩
  | launched _ _ _ hq =>
    rw [hq] at hs
    cases hs
  | beat _ _ _ _ ho | advanced _ _ _ _ _ _ ho =>
    rw [hopen] at ho
    cases ho
  | orphaned _ _ _ _ _ _ hw =>
    rw [(orphanable_iff.1 hw).1] at hopen
    cases hopen
  | edited _ r' h => exact Or.inr ⟨r', rfl, outcome_edited h⟩
  | completed _ _ _ _ _ hc =>
    rw [completable, hs] at hc
    cases hc
  | evicted => exact Or.inl rfl

/-- The same of a run, up to the first state in which the row is gone. -/
theorem settled_run {r : JobRecord} (hr : db.jobs.get id = some r) (hs : r.status.isSettled = true)
    (calls : List Call) : (∃ as bs, calls = as ++ bs ∧ (Run.final step db as).jobs.get id = none) ∨
      ∃ r', (Run.final step db calls).jobs.get id = some r' ∧ r'.outcome = r.outcome := by
  induction calls generalizing db r with
  | nil => exact Or.inr ⟨r, hr, rfl⟩
  | cons call calls ih =>
    rcases settled_step hr hs call with hnone | ⟨r₁, hr₁, ho⟩
    · exact Or.inl ⟨[call], calls, rfl, hnone⟩
    · have hs₁ : r₁.status.isSettled = true := by
        rw [show r₁.status = r.status from congrArg JobOutcome.status ho]
        exact hs
      rcases ih hr₁ hs₁ with ⟨as, bs, rfl, hnone⟩ | ⟨r', hr', ho'⟩
      · exact Or.inl ⟨call :: as, bs, rfl, hnone⟩
      · exact Or.inr ⟨r', hr', ho'.trans ho⟩

theorem settled_setComplete {input : JobCompletionInput} (h : input.status ≠ .orphaned) (expiresAt : String)
    (r : JobRecord) : (setComplete input expiresAt r).status.isSettled = true := by
  show input.status.toStatus.isSettled = true
  cases hs : input.status <;> first | rfl | exact absurd hs h

/-- A completion of a settled row does not land. -/
theorem complete_settled {r : JobRecord} {input : JobCompletionInput} (hr : db.jobs.get input.id = some r)
    (hs : r.status.isSettled = true) (hop : call.op = .recordComplete input) :
    (step db call).2 ≠ .ok (.bool true) := by
  rw [Ne, step_complete hop]
  rintro ⟨r', expiresAt, hr', hc, -, -⟩
  obtain rfl := Option.some.inj (hr.symm.trans hr')
  rw [completable, hs] at hc
  cases hc

/-- **Lifecycle finality.**  In every run the status of an id moves along the edges of `StatusMove` only.  Once a
completion with a status other than orphaned has answered true, then as long as the row exists its outcome is the one
that completion wrote, and no further completion of the id answers true. -/
theorem lifecycle_finality (db : Db) (id : String) (before : List Call) :
    Run.Along step (fun db call => StatusMove (statusOf db id) (statusOf (step db call).1 id)) db before ∧
    ∀ (call : Call) (input : JobCompletionInput), call.op = .recordComplete input → input.id = id →
      input.status ≠ .orphaned → (step (Run.final step db before) call).2 = .ok (.bool true) →
      ∃ r, (step (Run.final step db before) call).1.jobs.get id = some r ∧
        ∀ later : List Call,
          (∀ as bs, later = as ++ bs →
            (Run.final step (step (Run.final step db before) call).1 as).jobs.get id ≠ none) →
          (∃ r', (Run.final step (step (Run.final step db before) call).1 later).jobs.get id = some r' ∧
              r'.outcome = r.outcome) ∧
            ∀ (call' : Call) (input' : JobCompletionInput), call'.op = .recordComplete input' → input'.id = id →
              (step (Run.final step (step (Run.final step db before) call).1 later) call').2 ≠ .ok (.bool true) := by
  refine ⟨?_, ?_⟩
  · induction before generalizing db with
    | nil => trivial
    | cons call calls ih => exact ⟨step_statusMove db call id, ih _⟩
  · rintro call input hop rfl hstatus htrue
    obtain ⟨r₀, expiresAt, -, -, -, hr⟩ := (step_complete hop).1 htrue
    refine ⟨_, hr, fun later hpresent => ?_⟩
    have hs := settled_setComplete hstatus expiresAt r₀
    rcases settled_run hr hs later with ⟨as, bs, he, hnone⟩ | ⟨r', hr', ho⟩
    · exact absurd hnone (hpresent as bs he)
    · refine ⟨⟨r', hr', ho⟩, fun call' input' hop' hid' => ?_⟩
      refine complete_settled (by rw [hid']; exact hr') ?_ hop'
      rw [show r'.status = _ from congrArg JobOutcome.status ho]
      exact hs

/-- A completion that marks a row orphaned may be followed by another that answers true: "at most one completion
answers true while the row exists" fails on it. -/
theorem completion_repeats_as_orphaned :
    let cfg : Config := ⟨none, 0, 30000, IsoTime.isoDateParse⟩
    let now : Clock := ⟨0, 0, by decide⟩
    let start : Call := ⟨cfg, now, .recordStart (.plain "job" "1970-01-01T00:00:00.000Z")⟩
    let orphan : Call := ⟨cfg, now, .recordComplete (.plain "job" .orphaned "1970-01-01T00:00:00.000Z")⟩
    let complete : Call := ⟨cfg, now, .recordComplete (.plain "job" .completed "1970-01-01T00:00:00.000Z")⟩
    Run.outputs step Db.empty [start, orphan, orphan, complete] =
        [.ok .unit, .ok (.bool true), .ok (.bool true), .ok (.bool true)] ∧
      statusOf (Run.final step Db.empty [start]) "job" = some .queued ∧
      statusOf (Run.final step Db.empty [start, orphan]) "job" = some .orphaned ∧
      statusOf (Run.final step Db.empty [start, orphan, orphan]) "job" = some .orphaned ∧
      statusOf (Run.final step Db.empty [start, orphan, orphan, complete]) "job" = some .completed := by
  decide +kernel

end LlmGateway.JobStore
