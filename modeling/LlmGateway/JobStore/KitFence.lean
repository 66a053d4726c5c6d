import LlmGateway.JobStore.JobRows

/-!
# Kit attempt ids are used once

* `Claims` — a step that takes an attempt id for good, by admitting its job or by reserving it for recovery;
* `step_fence` — a step writes the fence of an id exactly when it claims the id, which then had none;
* `kit_attempt_single_use` — one claim for each id, over whole runs, and what the other answers mean.
-/

namespace LlmGateway.JobStore

open LlmGateway.Lib

variable {db : Db} {id : String} {call : Call}

/-! ## Claims -/

/-- The step is a Kit admission of the id, and it succeeded. -/
def Admits (db : Db) (call : Call) (id : String) : Prop :=
  ∃ input, call.op = .recordStart input ∧ input.id = id ∧ input.kitExecution.isSome = true ∧
    (step db call).2 = .ok .unit

/-- The step reserved the id for recovery. -/
def Reserves (db : Db) (call : Call) (id : String) : Prop :=
  ∃ input, call.op = .fenceUnadmittedKitAttempt input ∧ input.attemptId = id ∧
    (step db call).2 = .ok (.fence .reserved)

def Claims (db : Db) (call : Call) (id : String) : Prop := Admits db call id ∨ Reserves db call id

theorem claims_recordStart {input : JobStartInput} (hop : call.op = .recordStart input) :
    Claims db call id ↔ input.id = id ∧ input.kitExecution.isSome = true ∧ (step db call).2 = .ok .unit := by
  simp [Claims, Admits, Reserves, hop]

theorem claims_fenceUnadmittedKitAttempt {input : KitAttemptFenceInput}
    (hop : call.op = .fenceUnadmittedKitAttempt input) :
    Claims db call id ↔ input.attemptId = id ∧ (step db call).2 = .ok (.fence .reserved) := by
  simp [Claims, Admits, Reserves, hop]

theorem insertJob_fences {cfg : Config} {now : Clock} {input : JobStartInput} {db' : Db}
    (h : insertJob cfg now db input = .ok db') : db'.kitAttemptFences = db.kitAttemptFences := by
  obtain ⟨jobs, -, rfl⟩ := insertJob_ok h
  rfl

/-- What an admission does to the fences. -/
theorem recordStart_fences {cfg : Config} {now : Clock} {input : JobStartInput} {db' : Db}
    (h : recordStart cfg now db input = .ok db') :
    input.kitExecution = none ∧ db'.kitAttemptFences = db.kitAttemptFences ∨
      ∃ f, input.kitExecution.isSome = true ∧ f.attemptId = input.id ∧ f.state = .admitted ∧
        db.kitAttemptFences.insert f = some db'.kitAttemptFences := by
  rcases recordStart_ok h with ⟨-, hk, h⟩ | ⟨admission, -, hk, h⟩ | ⟨kit, -, hk, h⟩
  · exact Or.inl ⟨hk, insertJob_fences h⟩
  · obtain ⟨db₁, h₁, h₂⟩ := recordValidationStart_ok h
    obtain ⟨runs, rows, rfl⟩ := appendValidationJobLink_frame h₂
    exact Or.inl ⟨hk, (show db₁.kitAttemptFences = _ from insertJob_fences h₁)⟩
  · obtain ⟨session, db₁, -, -, hf, h₂⟩ := recordKitStart_ok h
    obtain ⟨-, ⟨-, fences, hins, rfl⟩ | ⟨hb, -⟩⟩ := insertKitAttemptFence_ok hf
    · refine Or.inr ⟨⟨input.id, .admitted, input.cli, kit, session, input.ownerPrincipal, input.startedAt⟩,
        by rw [hk]; rfl, rfl, rfl, ?_⟩
      rw [insertJob_fences h₂]
      exact hins
    · cases hb

/-- What an inserted fence is to the fences of the other ids. -/
theorem fence_of_insert {f : KitAttemptFence} {fences : Table KitAttemptFence.attemptId}
    (h : db.kitAttemptFences.insert f = some fences) (id : String) :
    f.attemptId = id ∧ db.kitAttemptFences.get id = none ∧ fences.get id = some f ∨
      f.attemptId ≠ id ∧ fences.get id = db.kitAttemptFences.get id := by
  have hget := Table.get_insert h id
  by_cases hid : f.attemptId = id
  · rw [if_pos hid] at hget
    exact Or.inl ⟨hid, hid ▸ Table.get_of_insert h, hget⟩
  · rw [if_neg hid] at hget
    exact Or.inr ⟨hid, hget⟩

/-- **A step writes the fence of an id exactly when it claims the id**, and the id then had no fence. -/
theorem step_fence (db : Db) (call : Call) (id : String) :
    Claims db call id ∧ db.kitAttemptFences.get id = none ∧
        ((step db call).1.kitAttemptFences.get id).isSome = true ∨
      ¬Claims db call id ∧ (step db call).1.kitAttemptFences.get id = db.kitAttemptFences.get id := by
  rcases step_cases db call with ⟨_, hstep⟩ | ⟨ret, db', hp, hstep⟩
  · refine Or.inr ⟨?_, by rw [hstep]⟩
    rintro (⟨_, -, -, -, h⟩ | ⟨_, -, -, h⟩) <;> rw [hstep] at h <;> cases h
  · cases hop : call.op with
    | recordStart input =>
      rw [hop] at hp
      obtain ⟨_, hp, he⟩ := map_ok hp
      cases he
      rw [claims_recordStart hop, hstep]
      rcases recordStart_fences hp with ⟨hk, hsame⟩ | ⟨f, hk, hid, -, hins⟩
      · exact Or.inr ⟨by simp [hk], by rw [hsame]⟩
      · rcases fence_of_insert hins id with ⟨hfid, hnone, hsome⟩ | ⟨hfid, hsame⟩
        · exact Or.inl ⟨⟨hid ▸ hfid, hk, rfl⟩, hnone, by rw [hsome]; rfl⟩
        · exact Or.inr ⟨fun hclaim => hfid (hid.trans hclaim.1), hsame⟩
    | fenceUnadmittedKitAttempt input =>
      rw [hop] at hp
      obtain ⟨⟨result, _⟩, hp, he⟩ := map_ok hp
      cases he
      rw [claims_fenceUnadmittedKitAttempt hop, hstep]
      rcases fenceUnadmittedKitAttempt_ok hp with ⟨rfl, fences, hins, rfl⟩ | ⟨hne, rfl, -⟩
      · rcases fence_of_insert hins id with ⟨hfid, hnone, hsome⟩ | ⟨hfid, hsame⟩
        · exact Or.inl ⟨⟨hfid, rfl⟩, hnone, by rw [hsome]; rfl⟩
        · exact Or.inr ⟨fun hclaim => hfid hclaim.1, hsame⟩
      · refine Or.inr ⟨?_, rfl⟩
        rintro ⟨-, hret⟩
        cases hret
        exact hne rfl
    | _ =>
      -- every other operation leaves the fences alone
      rw [hop] at hp
      refine Or.inr ⟨?_, ?_⟩
      · simp [Claims, Admits, Reserves, hop]
      · rw [hstep]
        first
        | obtain ⟨_, _, rfl⟩ := perform_frame hp rfl rfl
          rfl
        | obtain ⟨_, _, _, rfl⟩ := perform_validation_frame hp rfl
          rfl

/-! ## Runs -/

/-- A fence is there after every step, as it was. -/
theorem fence_step {f : KitAttemptFence} (h : db.kitAttemptFences.get id = some f) (call : Call) :
    (step db call).1.kitAttemptFences.get id = some f := by
  rcases step_fence db call id with ⟨-, hnone, -⟩ | ⟨-, hsame⟩
  · rw [h] at hnone
    cases hnone
  · rw [hsame, h]

theorem fence_run {f : KitAttemptFence} (h : db.kitAttemptFences.get id = some f) (calls : List Call) :
    (Run.final step db calls).kitAttemptFences.get id = some f :=
  Run.final_induction (P := fun db : Db => db.kitAttemptFences.get id = some f) (fun _ call h => fence_step h call) h
    calls

/-- Once there is a fence, no step claims the id. -/
theorem not_claims_of_fence {f : KitAttemptFence} (h : db.kitAttemptFences.get id = some f) (call : Call) :
    ¬Claims db call id := by
  rcases step_fence db call id with ⟨-, hnone, -⟩ | ⟨hno, -⟩
  · rw [h] at hnone
    cases hnone
  · exact hno

/-- **Kit attempt ids are permanently single-use.**  In every run of the store, from any state: each attempt id has at
most one fence, which stays as it is once it is there; no two steps claim one id, whatever happens between them,
evictions included; `already_recovered` is answered only to a caller who can access a recovered fence of the same
provider, session and execution; and an admission that throws leaves all tables as they were. -/
theorem kit_attempt_single_use (db : Db) (id : String) (calls : List Call) :
    ((Run.final step db calls).kitAttemptFences.rows.countP fun f => f.attemptId == id) ≤ 1 ∧
    (∀ f, db.kitAttemptFences.get id = some f →
      (Run.final step db calls).kitAttemptFences.get id = some f) ∧
    (∀ before c₁ mid c₂ after, calls = before ++ c₁ :: (mid ++ c₂ :: after) →
      Claims (Run.final step db before) c₁ id →
        ¬Claims (Run.final step db (before ++ c₁ :: mid)) c₂ id) ∧
    (∀ call input, call.op = .fenceUnadmittedKitAttempt input →
      (step (Run.final step db calls) call).2 = .ok (.fence .already_recovered) →
        ∃ f caller, (Run.final step db calls).kitAttemptFences.get input.attemptId = some f ∧
          f.state = .recovered ∧ f.cli = input.cli ∧ f.kitSessionId = input.kitSessionId ∧
          f.kitExecution = input.kitExecution ∧ input.ownerPrincipal = some caller ∧
          principalCanAccess f.ownerPrincipal caller = true) ∧
    (∀ call input e, call.op = .recordStart input → input.kitExecution.isSome = true →
      (step (Run.final step db calls) call).2 = .error e →
        (step (Run.final step db calls) call).1 = Run.final step db calls) := by
  refine ⟨?_, fun f hf => fence_run hf calls, fun before c₁ mid c₂ after hsplit hclaim => ?_,
    fun call input hop hret => ?_, fun call input e hop hk herr => ?_⟩
  · have h := Table.count_key (t := (Run.final step db calls).kitAttemptFences) (k := id) fun _ => true
    simp only [Bool.and_true, Table.count] at h
    rw [h]
    split <;> omega
  · rcases step_fence (Run.final step db before) c₁ id with ⟨-, -, hsome⟩ | ⟨hno, -⟩
    · obtain ⟨f, hf⟩ := Option.isSome_iff_exists.1 hsome
      have hmid := fence_run hf mid
      rw [Run.final_append, Run.final_cons]
      exact not_claims_of_fence hmid c₂
    · exact absurd hclaim hno
  · obtain ⟨_, hp, -⟩ := perform_of_returned hret
    rw [hop] at hp
    obtain ⟨⟨result, _⟩, hp, he⟩ := map_ok hp
    cases he
    rcases fenceUnadmittedKitAttempt_ok hp with ⟨hres, -⟩ | ⟨-, -, -, hrec⟩
    · cases hres
    · obtain ⟨f, hf, hstate, hcli, hsession, hexec, howner⟩ := hrec rfl
      unfold recoveredFenceOwnerMatches at howner
      cases hcaller : input.ownerPrincipal with
      | none =>
        rw [hcaller] at howner
        cases howner
      | some caller =>
        rw [hcaller] at howner
        exact ⟨f, caller, hf, hstate, hcli, hsession, hexec, rfl, howner⟩
  · exact state_of_error herr

end LlmGateway.JobStore
