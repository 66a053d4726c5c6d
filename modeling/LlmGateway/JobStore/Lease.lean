import LlmGateway.JobStore.Lifecycle

/-!
# Lease fencing

* `Touches` — the steps that arm the lease of a row: its admission, its launch, a heartbeat of its owner, the advance
  of a row that a probe found alive;
* `lease_fencing` — what a sweep may orphan, what it leaves alone, and what it reports.
-/

namespace LlmGateway.JobStore

open LlmGateway.Lib

variable {db : Db} {id : String} {call : Call} {L : ℤ}

/-! ## Touches -/

/-- All instances use the lease `L`. -/
def UsesLease (L : ℤ) (call : Call) : Prop :=
  call.cfg.leaseTtlMs = L ∧ ∀ ttl grace live, call.op = .recoverStaleJobs ttl grace live → ttl = L

/-- The step arms the lease of the row of `id`. -/
def Touches (db : Db) (call : Call) (id : String) : Prop :=
  match call.op with
  | .recordStart input => input.id = id ∧ ∃ ret, (step db call).2 = .ok ret
  | .markRunning k _ => k = id ∧ (step db call).2 = .ok (.bool true)
  | .heartbeat instanceId =>
    ∃ r, db.jobs.get id = some r ∧ r.ownerInstance = some instanceId ∧ r.status.isOpen = true
  | .recoverStaleJobs _ _ live =>
    id ∈ live ∧ (∃ r, db.jobs.get id = some r ∧ r.status.isOpen = true) ∧ ∃ ret, (step db call).2 = .ok ret
  | _ => False

/-- A touch leaves the row open, with the deadline of its time. -/
theorem lease_of_touches (h : Touches db call id) (hL : UsesLease L call) :
    ∃ r, (step db call).1.jobs.get id = some r ∧ r.leaseDeadline = some (call.now.db + L) := by
  unfold Touches at h
  cases hop : call.op with
  | recordStart input =>
    rw [hop] at h
    obtain ⟨hid, ret, hret⟩ := h
    obtain ⟨db', hp, hstep⟩ := perform_of_returned hret
    rw [hop] at hp
    obtain ⟨_, hp, he⟩ := map_ok hp
    cases he
    rw [hstep]
    refine ⟨startRow call.cfg call.now input, ?_, ?_⟩
    · rw [Table.get_insert (recordStart_jobs hp)]
      exact if_pos hid
    · rw [startRow, hL.1]
  | markRunning k pid =>
    rw [hop] at h
    obtain ⟨rfl, htrue⟩ := h
    obtain ⟨r, hr, hs⟩ := (step_launch hop).1 htrue
    refine ⟨setRunning pid (call.now.db + L) r, ?_, rfl⟩
    rw [step, hop]
    simp only [perform, markRunning, get_updateJob hr, hs, hL.1, beq_self_eq_true, if_true]
  | heartbeat instanceId =>
    rw [hop] at h
    obtain ⟨r, hr, howner, hs⟩ := h
    refine ⟨setLease (call.now.db + L) r, ?_, rfl⟩
    rw [step, hop]
    simp only [perform, heartbeat, get_updateJobs, hr, howner, hs, hL.1, Option.map_some, beq_self_eq_true,
      Bool.and_self, if_true]
  | recoverStaleJobs ttl grace live =>
    rw [hop] at h
    obtain ⟨hlive, ⟨r, hr, hs⟩, ret, hret⟩ := h
    have hid := Table.key_of_get hr
    obtain ⟨db', hp, hstep⟩ := perform_of_returned hret
    rw [hop] at hp
    obtain ⟨⟨_, _⟩, hp, he⟩ := map_ok hp
    cases he
    obtain ⟨expiresIso, -, hget, -, -⟩ := recoverStaleJobs_ok hp
    rw [hstep]
    refine ⟨setAdvanced (call.now.db + ttl) r, ?_, ?_⟩
    · rw [hget, hr, Option.map_some, sweepRow, if_pos (hid ▸ hlive), if_pos hs]
    · rw [setAdvanced, hL.2 ttl grace live hop]
  | _ => simp [hop] at h

/-- A row that is open after a step that does not touch it was open before, with the same deadline. -/
theorem open_of_not_touches {r' : JobRecord} (hr' : (step db call).1.jobs.get id = some r')
    (hs' : r'.status.isOpen = true) (h : ¬Touches db call id) :
    ∃ r, db.jobs.get id = some r ∧ r.status.isOpen = true ∧ r'.leaseDeadline = r.leaseDeadline := by
  rcases step_cases db call with ⟨_, hstep⟩ | ⟨ret, _, -, hstep⟩
  · rw [hstep] at hr'
    exact ⟨r', hr', hs', rfl⟩
  · have hret : (step db call).2 = .ok ret := by rw [hstep]
    have hm := step_move db call id
    rw [hr'] at hm
    generalize ho : db.jobs.get id = o at hm ⊢
    unfold Touches at h
    cases hm with
    | same => exact ⟨r', rfl, hs', rfl⟩
    | admitted input hop hid =>
      rw [hop] at h
      exact absurd ⟨hid, ret, hret⟩ h
    | launched r pid hop hs =>
      rw [hop] at h
      exact absurd ⟨rfl, (step_launch hop).2 ⟨r, ho, hs⟩⟩ h
    | beat r instanceId hop howner hs =>
      rw [hop] at h
      exact absurd ⟨r, ho, howner, hs⟩ h
    | advanced r ttl grace live hop hlive hs =>
      rw [hop] at h
      exact absurd ⟨hlive, ⟨r, ho, hs⟩, ret, hret⟩ h
    | orphaned => cases hs'
    | edited r _ he =>
      rw [status_edited he] at hs'
      exact ⟨r, rfl, hs', by rw [he]⟩
    | completed r input =>
      have hopen : input.status.toStatus.isOpen = true := hs'
      cases hst : input.status <;> rw [hst] at hopen <;> cases hopen

/-! ## Deadlines -/

/-- An open row has a deadline, and no touch so far outlives it. -/
def Leased (L : ℤ) (calls : List Call) (id : String) : Prop :=
  ∀ r, (Run.final step Db.empty calls).jobs.get id = some r → r.status.isOpen = true →
    ∃ d, r.leaseDeadline = some d ∧ ∀ before call after, calls = before ++ call :: after →
      Touches (Run.final step Db.empty before) call id → call.now.db + L ≤ d

/-- A step of a run that ends in `x` is `x`, or a step of the run before it. -/
theorem split_of_concat {xs before after : List Call} {x c : Call} (h : xs ++ [x] = before ++ c :: after) :
    before = xs ∧ c = x ∨ ∃ mid, xs = before ++ c :: mid := by
  rcases List.append_eq_append_iff.1 h with ⟨ys, hb, hx⟩ | ⟨ys, hxs, hc⟩
  · cases ys with
    | nil => exact Or.inl ⟨by rw [hb, List.append_nil], (List.cons.inj hx).1.symm⟩
    | cons y ys => simp at hx
  · cases ys with
    | nil => exact Or.inl ⟨by rw [hxs, List.append_nil], (List.cons.inj hc).1⟩
    | cons y ys => exact Or.inr ⟨ys, by rw [hxs, (List.cons.inj hc).1]⟩

theorem leased_run {calls : List Call} (hL : ∀ c ∈ calls, UsesLease L c)
    (hclock : calls.Pairwise fun a b => a.now.db ≤ b.now.db) : Leased L calls id := by
  induction calls using List.reverseRecOn with
  | nil =>
    intro r hr
    cases hr
  | append_singleton calls call ih =>
    have ih := ih (fun c hc => hL c (by simp [hc])) (List.pairwise_append.1 hclock).1
    have hlast : ∀ c ∈ calls, c.now.db ≤ call.now.db :=
      fun c hc => (List.pairwise_append.1 hclock).2.2 c hc call (List.mem_singleton_self _)
    intro r' hr' hs'
    rw [Run.final_concat] at hr'
    by_cases ht : Touches (Run.final step Db.empty calls) call id
    · obtain ⟨r, hr, hd⟩ := lease_of_touches ht (hL call (by simp))
      obtain rfl := Option.some.inj (hr.symm.trans hr')
      refine ⟨_, hd, fun before c after hsplit _ => ?_⟩
      rcases split_of_concat hsplit with ⟨-, rfl⟩ | ⟨mid, rfl⟩
      · exact le_rfl
      · have := hlast c (by simp)
        omega
    · obtain ⟨r, hr, hs, hd⟩ := open_of_not_touches hr' hs' ht
      obtain ⟨d, hrd, hall⟩ := ih r hr hs
      refine ⟨d, hd.trans hrd, fun before c after hsplit hc => ?_⟩
      rcases split_of_concat hsplit with ⟨rfl, rfl⟩ | ⟨mid, rfl⟩
      · exact absurd hc ht
      · exact hall before c mid rfl hc

/-! ## Reports -/

/-- The ids an answer reports as orphaned. -/
def reported : Except String Ret → List String
  | .ok (.snapshots orphaned) => orphaned.map OrphanedJobSnapshot.id
  | _ => []

/-- What a sweep reports, and what it makes of the rows. -/
theorem step_sweep (db : Db) {ttl : ℤ} {grace : ℕ} {live : List String}
    (hop : call.op = .recoverStaleJobs ttl grace live) :
    ((∃ e, (step db call).2 = .error e) ∧ (step db call).1 = db) ∨
    ∃ orphaned expiresIso, (step db call).2 = .ok (.snapshots orphaned) ∧
      (∀ id, (step db call).1.jobs.get id =
        (db.jobs.get id).map (sweepRow call.now expiresIso ttl grace live)) ∧
      (orphaned.map OrphanedJobSnapshot.id).Nodup ∧
      ∀ id, id ∈ orphaned.map OrphanedJobSnapshot.id ↔
        ∃ r, db.jobs.get id = some r ∧ orphanable call.now grace live r = true := by
  rcases step_cases db call with ⟨e, hstep⟩ | ⟨ret, db', hp, hstep⟩
  · rw [hstep]
    exact Or.inl ⟨⟨e, rfl⟩, rfl⟩
  · rw [hstep]
    rw [hop] at hp
    obtain ⟨⟨orphaned, _⟩, hp, he⟩ := map_ok hp
    cases he
    obtain ⟨expiresIso, -, hget, hnodup, hmem⟩ := recoverStaleJobs_ok hp
    exact Or.inr ⟨orphaned, expiresIso, rfl, hget, hnodup, hmem⟩

/-- Nothing but a sweep reports. -/
theorem reported_of_not_sweep (h : ∀ ttl grace live, call.op ≠ .recoverStaleJobs ttl grace live) :
    reported (step db call).2 = [] := by
  rcases step_cases db call with ⟨_, hstep⟩ | ⟨_, _, hp, hstep⟩
  · rw [hstep]
    rfl
  · rw [hstep]
    cases hop : call.op with
    | recoverStaleJobs ttl grace live => exact absurd hop (h ttl grace live)
    | recordStart | fenceUnadmittedKitAttempt | recordComplete | setValidationProviderLinks
      | setValidationJudgeLink | skipValidationJudge | finalizeValidationReceipt =>
      rw [hop] at hp
      obtain ⟨_, -, he⟩ := map_ok hp
      cases he
      rfl
    | _ =>
      rw [hop] at hp
      cases hp
      rfl

/-- A reported row was open before the step and is orphaned after it. -/
theorem reported_row (h : id ∈ reported (step db call).2) :
    (∃ r, db.jobs.get id = some r ∧ r.status.isOpen = true) ∧
      ∃ r', (step db call).1.jobs.get id = some r' ∧ r'.status = .orphaned := by
  by_cases hsweep : ∀ ttl grace live, call.op ≠ .recoverStaleJobs ttl grace live
  · rw [reported_of_not_sweep hsweep] at h
    cases h
  · push Not at hsweep
    obtain ⟨ttl, grace, live, hop⟩ := hsweep
    rcases step_sweep db hop with ⟨⟨e, he⟩, -⟩ | ⟨orphaned, expiresIso, hret, hget, -, hmem⟩
    · rw [he] at h
      cases h
    · rw [hret] at h
      obtain ⟨r, hr, hw⟩ := (hmem id).1 h
      obtain ⟨hs, -, -, hlive⟩ := orphanable_iff.1 hw
      refine ⟨⟨r, hr, hs⟩, setOrphaned call.now.nowIso expiresIso r, ?_, rfl⟩
      rw [hget, hr, Option.map_some, sweepRow, if_neg hlive, if_pos hw]

theorem nodup_reported (db : Db) (call : Call) : (reported (step db call).2).Nodup := by
  by_cases hsweep : ∀ ttl grace live, call.op ≠ .recoverStaleJobs ttl grace live
  · rw [reported_of_not_sweep hsweep]
    exact List.nodup_nil
  · push Not at hsweep
    obtain ⟨ttl, grace, live, hop⟩ := hsweep
    rcases step_sweep db hop with ⟨⟨e, he⟩, -⟩ | ⟨orphaned, expiresIso, hret, -, hnodup, -⟩
    · rw [he]
      exact List.nodup_nil
    · rw [hret]
      exact hnodup

/-- A row that is not open, of a step that deletes nothing, is there and not open after it. -/
theorem closed_step (hev : call.op ≠ .evictExpired) (h : ∃ r, db.jobs.get id = some r ∧ r.status.isOpen = false) :
    ∃ r, (step db call).1.jobs.get id = some r ∧ r.status.isOpen = false := by
  obtain ⟨r, hr, hs⟩ := h
  have hm := step_move db call id
  rw [hr] at hm
  generalize (step db call).1.jobs.get id = o' at hm ⊢
  cases hm with
  | same => exact ⟨r, rfl, hs⟩
  | launched _ _ _ hq => simp [hq, JobStoreStatus.isOpen] at hs
  | beat _ _ _ _ ho | advanced _ _ _ _ _ _ ho => simp [ho] at hs
  | orphaned => exact ⟨_, rfl, rfl⟩
  | edited _ r' he => exact ⟨r', rfl, by rw [status_edited he, hs]⟩
  | completed _ input => exact ⟨_, rfl, by show input.status.toStatus.isOpen = false; cases input.status <;> rfl⟩
  | evicted _ hop => exact absurd hop hev

/-- The reports so far name each id once, and the rows they name are there and not open. -/
def Swept (db : Db) (outs : List (Except String Ret)) : Prop :=
  (outs.flatMap reported).Nodup ∧
    ∀ id ∈ outs.flatMap reported, ∃ r, db.jobs.get id = some r ∧ r.status.isOpen = false

theorem Swept.step {outs : List (Except String Ret)} (h : Swept db outs) (hev : call.op ≠ .evictExpired) :
    Swept (step db call).1 (outs ++ [(step db call).2]) := by
  have hflat : (outs ++ [(JobStore.step db call).2]).flatMap reported =
      outs.flatMap reported ++ reported (JobStore.step db call).2 := by simp
  unfold Swept
  rw [hflat]
  refine ⟨List.nodup_append.2 ⟨h.1, nodup_reported db call, fun a ha b hb hab => ?_⟩, fun id hid => ?_⟩
  · subst b
    obtain ⟨r, hr, hs⟩ := h.2 a ha
    obtain ⟨⟨r', hr', hs'⟩, -⟩ := reported_row hb
    obtain rfl := Option.some.inj (hr.symm.trans hr')
    rw [hs] at hs'
    cases hs'
  · rcases List.mem_append.1 hid with hid | hid
    · exact closed_step hev (h.2 id hid)
    · obtain ⟨-, r', hr', hs'⟩ := reported_row hid
      exact ⟨r', hr', by rw [hs']; rfl⟩

theorem swept_run {calls : List Call} (hev : ∀ c ∈ calls, c.op ≠ .evictExpired) :
    Swept (Run.final step Db.empty calls) (Run.outputs step Db.empty calls) := by
  induction calls using List.reverseRecOn with
  | nil => exact ⟨List.nodup_nil, fun id hid => absurd hid List.not_mem_nil⟩
  | append_singleton calls call ih =>
    rw [Run.final_concat, Run.outputs_concat]
    exact (ih fun c hc => hev c (by simp [hc])).step (hev call (by simp))

/-! ## Fencing -/

section Sweep

variable {sweep : Call} {ttl : ℤ} {grace : ℕ} {live : List String} {r : JobRecord}

/-- A row that becomes orphaned in a sweep met its WHERE clause. -/
theorem orphanable_of_orphaned (hop : sweep.op = .recoverStaleJobs ttl grace live) {r' : JobRecord}
    (hr : db.jobs.get id = some r) (hr' : (step db sweep).1.jobs.get id = some r') (hne : r.status ≠ .orphaned)
    (ho : r'.status = .orphaned) : orphanable sweep.now grace live r = true := by
  rcases step_sweep db hop with ⟨-, hdb⟩ | ⟨_, expiresIso, -, hget, -, -⟩
  · rw [hdb, hr] at hr'
    obtain rfl := Option.some.inj hr'
    exact absurd ho hne
  · rw [hget, hr, Option.map_some, sweepRow] at hr'
    split at hr'
    · split at hr' <;> obtain rfl := Option.some.inj hr'
      · exact absurd ho hne
      · exact absurd ho hne
    · split at hr'
      · assumption
      · obtain rfl := Option.some.inj hr'
        exact absurd ho hne

/-- A row that a sweep neither confirms nor may orphan stays as it is. -/
theorem kept_by_sweep (hop : sweep.op = .recoverStaleJobs ttl grace live) (hr : db.jobs.get id = some r)
    (h : r.status.isOpen = false ∨ id ∉ live ∧ orphanable sweep.now grace live r = false) :
    (step db sweep).1.jobs.get id = some r := by
  have hid := Table.key_of_get hr
  rcases step_sweep db hop with ⟨-, hdb⟩ | ⟨_, expiresIso, -, hget, -, -⟩
  · rw [hdb, hr]
  · rw [hget, hr, Option.map_some, sweepRow, hid]
    rcases h with hs | ⟨hlive, hno⟩
    · have hno : orphanable sweep.now grace live r = false := by simp [orphanable, hs]
      simp [hs, hno]
    · simp [hlive, hno]

/-- A sweep reports exactly the rows it moves to orphaned. -/
theorem reported_iff (hop : sweep.op = .recoverStaleJobs ttl grace live) {orphaned : List OrphanedJobSnapshot}
    (hret : (step db sweep).2 = .ok (.snapshots orphaned)) (id : String) :
    id ∈ orphaned.map OrphanedJobSnapshot.id ↔
      statusOf db id ≠ some .orphaned ∧ statusOf (step db sweep).1 id = some .orphaned := by
  constructor
  · intro hid
    have hmem : id ∈ reported (step db sweep).2 := by rw [hret]; exact hid
    obtain ⟨⟨r, hr, hs⟩, r', hr', hs'⟩ := reported_row hmem
    refine ⟨?_, by rw [statusOf, hr', Option.map_some, hs']⟩
    rw [statusOf, hr, Option.map_some]
    intro he
    rw [Option.some.inj he] at hs
    cases hs
  · rintro ⟨hne, ho⟩
    obtain ⟨r', hr', hs'⟩ := Option.map_eq_some_iff.1 ho
    rcases step_sweep db hop with ⟨⟨e, he⟩, -⟩ | ⟨_, expiresIso, hret', hget, -, hmem⟩
    · rw [hret] at he
      cases he
    · rw [hret'] at hret
      cases hret
      have hr'' := hr'
      rw [hget] at hr''
      obtain ⟨r, hr, -⟩ := Option.map_eq_some_iff.1 hr''
      refine (hmem id).2 ⟨r, hr, orphanable_of_orphaned hop hr hr' (fun hs => hne ?_) hs'⟩
      rw [statusOf, hr, Option.map_some, hs]

end Sweep

/-- **Lease fencing.**  Let a sweep run at database time `t` after any calls of any instances, all with the lease `L`
and a database clock that never goes backwards.
It orphans a row only if the row was open, its id was not confirmed alive, and its deadline is NULL or none of the
calls touched it within `L` of `t`.
It leaves a row alone that is not open, or that is not confirmed and whose deadline has not passed.
It reports exactly the rows it orphans, each once; and without eviction no id is reported twice in the whole run. -/
theorem lease_fencing (L : ℤ) (calls : List Call) (sweep : Call) (ttl : ℤ) (grace : ℕ) (live : List String)
    (hop : sweep.op = .recoverStaleJobs ttl grace live) (hL : ∀ c ∈ calls ++ [sweep], UsesLease L c)
    (hclock : (calls ++ [sweep]).Pairwise fun a b => a.now.db ≤ b.now.db) :
    (∀ id r r', (Run.final step Db.empty calls).jobs.get id = some r →
        (Run.final step Db.empty (calls ++ [sweep])).jobs.get id = some r' → r.status ≠ .orphaned →
        r'.status = .orphaned →
        (r.status = .queued ∨ r.status = .running) ∧ id ∉ live ∧
          (r.leaseDeadline = none ∨ ∀ before call after, calls = before ++ call :: after →
            Touches (Run.final step Db.empty before) call id →
            ¬((sweep.now.db : ℤ) - L ≤ call.now.db ∧ call.now.db ≤ sweep.now.db))) ∧
    (∀ id r, (Run.final step Db.empty calls).jobs.get id = some r →
        (r.status.isOpen = false ∨ id ∉ live ∧ ∃ d, r.leaseDeadline = some d ∧ (sweep.now.db : ℤ) ≤ d) →
        (Run.final step Db.empty (calls ++ [sweep])).jobs.get id = some r) ∧
    (∀ orphaned, (step (Run.final step Db.empty calls) sweep).2 = .ok (.snapshots orphaned) →
        (orphaned.map OrphanedJobSnapshot.id).Nodup ∧
        ∀ id, id ∈ orphaned.map OrphanedJobSnapshot.id ↔
          statusOf (Run.final step Db.empty calls) id ≠ some .orphaned ∧
            statusOf (Run.final step Db.empty (calls ++ [sweep])) id = some .orphaned) ∧
    ((∀ c ∈ calls ++ [sweep], c.op ≠ .evictExpired) →
        ((Run.outputs step Db.empty (calls ++ [sweep])).flatMap reported).Nodup) := by
  have hleased : ∀ id, Leased L calls id := fun id =>
    leased_run (fun c hc => hL c (by simp [hc])) (List.pairwise_append.1 hclock).1
  refine ⟨fun id r r' hr hr' hne ho => ?_, fun id r hr h => ?_, fun orphaned hret => ⟨?_, fun id => ?_⟩,
    fun hev => (swept_run hev).1⟩
  · rw [Run.final_concat] at hr'
    obtain ⟨hs, hlt, -, hlive⟩ := orphanable_iff.1 (orphanable_of_orphaned hop hr hr' hne ho)
    obtain ⟨d, hd, htouch⟩ := hleased id r hr hs
    refine ⟨?_, Table.key_of_get hr ▸ hlive, Or.inr fun before call after hsplit ht => ?_⟩
    · cases hst : r.status <;> simp_all [JobStoreStatus.isOpen]
    · have := htouch before call after hsplit ht
      have := hlt d hd
      omega
  · rw [Run.final_concat]
    refine kept_by_sweep hop hr (h.imp_right fun hlease => ?_)
    obtain ⟨hlive, d, hd, hle⟩ := hlease
    refine ⟨hlive, ?_⟩
    rw [← Bool.not_eq_true, orphanable_iff]
    rintro ⟨-, hlt, -⟩
    have := hlt d hd
    omega
  · have := nodup_reported (Run.final step Db.empty calls) sweep
    rwa [hret] at this
  · rw [Run.final_concat]
    exact reported_iff hop hret id

/-- A job admitted at 0 with a lease of 1000 is orphaned by a sweep at 2000: nothing touched it from 1000 on. -/
theorem lease_fencing_expired :
    let cfg : Config := ⟨none, 0, 1000, IsoTime.isoDateParse⟩
    let start : Call := ⟨cfg, ⟨0, 0, by decide⟩, .recordStart (.plain "job" "1970-01-01T00:00:00.000Z")⟩
    let sweep : Call := ⟨cfg, ⟨2000, 2000, by decide⟩, .recoverStaleJobs 1000 0 []⟩
    statusOf (Run.final step Db.empty [start, sweep]) "job" = some .orphaned ∧
      ∀ before call after, [start] = before ++ call :: after →
        Touches (Run.final step Db.empty before) call "job" →
          ¬((sweep.now.db : ℤ) - 1000 ≤ call.now.db ∧ call.now.db ≤ sweep.now.db) := by
  intro cfg start sweep
  have hfence := lease_fencing 1000 [start] sweep 1000 0 [] rfl
    (by
      intro c hc
      rcases List.mem_cons.1 hc with rfl | hc
      · exact ⟨rfl, fun _ _ _ h => by cases h⟩
      · rw [List.mem_singleton.1 hc]
        exact ⟨rfl, fun _ _ _ h => by cases h; rfl⟩)
    (by simp [start, sweep])
  refine ⟨by decide +kernel, ?_⟩
  have hrow := (hfence.1 "job" (startRow cfg start.now (.plain "job" "1970-01-01T00:00:00.000Z"))
    (setOrphaned sweep.now.nowIso FAR_FUTURE_ISO
      (startRow cfg start.now (.plain "job" "1970-01-01T00:00:00.000Z")))
    (by decide +kernel) (by decide +kernel) (by decide +kernel) rfl).2.2
  exact hrow.resolve_left (by decide +kernel)

/-- A completion may move a row to orphaned, and no sweep reports it. -/
theorem orphaned_unreported :
    let cfg : Config := ⟨none, 0, 1000, IsoTime.isoDateParse⟩
    let start : Call := ⟨cfg, ⟨0, 0, by decide⟩, .recordStart (.plain "job" "1970-01-01T00:00:00.000Z")⟩
    let complete : Call :=
      ⟨cfg, ⟨1, 1, by decide⟩, .recordComplete (.plain "job" .orphaned "1970-01-01T00:00:00.001Z")⟩
    let sweep : Call := ⟨cfg, ⟨2000, 2000, by decide⟩, .recoverStaleJobs 1000 0 []⟩
    statusOf (Run.final step Db.empty [start]) "job" = some .queued ∧
      statusOf (Run.final step Db.empty [start, complete]) "job" = some .orphaned ∧
      (Run.outputs step Db.empty [start, complete, sweep]).flatMap reported = [] := by
  decide +kernel

end LlmGateway.JobStore
