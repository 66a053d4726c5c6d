import Mathlib.Data.Rat.Floor
import LlmGateway.JobStore.JobRows

/-!
# Retention

* `Call.Finishes` — the writers finish their jobs by the clock of the run, at `T` or later;
* `Settled`, `RowOk`, `rowOk_run` — the expiry of a row is the sentinel while it is open, and its finish plus the
  retention once it is not;
* `expiry_lt_iff` — when the text of an expiry is before the text of the clock;
* `Retained`, `EvictsSafely`, `ShortRetention` — what a deleted row is promised, and the condition for it;
* `evicts_safely_iff` — an eviction keeps the promise exactly under the condition;
* `retention_safety` — the same of every run from the empty tables.
-/

namespace LlmGateway.JobStore

open LlmGateway.Lib LlmGateway.Lib.IsoTime

variable {r : ℚ} {T : ℕ} {db : Db} {id : String} {call : Call} {row : JobRecord}

/-! ## The expiry of a row -/

/-- The store retains for `r`, and whatever the operation finishes is finished at `T` or later by the clock of the run. -/
def Call.Finishes (r : ℚ) (T : ℕ) (call : Call) : Prop :=
  call.cfg.retentionMs = some r ∧ T ≤ call.now.date ∧
    ∀ input, call.op = .recordComplete input → ∃ f : ℕ, T ≤ f ∧ f ≤ call.now.date ∧ input.finishedAt = isoText f

/-- The row finished at `f` and expires when the retention is over. -/
def Settled (r : ℚ) (f : ℕ) (row : JobRecord) : Prop :=
  row.finishedAt = some (isoText f) ∧ (f : ℤ) + r ≤ maxTime ∧ row.expiresAt = isoText (trunc (f + r))

/-- **The expiry follows the status**: the sentinel while the row is open, then the end of its retention. -/
def RowOk (r : ℚ) (T : ℕ) (row : JobRecord) : Prop :=
  (row.status.isOpen = true → row.finishedAt = none ∧ row.expiresAt = FAR_FUTURE_ISO) ∧
    (row.status.isOpen = false → ∃ f : ℕ, T ≤ f ∧ Settled r f row)

/-- What an expiry that could be written is. -/
theorem settled_of_expiry {f : ℕ} {expiresAt : String} (h : retentionExpiryAt f (some r) = .ok expiresAt) :
    (f : ℤ) + r ≤ maxTime ∧ expiresAt = isoText (trunc (f + r)) := by
  unfold retentionExpiryAt dateIso at h
  dsimp only at h
  split at h
  · rename_i hle
    cases h
    exact ⟨(abs_le.1 hle).2, by simp⟩
  · cases h

/-- The expiry of a finish that was written as a text. -/
theorem retentionExpiryIso_isoText {cfg : Config} {f : ℕ} (hr : cfg.retentionMs = some r) (hf : (f : ℤ) ≤ maxTime) :
    retentionExpiryIso cfg (isoText f) = retentionExpiryAt f (some r) := by
  have habs : |(f : ℤ)| ≤ maxTime := by rwa [abs_of_nonneg (Int.natCast_nonneg f)]
  have hiso : toISOString f = some (isoText f) := if_pos habs
  have hparse := cfg.dateParse.parse_toISOString f (isoText f) hiso
  unfold retentionExpiryIso retentionExpiryAt
  rw [hr]
  dsimp only
  rw [hparse]

theorem rowOk_edited {row' : JobRecord} (h : RowOk r T row) (he : Edited row row') : RowOk r T row' := by
  rw [he]
  exact h

/-- Every move of a row keeps the expiry tied to the status. -/
theorem rowOk_move {o o' : Option JobRecord} (hcall : call.Finishes r T) (h : ∀ row, o = some row → RowOk r T row)
    (hm : JobMove call id o o') : ∀ row, o' = some row → RowOk r T row := by
  obtain ⟨hret, hT, hfinish⟩ := hcall
  intro row' ho
  cases hm with
  | same => exact h row' ho
  | admitted input =>
    cases ho
    exact ⟨fun _ => ⟨rfl, rfl⟩, nofun⟩
  | launched row pid hop hs =>
    cases ho
    have hopen := (h row rfl).1 (by rw [hs]; rfl)
    exact ⟨fun _ => hopen, nofun⟩
  | beat row =>
    cases ho
    exact h row rfl
  | advanced row =>
    cases ho
    exact h row rfl
  | orphaned row ttl grace live expiresIso hop hw hexp =>
    cases ho
    have hnone := ((h row rfl).1 (orphanable_iff.1 hw).1).1
    rw [hret] at hexp
    obtain ⟨hle, rfl⟩ := settled_of_expiry hexp
    refine ⟨nofun, fun _ => ⟨call.now.date, hT, ?_, hle, rfl⟩⟩
    show some (row.finishedAt.getD call.now.nowIso) = _
    rw [hnone]
    rfl
  | edited row row' he =>
    cases ho
    exact rowOk_edited (h row rfl) he
  | completed row input expiresAt hop hid hs hexp =>
    cases ho
    obtain ⟨f, hTf, hf, hiso⟩ := hfinish input hop
    have hfmax : (f : ℤ) ≤ maxTime := le_trans (Int.ofNat_le.2 hf) call.now.valid
    rw [hiso, retentionExpiryIso_isoText hret hfmax] at hexp
    obtain ⟨hle, rfl⟩ := settled_of_expiry hexp
    have hclosed : (setComplete input (isoText (trunc (f + r))) row).status.isOpen = false := by
      show input.status.toStatus.isOpen = false
      cases input.status <;> rfl
    refine ⟨fun hc => ?_, fun _ => ⟨f, hTf, ?_, hle, rfl⟩⟩
    · rw [hclosed] at hc
      cases hc
    · show some input.finishedAt = _
      rw [hiso]
  | evicted row => cases ho

theorem rowOk_run {calls : List Call} (hcalls : ∀ call ∈ calls, call.Finishes r T)
    (h : ∀ row, db.jobs.get id = some row → RowOk r T row) :
    ∀ row, (Run.final step db calls).jobs.get id = some row → RowOk r T row :=
  Run.final_induction_along (C := fun _ call => call.Finishes r T)
    (P := fun db : Db => ∀ row, db.jobs.get id = some row → RowOk r T row)
    (fun db call hcall h => rowOk_move hcall h (step_move db call id)) h (Run.along_of_forall hcalls)

/-! ## The comparison -/

theorem trunc_of_nonneg {q : ℚ} (h : 0 ≤ q) : trunc q = ⌊q⌋ := if_pos h

/-- The texts are compared as the instants are, a text after the year 9999 apart, which is before all others. -/
theorem expiry_lt_iff {f n : ℕ} (hr : 0 < r) (hf : (f : ℤ) + r ≤ maxTime) (hn : (n : ℤ) ≤ maxTime) :
    isoText (trunc (f + r)) < isoText n ↔
      ((f : ℚ) + r < year10000 ↔ (n : ℤ) < year10000) ∧ ⌊(f : ℚ) + r⌋ < n ∨
        ¬(f : ℚ) + r < year10000 ∧ (n : ℤ) < year10000 := by
  have hpos : 0 ≤ (f : ℚ) + r := by positivity
  rw [trunc_of_nonneg hpos]
  have hfloor : ⌊(f : ℚ) + r⌋ < year10000 ↔ (f : ℚ) + r < year10000 := Int.floor_lt
  have hfloor0 : 0 ≤ ⌊(f : ℚ) + r⌋ := Int.floor_nonneg.2 hpos
  have hmax : ⌊(f : ℚ) + r⌋ ≤ maxTime := by
    have hle : (⌊(f : ℚ) + r⌋ : ℚ) ≤ maxTime := (Int.floor_le _).trans (by exact_mod_cast hf)
    exact_mod_cast hle
  have hzero : yearZero ≤ 0 := by decide
  rw [← hfloor]
  generalize ⌊(f : ℚ) + r⌋ = e at hfloor0 hmax ⊢
  by_cases he : e < year10000 <;> by_cases hn' : (n : ℤ) < year10000
  · rw [isoText_lt_iff ⟨by omega, he⟩ ⟨by omega, hn'⟩]
    simp [he, hn']
  · have hlt : isoText n < isoText e := isoText_signed_lt (fun hc => hn' hc.2) ⟨by omega, he⟩
    simp [he, hn', hlt.not_gt]
  · have hlt : isoText e < isoText n := isoText_signed_lt (fun hc => he hc.2) ⟨by omega, hn'⟩
    simp [he, hn', hlt]
  · rw [isoText_lt_iff_of_wide (not_lt.1 he) (not_lt.1 hn') hmax hn]
    simp [he, hn']

/-- The sentinel is never before the clock. -/
theorem not_farFuture_lt (n : ℕ) : ¬FAR_FUTURE_ISO < isoText n := by
  have hiso : FAR_FUTURE_ISO = isoText 253402300799999 := by decide +kernel
  rw [hiso]
  by_cases hn : (n : ℤ) < year10000
  · rw [isoText_lt_iff (by decide) ⟨by simp only [yearZero]; omega, hn⟩]
    simp only [year10000] at hn
    omega
  · have hlt : isoText n < isoText 253402300799999 := isoText_signed_lt (fun hc => hn hc.2) (by decide)
    exact hlt.not_gt

/-! ## Evictions -/

/-- A Kit row whose finalization is not acknowledged, or a row whose artifact is not cleaned up. -/
def pinned (row : JobRecord) : Bool :=
  (row.kitExecution.isSome && !row.kitTerminalFinalized) || row.mcpArtifactCleanupPending

/-- What a row that is deleted at `t` is promised. -/
structure Retained (r : ℚ) (t : ℕ) (row : JobRecord) : Prop where
  closed : row.status.isOpen = false
  elapsed : ∃ f : ℕ, row.finishedAt = some (isoText f) ∧ (f : ℚ) + r ≤ t
  unpinned : pinned row = false

/-- An eviction deletes such rows only. -/
def EvictsSafely (r : ℚ) (db : Db) (call : Call) : Prop :=
  call.op = .evictExpired → ∀ id row, db.jobs.get id = some row → (step db call).1.jobs.get id = none →
    Retained r call.now.date row

/-- An eviction before the year 10000 finds no unpinned row that expires in that year or later. -/
def ShortRetention (r : ℚ) (db : Db) (call : Call) : Prop :=
  call.op = .evictExpired → (call.now.date : ℤ) < year10000 → ∀ id row, db.jobs.get id = some row →
    row.status.isOpen = false → pinned row = false →
      ∃ f : ℕ, row.finishedAt = some (isoText f) ∧ (f : ℚ) + r < year10000

theorem expired_iff {nowIso : String} : expired nowIso row = true ↔ row.expiresAt < nowIso ∧ pinned row = false := by
  unfold expired pinned
  cases row.kitExecution <;> cases row.kitTerminalFinalized <;> simp

theorem evicted_iff (hop : call.op = .evictExpired) (hret : call.cfg.retentionMs = some r)
    (hrow : db.jobs.get id = some row) :
    (step db call).1.jobs.get id = none ↔ row.expiresAt < call.now.nowIso ∧ pinned row = false := by
  have hstep : (step db call).1.jobs = db.jobs.delete (expired call.now.nowIso) := by
    simp [step, perform, hop, evictExpired, hret]
  rw [hstep, Table.get_delete, hrow, ← expired_iff]
  cases he : expired call.now.nowIso row <;> simp [Option.filter, he]

/-- An open row is not deleted. -/
theorem closed_of_evicted (hop : call.op = .evictExpired) (hret : call.cfg.retentionMs = some r)
    (hrow : db.jobs.get id = some row) (hok : RowOk r T row) (hgone : (step db call).1.jobs.get id = none) :
    row.status.isOpen = false := by
  rw [← Bool.not_eq_true]
  intro hopen
  have hlt := ((evicted_iff hop hret hrow).1 hgone).1
  rw [(hok.1 hopen).2] at hlt
  exact not_farFuture_lt _ hlt

/-- Of a row that is deleted, the retention is over unless its expiry is in the year 10000 or later. -/
theorem elapsed_of_evicted {f : ℕ} (hr : 0 < r) (hop : call.op = .evictExpired)
    (hret : call.cfg.retentionMs = some r) (hrow : db.jobs.get id = some row) (hf : Settled r f row)
    (hgone : (step db call).1.jobs.get id = none)
    (hshort : (f : ℚ) + r < year10000 ∨ ¬(call.now.date : ℤ) < year10000) : (f : ℚ) + r ≤ call.now.date := by
  obtain ⟨-, hmax, hexpires⟩ := hf
  have hlt := ((evicted_iff hop hret hrow).1 hgone).1
  rw [hexpires, Clock.nowIso, expiry_lt_iff hr hmax call.now.valid] at hlt
  rcases hlt with ⟨-, hfloor⟩ | ⟨hwide, hnarrow⟩
  · have hlt : (f : ℚ) + r < call.now.date := by
      rw [Int.floor_lt] at hfloor
      exact_mod_cast hfloor
    exact hlt.le
  · rcases hshort with h | h
    · exact absurd h hwide
    · exact absurd hnarrow h

/-- The text of an instant before the year 10000 is no other instant's. -/
theorem eq_of_isoText {f g : ℕ} (hg : (g : ℤ) < year10000) (h : isoText f = isoText g) : f = g := by
  have hnarrow : Narrow g := ⟨by simp only [yearZero]; omega, hg⟩
  by_cases hf : (f : ℤ) < year10000
  · exact_mod_cast isoText_inj ⟨by simp only [yearZero]; omega, hf⟩ hnarrow h
  · have hlt := isoText_signed_lt (fun hc : Narrow f => hf hc.2) hnarrow
    exact absurd h hlt.ne

/-- **An eviction keeps the promise exactly when no unpinned row expires in the year 10000 or later.** -/
theorem evicts_safely_iff (hr : 0 < r) (hret : call.cfg.retentionMs = some r)
    (hok : ∀ id row, db.jobs.get id = some row → RowOk r T row) :
    EvictsSafely r db call ↔ ShortRetention r db call := by
  constructor
  · intro h hop hnow id row hrow hclosed hpin
    obtain ⟨f, -, hf⟩ := (hok id row hrow).2 hclosed
    by_contra hno
    have hwide : ¬(f : ℚ) + r < year10000 := fun hc => hno ⟨f, hf.1, hc⟩
    have hgone : (step db call).1.jobs.get id = none := by
      rw [evicted_iff hop hret hrow, hf.2.2, Clock.nowIso, expiry_lt_iff hr hf.2.1 call.now.valid]
      exact ⟨Or.inr ⟨hwide, hnow⟩, hpin⟩
    obtain ⟨g, hg, helapsed⟩ := (h hop id row hrow hgone).elapsed
    have hgdate : (g : ℚ) ≤ call.now.date := by linarith
    have hgnow : (g : ℤ) < year10000 := lt_of_le_of_lt (by exact_mod_cast hgdate) hnow
    have hfg : f = g := eq_of_isoText hgnow (Option.some.inj (hf.1.symm.trans hg))
    subst hfg
    have hdate : (call.now.date : ℚ) < year10000 := by exact_mod_cast hnow
    exact hwide (lt_of_le_of_lt helapsed hdate)
  · intro h hop id row hrow hgone
    have hclosed := closed_of_evicted hop hret hrow (hok id row hrow) hgone
    have hpin := ((evicted_iff hop hret hrow).1 hgone).2
    obtain ⟨f, -, hf⟩ := (hok id row hrow).2 hclosed
    refine ⟨hclosed, ⟨f, hf.1, elapsed_of_evicted hr hop hret hrow hf hgone ?_⟩, hpin⟩
    by_cases hnow : (call.now.date : ℤ) < year10000
    · obtain ⟨g, hg, hshort⟩ := h hop hnow id row hrow hclosed hpin
      have hgq : (g : ℚ) < year10000 := by linarith
      have hfg : f = g := eq_of_isoText (by exact_mod_cast hgq) (Option.some.inj (hf.1.symm.trans hg))
      exact Or.inl (hfg ▸ hshort)
    · exact Or.inr hnow

/-! ## Runs -/

/-- Only an eviction deletes a row, and only one that is not pinned. -/
theorem gone_iff_evicted (hrow : db.jobs.get id = some row) (hgone : (step db call).1.jobs.get id = none) :
    call.op = .evictExpired ∧ pinned row = false := by
  have hm := step_move db call id
  rw [hrow, hgone] at hm
  cases hm with
  | evicted _ hop hret hw => exact ⟨hop, (expired_iff.1 hw).2⟩

theorem rowOk_empty (id : String) : ∀ row, Db.empty.jobs.get id = some row → RowOk r T row := by
  intro row h
  cases h

/-- **Retention safety.**  In every run from the empty tables of a store that retains for `r`, whose jobs finish by the
clock of the run:

* a row that disappears is closed, acknowledged if it is a Kit row, and without a pending cleanup;
* every eviction deletes only rows whose retention is over since they finished exactly when no eviction before the
  year 10000 finds an unpinned row that expires in that year or later;
* a row that such an eviction deletes was already closed at every step less than `r` before it, provided that nothing
  since that step finished before it. -/
theorem retention_safety (r : ℚ) (hr : 0 < r) (calls : List Call) (hcalls : ∀ call ∈ calls, call.Finishes r 0) :
    (∀ before call after, calls = before ++ call :: after → ∀ id row,
      (Run.final step Db.empty before).jobs.get id = some row →
      (Run.final step Db.empty (before ++ [call])).jobs.get id = none →
        row.status.isOpen = false ∧ pinned row = false) ∧
    (Run.Along step (EvictsSafely r) Db.empty calls ↔ Run.Along step (ShortRetention r) Db.empty calls) ∧
    ∀ before c between evict after, calls = before ++ c :: (between ++ evict :: after) →
      (∀ call ∈ c :: between, call.Finishes r c.now.date) →
      ShortRetention r (Run.final step Db.empty (before ++ c :: between)) evict → ∀ id row,
        (∀ row, (Run.final step Db.empty before).jobs.get id = some row → row.status.isOpen = true) →
        (Run.final step Db.empty (before ++ c :: between)).jobs.get id = some row →
        (Run.final step Db.empty (before ++ c :: between ++ [evict])).jobs.get id = none →
          (c.now.date : ℚ) + r ≤ evict.now.date := by
  refine ⟨?_, ?_, ?_⟩
  · rintro before call after rfl id row hrow hgone
    rw [Run.final_concat] at hgone
    obtain ⟨hop, hpin⟩ := gone_iff_evicted hrow hgone
    have hcall := hcalls call (by simp)
    have hok := rowOk_run (fun call hc => hcalls call (by simp [hc])) (rowOk_empty id) row hrow
    exact ⟨closed_of_evicted hop hcall.1 hrow hok hgone, hpin⟩
  · refine Run.along_congr (P := fun db : Db => ∀ id row, db.jobs.get id = some row → RowOk r 0 row)
      (fun db call hcall h id => rowOk_move hcall (h id) (step_move db call id))
      (fun db call hcall h => evicts_safely_iff hr hcall.1 h) rowOk_empty hcalls
  · rintro before c between evict after rfl hfinish hshort id row hopen hrow hgone
    rw [Run.final_concat] at hgone
    obtain ⟨hop, hpin⟩ := gone_iff_evicted hrow hgone
    have hevict := hcalls evict (by simp)
    have hbefore : ∀ row, (Run.final step Db.empty before).jobs.get id = some row → RowOk r c.now.date row := by
      intro row₀ hrow₀
      have hok := rowOk_run (fun call hc => hcalls call (by simp [hc])) (rowOk_empty id) row₀ hrow₀
      refine ⟨hok.1, fun hclosed => ?_⟩
      rw [hopen row₀ hrow₀] at hclosed
      cases hclosed
    rw [Run.final_append] at hrow hgone hshort
    have hok := rowOk_run hfinish hbefore row hrow
    have hclosed := closed_of_evicted hop hevict.1 hrow hok hgone
    obtain ⟨f, hcf, hf⟩ := hok.2 hclosed
    have helapsed : (f : ℚ) + r ≤ evict.now.date := by
      refine elapsed_of_evicted hr hop hevict.1 hrow hf hgone ?_
      by_cases hnow : (evict.now.date : ℤ) < year10000
      · obtain ⟨g, hg, hlt⟩ := hshort hop hnow id row hrow hclosed hpin
        have hgq : (g : ℚ) < year10000 := by linarith
        have hfg : f = g := eq_of_isoText (by exact_mod_cast hgq) (Option.some.inj (hf.1.symm.trans hg))
        exact Or.inl (hfg ▸ hlt)
      · exact Or.inr hnow
    have hcf' : (c.now.date : ℚ) ≤ f := by exact_mod_cast hcf
    linarith

/-- A job that finishes and is evicted when its retention of a day is over. -/
theorem retention_safety_day :
    let cfg : Config := ⟨some 86400000, 0, 30000, isoDateParse⟩
    let start : Call := ⟨cfg, ⟨0, 0, by decide⟩, .recordStart (.plain "job" (isoText (0 : ℕ)))⟩
    let complete : Call := ⟨cfg, ⟨0, 0, by decide⟩, .recordComplete (.plain "job" .completed (isoText (0 : ℕ)))⟩
    let evict : Call := ⟨cfg, ⟨86400001, 86400001, by decide⟩, .evictExpired⟩
    (∀ call ∈ [start, complete, evict], call.Finishes 86400000 0) ∧
      (Run.final step Db.empty [start, complete]).jobs.get "job" ≠ none ∧
      (Run.final step Db.empty [start, complete, evict]).jobs.get "job" = none ∧
      ∀ row, (Run.final step Db.empty [start, complete]).jobs.get "job" = some row → row.status.isOpen = false := by
  intro cfg start complete evict
  have hcalls : ∀ call ∈ [start, complete, evict], call.Finishes 86400000 0 := by
    intro call hcall
    simp only [List.mem_cons, List.not_mem_nil, or_false] at hcall
    rcases hcall with rfl | rfl | rfl
    · exact ⟨rfl, le_refl _, fun _ hop => Op.noConfusion hop⟩
    · refine ⟨rfl, le_refl _, fun input hop => ⟨0, le_refl _, le_refl _, ?_⟩⟩
      rw [← Op.recordComplete.inj hop, JobCompletionInput.plain]
    · exact ⟨rfl, Nat.zero_le _, fun _ hop => Op.noConfusion hop⟩
  have hgone : (Run.final step Db.empty [start, complete, evict]).jobs.get "job" = none := by decide +kernel
  refine ⟨hcalls, by decide +kernel, hgone, fun row hrow => ?_⟩
  exact ((retention_safety 86400000 (by norm_num) _ hcalls).1 [start, complete] evict [] rfl "job" row hrow hgone).1

/-- With a retention of three million days the expiry is in the year 10183, and an eviction a millisecond after the job
finished deletes it: "at least the retention has passed" fails. -/
theorem evicted_at_once :
    let cfg : Config := ⟨some (3000000 * 86400000), 0, 30000, isoDateParse⟩
    let start : Call := ⟨cfg, ⟨0, 0, by decide⟩, .recordStart (.plain "job" (isoText 0))⟩
    let complete : Call := ⟨cfg, ⟨0, 0, by decide⟩, .recordComplete (.plain "job" .completed (isoText 0))⟩
    let evict : Call := ⟨cfg, ⟨1, 1, by decide⟩, .evictExpired⟩
    Run.outputs step Db.empty [start, complete, evict] = [.ok .unit, .ok (.bool true), .ok (.count 1)] ∧
      (Run.final step Db.empty [start, complete]).jobs.get "job" ≠ none ∧
      (Run.final step Db.empty [start, complete, evict]).jobs.get "job" = none ∧
      ¬((evict.now.date : ℚ) - complete.now.date ≥ 3000000 * 86400000) := by
  refine ⟨by decide +kernel, by decide +kernel, by decide +kernel, by norm_num⟩

end LlmGateway.JobStore
