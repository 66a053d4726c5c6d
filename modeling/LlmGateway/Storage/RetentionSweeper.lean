import Mathlib.Data.Nat.Find
import Mathlib.Tactic.Linarith

/-!
# The retention sweep

`RetentionSweeper` (storage/retention-sweeper.ts) and the types of its report (storage/retention.ts).

* `Store` — the rows of a subsystem that are older than the bound, and the calls that fail; no row becomes older during a sweep;
* `sweep` — a sweep with its report;
* `Truthful` — the report of a subsystem tells what happened to its rows.
-/

namespace LlmGateway.Storage.Retention

/-! ## Stores -/

/-- `evictFails n` is the error of the eviction `n`, if it fails; it removes nothing then. -/
structure Store where
  eligible : ℕ
  calls : ℕ
  countFails : Option String
  evictFails : ℕ → Option String

/-- `evictExpiredRequests`, `evictWedgedValidationRuns` -/
def Store.evict (s : Store) (limit : ℕ) : Except String ℕ × Store :=
  match s.evictFails s.calls with
  | some e => (.error e, { s with calls := s.calls + 1 })
  | none => (.ok (min limit s.eligible), { s with eligible := s.eligible - min limit s.eligible, calls := s.calls + 1 })

/-! ## The report -/

structure RetentionSubsystemOutcome where
  eligible : Option ℕ
  deleted : ℕ
  budgetExhausted : Bool
  error : Option String
deriving DecidableEq

def unsweptOutcome : RetentionSubsystemOutcome := ⟨none, 0, false, none⟩

/-- `failureMessage` is the formatter of the options; an error is given by its message. -/
def failed (error : String) (failureMessage : Option (String → String)) : RetentionSubsystemOutcome :=
  ⟨none, 0, false, some ((failureMessage.map fun f => f error).getD error)⟩

structure RetentionSweepReport where
  at_ : ℕ
  jobs : RetentionSubsystemOutcome
  requests : RetentionSubsystemOutcome
  wedgedValidationRuns : RetentionSubsystemOutcome
deriving DecidableEq

def emptyRetentionSweepReport (at_ : ℕ) : RetentionSweepReport := ⟨at_, unsweptOutcome, unsweptOutcome, unsweptOutcome⟩

/-! ## A sweep -/

/-- The rows deleted and the full batches, when `left` batches of the budget are left. -/
def evictBatches (batchRows : ℕ) : ℕ → ℕ → ℕ → Store → Except String (ℕ × ℕ) × Store
  | 0, batches, deleted, s => (.ok (deleted, batches), s)
  | left + 1, batches, deleted, s =>
    match s.evict batchRows with
    | (.error e, s) => (.error e, s)
    | (.ok removed, s) =>
      if removed < batchRows then (.ok (deleted + removed, batches), s)
      else evictBatches batchRows left (batches + 1) (deleted + removed) s

structure Options where
  batchRows : ℕ
  maxBatches : ℕ
  failureMessage : Option (String → String)

def sweepSubsystem (o : Options) (destructive : Bool) (s : Store) : RetentionSubsystemOutcome × Store :=
  match s.countFails with
  | some e => (failed e o.failureMessage, s)
  | none =>
    if !destructive then (⟨some s.eligible, 0, false, none⟩, s)
    else
      match evictBatches o.batchRows o.maxBatches 0 0 s with
      | (.ok (deleted, batches), s') => (⟨some s.eligible, deleted, o.maxBatches ≤ batches, none⟩, s')
      | (.error e, s') => (failed e o.failureMessage, s')

def sweepRequests (o : Options) (destructive : Bool) (recorder : Store) : RetentionSubsystemOutcome × Store :=
  sweepSubsystem o destructive recorder

def sweepWedgedRuns (o : Options) (destructive : Bool) (validationRuns : Store) : RetentionSubsystemOutcome × Store :=
  sweepSubsystem o destructive validationRuns

/-- The bounds, in days. -/
structure RetentionPolicy where
  requests : Option ℕ
  wedgedValidationRuns : Option ℕ

/-- `validationRuns` is absent where the backend persists no runs. -/
structure Stores where
  recorder : Store
  validationRuns : Option Store

def run (o : Options) (destructive : Bool) (policy : RetentionPolicy) (now : ℕ) (stores : Stores) :
    RetentionSweepReport × Stores :=
  let report := emptyRetentionSweepReport now
  let requests :=
    match policy.requests with
    | none => (report.requests, stores.recorder)
    | some _ => sweepRequests o destructive stores.recorder
  let runs :=
    match policy.wedgedValidationRuns, stores.validationRuns with
    | some _, some store => ((sweepWedgedRuns o destructive store).1, some (sweepWedgedRuns o destructive store).2)
    | _, store => (report.wedgedValidationRuns, store)
  ({ report with requests := requests.1, wedgedValidationRuns := runs.1 }, ⟨requests.2, runs.2⟩)

structure RetentionSweeper where
  options : Options
  policy : RetentionPolicy
  inFlight : Bool
  last : Option RetentionSweepReport

/-- A sweep that comes while another is in flight is answered with the last report. -/
def RetentionSweeper.sweep (sw : RetentionSweeper) (now : ℕ) (stores : Stores) :
    RetentionSweepReport × RetentionSweeper × Stores :=
  if sw.inFlight then (sw.last.getD (emptyRetentionSweepReport now), sw, stores)
  else
    let (report, stores) := run sw.options true sw.policy now stores
    (report, { sw with last := some report }, stores)

/-! ## What a report tells -/

/-- The budget was used up and no call failed. -/
def StoppedByBudget (o : Options) (before after : Store) (outcome : RetentionSubsystemOutcome) : Prop :=
  after.calls = before.calls + o.maxBatches ∧ outcome.error = none

/-- The count is that of the rows removed, and the flag says whether the budget left rows. -/
structure Truthful (o : Options) (before after : Store) (outcome : RetentionSubsystemOutcome) : Prop where
  deleted : outcome.deleted + after.eligible = before.eligible
  budgetExhausted : outcome.budgetExhausted = true ↔ StoppedByBudget o before after outcome ∧ 0 < after.eligible

/-- No call fails after rows have been removed, and the budget is not exactly the number of the rows. -/
def Plain (o : Options) (s : Store) : Prop :=
  s.countFails ≠ none ∨ s.evictFails s.calls ≠ none ∨
    ((∀ i < min o.maxBatches (s.eligible / o.batchRows + 1), s.evictFails (s.calls + i) = none) ∧
      s.eligible ≠ o.maxBatches * o.batchRows)

/-! ## The loop -/

section loop

variable {batchRows : ℕ}

theorem Store.evict_of_none {s : Store} (h : s.evictFails s.calls = none) (limit : ℕ) :
    s.evict limit =
      (.ok (min limit s.eligible), { s with eligible := s.eligible - min limit s.eligible, calls := s.calls + 1 }) := by
  rw [Store.evict, h]

theorem Store.evict_of_some {s : Store} {e : String} (h : s.evictFails s.calls = some e) (limit : ℕ) :
    s.evict limit = (.error e, { s with calls := s.calls + 1 }) := by
  rw [Store.evict, h]

/-- **No call fails**: the rows are gone, or the budget is. -/
theorem evictBatches_ok (hbatch : 0 < batchRows) (left batches deleted : ℕ) (s : Store)
    (h : ∀ i < min left (s.eligible / batchRows + 1), s.evictFails (s.calls + i) = none) :
    evictBatches batchRows left batches deleted s =
      (.ok (deleted + min s.eligible (left * batchRows), batches + min left (s.eligible / batchRows)),
        { s with
          eligible := s.eligible - min s.eligible (left * batchRows)
          calls := s.calls + min left (s.eligible / batchRows + 1) }) := by
  induction left generalizing batches deleted s with
  | zero => simp [evictBatches]
  | succ left ih =>
    have hfirst : s.evictFails s.calls = none := h 0 (by have := Nat.zero_le (s.eligible / batchRows); omega)
    rw [evictBatches, Store.evict_of_none hfirst]
    by_cases hshort : s.eligible < batchRows
    · have hmin : min batchRows s.eligible = s.eligible := by omega
      have hdiv : s.eligible / batchRows = 0 := Nat.div_eq_of_lt hshort
      have hall : min s.eligible ((left + 1) * batchRows) = s.eligible := by
        rw [Nat.add_mul, Nat.one_mul]
        omega
      simp only [hmin, hshort, if_true, hdiv, hall]
      simp
    · have hmin : min batchRows s.eligible = batchRows := by omega
      have hdiv : s.eligible / batchRows = (s.eligible - batchRows) / batchRows + 1 :=
        Nat.div_eq_sub_div hbatch (by omega)
      have hdeleted : min s.eligible ((left + 1) * batchRows) = batchRows + min (s.eligible - batchRows) (left * batchRows) := by
        rw [Nat.add_mul, Nat.one_mul]
        omega
      have hrest : ∀ i < min left ((s.eligible - batchRows) / batchRows + 1), s.evictFails (s.calls + 1 + i) = none := by
        intro i hi
        have := h (i + 1) (by omega)
        rwa [← Nat.add_assoc, Nat.add_right_comm] at this
      have hloop := ih (batches + 1) (deleted + batchRows)
        { s with eligible := s.eligible - batchRows, calls := s.calls + 1 } hrest
      simp only [hmin, lt_irrefl, if_false, hloop, hdeleted, hdiv]
      generalize (s.eligible - batchRows) / batchRows = q
      generalize min (s.eligible - batchRows) (left * batchRows) = d
      simp only [Prod.mk.injEq, Except.ok.injEq, Store.mk.injEq, and_true]
      omega

/-- **A call fails**, the first one after `t` full batches. -/
theorem evictBatches_error (hbatch : 0 < batchRows) (left batches deleted t : ℕ) (s : Store) {e : String}
    (ht : t < min left (s.eligible / batchRows + 1)) (hbefore : ∀ i < t, s.evictFails (s.calls + i) = none)
    (herror : s.evictFails (s.calls + t) = some e) :
    evictBatches batchRows left batches deleted s =
      (.error e, { s with eligible := s.eligible - t * batchRows, calls := s.calls + (t + 1) }) := by
  induction t generalizing left batches deleted s with
  | zero =>
    obtain ⟨left, rfl⟩ : ∃ n, left = n + 1 := ⟨left - 1, by omega⟩
    rw [evictBatches, Store.evict_of_some herror]
    simp
  | succ t ih =>
    obtain ⟨left, rfl⟩ : ∃ n, left = n + 1 := ⟨left - 1, by omega⟩
    have hfirst : s.evictFails s.calls = none := hbefore 0 (Nat.succ_pos t)
    have hfull : batchRows ≤ s.eligible := by
      by_contra hshort
      have := Nat.div_eq_of_lt (Nat.lt_of_not_le hshort)
      omega
    have hdiv : s.eligible / batchRows = (s.eligible - batchRows) / batchRows + 1 := Nat.div_eq_sub_div hbatch hfull
    have hmin : min batchRows s.eligible = batchRows := by omega
    rw [evictBatches, Store.evict_of_none hfirst]
    have hbefore' : ∀ i < t, s.evictFails (s.calls + 1 + i) = none := by
      intro i hi
      have := hbefore (i + 1) (by omega)
      rwa [← Nat.add_assoc, Nat.add_right_comm] at this
    have herror' : s.evictFails (s.calls + 1 + t) = some e := by
      rwa [← Nat.add_assoc, Nat.add_right_comm] at herror
    have hloop := ih left (batches + 1) (deleted + batchRows)
      { s with eligible := s.eligible - batchRows, calls := s.calls + 1 } (by simp only; omega) hbefore' herror'
    simp only [hmin, lt_irrefl, if_false, hloop]
    rw [Nat.add_mul, Nat.one_mul]
    simp only [Prod.mk.injEq, Store.mk.injEq, true_and, and_true]
    omega

end loop

/-! ## The report of a sweep -/

section sweep

variable {o : Options} {s : Store}

theorem sweepSubsystem_of_countFails {e : String} (h : s.countFails = some e) :
    sweepSubsystem o true s = (failed e o.failureMessage, s) := by
  rw [sweepSubsystem, h]

/-- **A sweep in which nothing fails.** -/
theorem sweepSubsystem_ok (hbatch : 0 < o.batchRows) (hcount : s.countFails = none)
    (h : ∀ i < min o.maxBatches (s.eligible / o.batchRows + 1), s.evictFails (s.calls + i) = none) :
    sweepSubsystem o true s =
      (⟨some s.eligible, min s.eligible (o.maxBatches * o.batchRows), decide (o.maxBatches ≤ s.eligible / o.batchRows), none⟩,
        { s with
          eligible := s.eligible - min s.eligible (o.maxBatches * o.batchRows)
          calls := s.calls + min o.maxBatches (s.eligible / o.batchRows + 1) }) := by
  have hexhausted : decide (o.maxBatches ≤ min o.maxBatches (s.eligible / o.batchRows)) =
      decide (o.maxBatches ≤ s.eligible / o.batchRows) := by
    rw [decide_eq_decide, le_min_iff]
    exact and_iff_right (Nat.le_refl _)
  rw [sweepSubsystem, hcount]
  simp only [Bool.not_true, Bool.false_eq_true, if_false, evictBatches_ok hbatch _ 0 0 s h, Nat.zero_add, hexhausted]
  rw [hcount]

/-- **A sweep that ends in an error** reports that nothing has been deleted. -/
theorem sweepSubsystem_error (hbatch : 0 < o.batchRows) (hcount : s.countFails = none) {t : ℕ} {e : String}
    (ht : t < min o.maxBatches (s.eligible / o.batchRows + 1)) (hbefore : ∀ i < t, s.evictFails (s.calls + i) = none)
    (herror : s.evictFails (s.calls + t) = some e) :
    sweepSubsystem o true s =
      (failed e o.failureMessage, { s with eligible := s.eligible - t * o.batchRows, calls := s.calls + (t + 1) }) := by
  rw [sweepSubsystem, hcount]
  simp only [Bool.not_true, Bool.false_eq_true, if_false, evictBatches_error hbatch _ 0 0 t s ht hbefore herror]
  rw [hcount]

theorem not_stoppedByBudget_failed (before after : Store) (e : String) :
    ¬StoppedByBudget o before after (failed e o.failureMessage) := by
  rintro ⟨-, h⟩
  cases h

/-- **When a subsystem is reported truthfully.** -/
theorem truthful_iff_plain (hbatch : 0 < o.batchRows) (hmax : 0 < o.maxBatches) (s : Store) :
    Truthful o s (sweepSubsystem o true s).2 (sweepSubsystem o true s).1 ↔ Plain o s := by
  cases hcount : s.countFails with
  | some e =>
    rw [sweepSubsystem_of_countFails hcount]
    refine iff_of_true ⟨Nat.zero_add _, iff_of_false nofun fun h => not_stoppedByBudget_failed s s e h.1⟩ (.inl ?_)
    rw [hcount]
    nofun
  | none =>
    have hnoCount : ¬s.countFails ≠ none := not_not.2 hcount
    have hstart : 0 < min o.maxBatches (s.eligible / o.batchRows + 1) := lt_min hmax (Nat.succ_pos _)
    by_cases hall : ∀ i < min o.maxBatches (s.eligible / o.batchRows + 1), s.evictFails (s.calls + i) = none
    · have hfirst : s.evictFails s.calls = none := hall 0 hstart
      have hplain : Plain o s ↔ s.eligible ≠ o.maxBatches * o.batchRows := by
        constructor
        · rintro (h | h | h)
          · exact absurd h hnoCount
          · exact absurd hfirst h
          · exact h.2
        · exact fun h => .inr (.inr ⟨hall, h⟩)
      have hdiv : o.maxBatches ≤ s.eligible / o.batchRows ↔ o.maxBatches * o.batchRows ≤ s.eligible :=
        Nat.le_div_iff_mul_le hbatch
      rw [hplain, sweepSubsystem_ok hbatch hcount hall]
      constructor
      · rintro ⟨-, hexhausted⟩ hexact
        have hleft := (hexhausted.1 (decide_eq_true (hdiv.2 hexact.ge))).2
        simp only [hexact] at hleft
        omega
      · intro hexact
        refine ⟨?_, ?_⟩
        · show min s.eligible _ + (s.eligible - min s.eligible _) = s.eligible
          omega
        · simp only [decide_eq_true_eq, StoppedByBudget, and_true, hdiv]
          constructor
          · intro hle
            have hlt := Nat.lt_of_le_of_ne hle (Ne.symm hexact)
            have := hdiv.2 hle
            omega
          · rintro ⟨-, hleft⟩
            omega
    · obtain ⟨t, ⟨ht, hfails⟩, hminimal⟩ :
          ∃ t, (t < min o.maxBatches (s.eligible / o.batchRows + 1) ∧ s.evictFails (s.calls + t) ≠ none) ∧
            ∀ i < t, ¬(i < min o.maxBatches (s.eligible / o.batchRows + 1) ∧ s.evictFails (s.calls + i) ≠ none) := by
        have hex : ∃ t, t < min o.maxBatches (s.eligible / o.batchRows + 1) ∧ s.evictFails (s.calls + t) ≠ none := by
          push Not at hall
          exact hall
        exact ⟨Nat.find hex, Nat.find_spec hex, fun i hi => Nat.find_min hex hi⟩
      obtain ⟨e, he⟩ := Option.ne_none_iff_exists'.1 hfails
      have hbefore : ∀ i < t, s.evictFails (s.calls + i) = none := fun i hi =>
        not_not.1 fun hne => hminimal i hi ⟨hi.trans ht, hne⟩
      rw [sweepSubsystem_error hbatch hcount ht hbefore he]
      rcases Nat.eq_zero_or_pos t with rfl | hpos
      · refine iff_of_true ⟨?_, iff_of_false nofun fun h => not_stoppedByBudget_failed _ _ e h.1⟩ (.inr (.inl hfails))
        show 0 + (s.eligible - 0 * o.batchRows) = s.eligible
        omega
      · refine iff_of_false ?_ ?_
        · rintro ⟨hdeleted, -⟩
          have hrows : 0 < t * o.batchRows := Nat.mul_pos hpos hbatch
          have henough : t * o.batchRows ≤ s.eligible := by
            rw [← Nat.le_div_iff_mul_le hbatch]
            have := lt_min_iff.1 ht
            omega
          have hsum : 0 + (s.eligible - t * o.batchRows) = s.eligible := hdeleted
          omega
        · rintro (h | h | h)
          · exact hnoCount h
          · exact h (hbefore 0 hpos)
          · exact hall h.1

end sweep

/-! ## The report of a whole sweep -/

/-- What a report tells of both subsystems. -/
structure TruthfulReport (o : Options) (before after : Stores) (report : RetentionSweepReport) : Prop where
  requests : Truthful o before.recorder after.recorder report.requests
  validationRuns : ∀ {b a}, before.validationRuns = some b → after.validationRuns = some a →
    Truthful o b a report.wedgedValidationRuns

/-- A subsystem that is not swept is reported so. -/
theorem truthful_unswept {o : Options} (hmax : 0 < o.maxBatches) (s : Store) : Truthful o s s unsweptOutcome := by
  refine ⟨Nat.zero_add _, iff_of_false nofun ?_⟩
  rintro ⟨⟨hcalls, -⟩, -⟩
  omega

/-- **When a sweep is reported truthfully**: each subsystem that is swept is plain. -/
theorem sweep_truthful_iff (sw : RetentionSweeper) (now : ℕ) (stores : Stores) (hidle : sw.inFlight = false)
    (hbatch : 1 ≤ sw.options.batchRows) (hmax : 1 ≤ sw.options.maxBatches) :
    TruthfulReport sw.options stores (sw.sweep now stores).2.2 (sw.sweep now stores).1 ↔
      (sw.policy.requests ≠ none → Plain sw.options stores.recorder) ∧
        (sw.policy.wedgedValidationRuns ≠ none → ∀ s, stores.validationRuns = some s → Plain sw.options s) := by
  have hsweep : sw.sweep now stores =
      ((run sw.options true sw.policy now stores).1, { sw with last := some (run sw.options true sw.policy now stores).1 },
        (run sw.options true sw.policy now stores).2) := by
    rw [RetentionSweeper.sweep, hidle]
    rfl
  rw [hsweep]
  have hrequests : Truthful sw.options stores.recorder (run sw.options true sw.policy now stores).2.recorder
      (run sw.options true sw.policy now stores).1.requests ↔
        (sw.policy.requests ≠ none → Plain sw.options stores.recorder) := by
    unfold run
    cases sw.policy.requests with
    | none => exact iff_of_true (truthful_unswept hmax _) fun h => absurd rfl h
    | some days => exact (truthful_iff_plain hbatch hmax _).trans ⟨fun h _ => h, fun h => h (Option.some_ne_none days)⟩
  have hruns : (∀ {b a}, stores.validationRuns = some b → (run sw.options true sw.policy now stores).2.validationRuns = some a →
      Truthful sw.options b a (run sw.options true sw.policy now stores).1.wedgedValidationRuns) ↔
        (sw.policy.wedgedValidationRuns ≠ none → ∀ s, stores.validationRuns = some s → Plain sw.options s) := by
    unfold run
    cases hstore : stores.validationRuns with
    | none => exact iff_of_true nofun nofun
    | some s =>
      cases sw.policy.wedgedValidationRuns with
      | none =>
        refine iff_of_true (fun {b a} hb ha => ?_) fun h => absurd rfl h
        obtain rfl := Option.some.inj hb
        obtain rfl := Option.some.inj ha
        exact truthful_unswept hmax _
      | some days =>
        constructor
        · rintro h - s' hs'
          obtain rfl := Option.some.inj hs'
          exact (truthful_iff_plain hbatch hmax s).1 (h rfl rfl)
        · intro h b a hb ha
          obtain rfl := Option.some.inj hb
          obtain rfl := Option.some.inj ha
          exact (truthful_iff_plain hbatch hmax s).2 (h nofun s rfl)
  exact ⟨fun h => ⟨hrequests.1 h.requests, hruns.1 h.validationRuns⟩, fun h => ⟨hrequests.2 h.1, hruns.2 h.2⟩⟩

/-- A recorder of `n` rows. -/
def recorderOf (n : ℕ) : Stores := ⟨⟨n, 0, none, fun _ => none⟩, none⟩

/-- A sweeper of requests, with two batches of one row. -/
def smallSweeper : RetentionSweeper := ⟨⟨1, 2, none⟩, ⟨some 30, none⟩, false, none⟩

theorem sweep_truthful_small :
    TruthfulReport ⟨1, 2, none⟩ (recorderOf 5) (smallSweeper.sweep 0 (recorderOf 5)).2.2 (smallSweeper.sweep 0 (recorderOf 5)).1 :=
  (sweep_truthful_iff smallSweeper 0 (recorderOf 5) rfl (by decide) (by decide)).2
    ⟨fun _ => .inr (.inr ⟨fun _ _ => rfl, by decide⟩), nofun⟩

/-- A recorder of five rows whose second eviction fails. -/
def busyRecorder : Stores := ⟨⟨5, 0, none, fun n => if n = 1 then some "busy" else none⟩, none⟩

/-- The second call fails after the first has deleted a row: the report says that none has been.  And two batches of one row, which
empty the table, are reported as if there were more rows. -/
theorem deleted_rows_are_denied :
    ¬(∀ (sw : RetentionSweeper) (now : ℕ) (stores : Stores), sw.inFlight = false → 1 ≤ sw.options.batchRows →
        1 ≤ sw.options.maxBatches → TruthfulReport sw.options stores (sw.sweep now stores).2.2 (sw.sweep now stores).1) ∧
      (smallSweeper.sweep 0 busyRecorder).1.requests = ⟨none, 0, false, some "busy"⟩ ∧
      (smallSweeper.sweep 0 busyRecorder).2.2.recorder.eligible = 4 ∧
      (smallSweeper.sweep 0 (recorderOf 2)).1.requests = ⟨some 2, 2, true, none⟩ := by
  refine ⟨fun h => ?_, by decide, by decide, by decide⟩
  have hdeleted := (h smallSweeper 0 busyRecorder rfl (by decide)
    (by decide)).requests.deleted
  revert hdeleted
  decide

end LlmGateway.Storage.Retention
