import LlmGateway.Storage.SqliteQueue
import Mathlib.Data.List.Basic

/-!
# The handles of the SQLite drivers

* `Spread` — a call writes to the file on the handle of its own driver, which is open;
* `Sound` — the transaction in progress on a handle is that of the call that runs, and holds what its body has written.
-/

namespace LlmGateway.Storage.Sqlite

open LlmGateway.Lib State

variable {ω : Type*} {cfg : ℕ → Config} {s t u : State ω} {j : ℕ} {x y z : Job ω} {o : Outcome} {st : Statement ω}

/-! ## The parts of a state -/

namespace State

@[simp] theorem setJob_driver (s : State ω) (j : ℕ) (x : Job ω) : (s.setJob j x).driver = s.driver := rfl
@[simp] theorem setJob_durable (s : State ω) (j : ℕ) (x : Job ω) : (s.setJob j x).durable = s.durable := rfl
@[simp] theorem setDriver_durable (s : State ω) (d : ℕ) (a : Driver ω) : (s.setDriver d a).durable = s.durable := rfl
@[simp] theorem setDriver_job (s : State ω) (d : ℕ) (a : Driver ω) : (s.setDriver d a).job = s.job := rfl

@[simp] theorem setDriver_driver_self (s : State ω) (d : ℕ) (a : Driver ω) : (s.setDriver d a).driver d = a :=
  Function.update_self ..

theorem setDriver_driver_of_ne {d e : ℕ} (h : e ≠ d) (a : Driver ω) : (s.setDriver d a).driver e = s.driver e :=
  Function.update_of_ne h ..

@[simp] theorem setPhase_driver (s : State ω) (j : ℕ) (p : Phase) : (s.setPhase j p).driver = s.driver := by
  unfold setPhase
  split <;> rfl

@[simp] theorem setPhase_durable (s : State ω) (j : ℕ) (p : Phase) : (s.setPhase j p).durable = s.durable := by
  unfold setPhase
  split <;> rfl

end State

/-- The file as a write sees it. -/
theorem db_of_ne (hk : x.kind ≠ .readSnapshot) : s.db x = ⟨(s.driver x.driver).writable, s.durable⟩ := by
  simp [State.db, hk]

/-- A statement of a writer on an open handle. -/
theorem exec_open (j : ℕ) (o : Outcome) (st : Statement ω) (hk : x.kind ≠ .readSnapshot) (hc : (s.driver x.driver).closed = false) :
    ((s.exec j x o st).1.driver x.driver).writable = ((s.db x).exec j o st).1.tx ∧
      (s.exec j x o st).1.durable = ((s.db x).exec j o st).1.durable ∧ (s.exec j x o st).2 = ((s.db x).exec j o st).2 := by
  have ho : x.outcome o st = o := by
    unfold Job.outcome
    split
    · next hx => exact absurd hx hk
    · rfl
  simp [State.exec, hc, hk, ho, State.setDriver]

/-- A statement of a read snapshot. -/
theorem exec_snapshot (s : State ω) (j : ℕ) (o : Outcome) (st : Statement ω) (hk : x.kind = .readSnapshot) :
    (s.exec j x o st).1.durable = s.durable ∧ ∀ d, ((s.exec j x o st).1.driver d).writable = (s.driver d).writable := by
  unfold State.exec
  split
  · exact ⟨rfl, fun _ => rfl⟩
  · refine ⟨rfl, fun d => ?_⟩
    by_cases hd : d = x.driver
    · subst hd
      simp [State.setDriver]
    · simp [State.setDriver, Function.update_of_ne hd]

/-! ## Whose handle a write goes through -/

/-- The handle of a driver holds writes of its own calls. -/
def Tags (s : State ω) : Prop :=
  ∀ d t, (s.driver d).writable = some t → t.writes.All fun w => ∃ x, s.job w.1 = some x ∧ x.driver = d

/-- What becomes durable is of calls whose driver is open. -/
def Grows (s t : State ω) : Prop :=
  ∃ ws, t.durable = s.durable ++ ws ∧ ∀ w ∈ ws, ∃ x, s.job w.1 = some x ∧ (s.driver x.driver).closed = false

/-- After an event of one call. -/
structure Spread (s t : State ω) : Prop where
  tags : Tags t
  grows : Grows s t

theorem Writes.All.mono {α : Type*} {w : Writes α} {p q : α → Prop} (h : w.All p) (hpq : ∀ a, p a → q a) : w.All q :=
  ⟨fun a ha => hpq a (h.1 a ha), fun m hm a ha => hpq a (h.2 m hm a ha)⟩

theorem grows_of_eq (h : t.durable = s.durable) : Grows s t := ⟨[], by simp [h], by simp⟩

namespace Move

/-- A call after the move was one before it, of the same driver. -/
theorem job_driver (hm : Move s t j x y) {i : ℕ} (hz : s.job i = some z) : ∃ z', t.job i = some z' ∧ z'.driver = z.driver := by
  by_cases hi : i = j
  · subst hi
    have hzx : z = x := Option.some.inj (hz.symm.trans hm.before)
    subst hzx
    exact ⟨y, hm.self, hm.driver⟩
  · exact ⟨z, (hm.other hi).trans hz, rfl⟩

theorem job_driver' (hm : Move s t j x y) {i : ℕ} (hz : t.job i = some z) : ∃ z', s.job i = some z' ∧ z'.driver = z.driver := by
  by_cases hi : i = j
  · subst hi
    have hzy : z = y := Option.some.inj (hz.symm.trans hm.self)
    subst hzy
    exact ⟨x, hm.before, hm.driver.symm⟩
  · exact ⟨z, (hm.other hi) ▸ hz, rfl⟩

end Move

theorem Spread.trans (hm : Move s t j x y) (h : Spread s t) (h' : Spread t u) : Spread s u where
  tags := h'.tags
  grows := by
    obtain ⟨ws, hws, hall⟩ := h.grows
    obtain ⟨ws', hws', hall'⟩ := h'.grows
    refine ⟨ws ++ ws', by rw [hws', hws, List.append_assoc], fun w hw => ?_⟩
    rcases List.mem_append.1 hw with hw | hw
    · exact hall w hw
    · obtain ⟨z, hz, hc⟩ := hall' w hw
      obtain ⟨z', hz', hd⟩ := hm.job_driver' hz
      refine ⟨z', hz', ?_⟩
      rw [hd, ← (hm.shell _).closed]
      exact hc

/-- A move that leaves the handles and the file alone. -/
theorem spread_of_frame (h : Tags s) (hm : Move s t j x y) (hw : ∀ d, (t.driver d).writable = (s.driver d).writable)
    (hd : t.durable = s.durable) : Spread s t := by
  refine ⟨fun d tx htx => ?_, grows_of_eq hd⟩
  rw [hw] at htx
  refine (h d tx htx).mono fun w hw => ?_
  obtain ⟨z, hz, hzd⟩ := hw
  obtain ⟨z', hz', hd'⟩ := hm.job_driver hz
  exact ⟨z', hz', hd'.trans hzd⟩

theorem spread_setPhase (h : Tags s) (hx : s.job j = some x) (p : Phase) : Spread s (s.setPhase j p) :=
  spread_of_frame h (Move.setPhase hx p) (by simp) (by simp)

/-- **A statement.** -/
theorem spread_exec (h : Tags s) (hx : s.job j = some x) (o : Outcome) (st : Statement ω) : Spread s (s.exec j x o st).1 := by
  have hm := move_exec hx o st
  by_cases hk : x.kind = .readSnapshot
  · have hsame := exec_snapshot s j o st hk
    exact spread_of_frame h hm hsame.2 hsame.1
  · cases hc : (s.driver x.driver).closed with
    | true =>
      rw [exec_closed hc]
      exact ⟨h, grows_of_eq rfl⟩
    | false =>
      obtain ⟨hw, hd, -⟩ := exec_open j o st hk hc
      have hall := Db.exec_all (x := s.db x) (j := j) (o := o) (s := st)
        (p := fun w => ∃ z, s.job w.1 = some z ∧ z.driver = x.driver)
        (fun tx htx => h x.driver tx (by rw [db_of_ne hk] at htx; exact htx)) fun w => ⟨x, hx, rfl⟩
      constructor
      · intro d tx htx
        have hbefore : tx.writes.All fun w => ∃ z, s.job w.1 = some z ∧ z.driver = d := by
          by_cases hdx : d = x.driver
          · subst hdx
            rw [hw] at htx
            exact hall.2 tx htx
          · rw [hm.others d hdx] at htx
            exact h d tx htx
        refine hbefore.mono ?_
        rintro w ⟨z, hz, hzd⟩
        obtain ⟨z', hz', hd'⟩ := hm.job_driver hz
        exact ⟨z', hz', hd'.trans hzd⟩
      · obtain ⟨ws, hws, hp⟩ := hall.1
        refine ⟨ws, by rw [hd, hws, db_of_ne hk], fun w hw => ?_⟩
        obtain ⟨z, hz, hzd⟩ := hp w hw
        exact ⟨z, hz, by rw [hzd]; exact hc⟩

theorem spread_script (call : List (Statement ω × Outcome)) (h : Tags s) (hx : s.job j = some x) :
    Spread s (s.script j call) := by
  induction call generalizing s x with
  | nil => exact ⟨h, grows_of_eq rfl⟩
  | cons c rest ih =>
    obtain ⟨st, o⟩ := c
    have hm := move_exec hx o st
    have hs := spread_exec h hx o st
    rw [State.script, hx]
    dsimp only
    split
    · exact hs.trans hm (ih hs.tags hm.self)
    · exact hs

theorem spread_begin (h : Tags s) (hx : s.job j = some x) (o : Outcome) : Spread s (s.begin j x o) := by
  have hm := move_exec hx o .BEGIN
  have hs := spread_exec h hx o .BEGIN
  unfold State.begin
  dsimp only
  split
  · exact hs.trans hm (spread_setPhase hs.tags hm.self _)
  · exact hs.trans hm (spread_setPhase hs.tags hm.self _)

theorem spread_start (h : Tags s) (hx : s.job j = some x) (o : Outcome) : Spread s (s.start cfg j x o) := by
  unfold State.start
  dsimp only
  split
  · split
    · exact spread_setPhase h hx _
    · have hm := Move.setJob (y := { x with expiresAt := s.deadline (cfg x.driver).transactionDeadlineMs }) hx rfl rfl rfl rfl
      have hs := spread_of_frame h hm (fun _ => rfl) rfl
      exact hs.trans hm (spread_begin hs.tags hm.self o)
  · exact spread_setPhase h hx _
  · exact spread_begin h hx o

theorem spread_returns (h : Tags s) (hx : s.job j = some x) (o : Outcome) : Spread s (s.returns j x o) := by
  have hm := move_exec hx o .COMMIT
  have hs := spread_exec h hx o .COMMIT
  unfold State.returns
  split
  · exact spread_setPhase h hx _
  · split
    · exact spread_setPhase h hx _
    · exact hs.trans hm (spread_setPhase hs.tags hm.self _)

theorem spread_throws (h : Tags s) (hx : s.job j = some x) (error : Failure) : Spread s (s.throws j x error) := by
  unfold State.throws
  split
  · split
    · exact spread_setPhase h hx _
    · split
      · exact spread_setPhase h hx _
      · exact spread_of_frame h (Move.setJob hx rfl rfl rfl rfl) (fun _ => rfl) rfl
  · exact spread_setPhase h hx _

/-- A state in which calls have come, and handles have been shut. -/
theorem spread_of_still (h : Tags s) (hj : ∀ i z, s.job i = some z → t.job i = some z)
    (hw : ∀ d tx, (t.driver d).writable = some tx → (s.driver d).writable = some tx) (hd : t.durable = s.durable) :
    Spread s t := by
  refine ⟨fun d tx htx => (h d tx (hw d tx htx)).mono ?_, grows_of_eq hd⟩
  rintro w ⟨z, hz, hzd⟩
  exact ⟨z, hj _ z hz, hzd⟩

theorem writable_setDriver {d : ℕ} {a : Driver ω} (h : a.writable = none ∨ a.writable = (s.driver d).writable) (e : ℕ)
    (tx : OpenTx ω) (htx : ((s.setDriver d a).driver e).writable = some tx) : (s.driver e).writable = some tx := by
  by_cases he : e = d
  · subst he
    rw [setDriver_driver_self] at htx
    obtain h | h := h
    · rw [h] at htx
      cases htx
    · rw [← h]
      exact htx
  · rw [setDriver_driver_of_ne he] at htx
    exact htx

theorem spread_shut (h : Tags s) (d : ℕ) : Spread s (s.shut d) :=
  spread_of_still h (fun _ _ hz => hz) (writable_setDriver (.inl rfl)) rfl

theorem spread_close (h : Tags s) (d : ℕ) : Spread s (s.close cfg d) := by
  unfold State.close
  dsimp only
  split
  · exact ⟨h, grows_of_eq rfl⟩
  · split
    · have hs := spread_of_still (t := s.setDriver d { s.driver d with closing := true }) h (fun _ _ hz => hz)
        (writable_setDriver (.inr rfl)) rfl
      exact ⟨(spread_shut hs.tags d).tags, grows_of_eq rfl⟩
    · exact spread_of_still h (fun _ _ hz => hz) (writable_setDriver (.inr rfl)) rfl

theorem spread_drained (h : Tags s) (d : ℕ) (timer : Bool) : Spread s (s.drained d timer) := by
  unfold State.drained
  split
  · exact ⟨h, grows_of_eq rfl⟩
  · split
    · exact spread_shut h d
    · exact ⟨h, grows_of_eq rfl⟩

/-- **Step.** -/
theorem spread_step (hq : Queue s) (h : Tags s) (e : Event ω) : Spread s (step cfg s e).1 := by
  have hnew : ∀ {x : Job ω} {i : ℕ} {z : Job ω}, s.job i = some z → (s.setJob s.next x).job i = some z := by
    intro x i z hz
    have := hq.fresh i z hz
    exact (Function.update_of_ne (by omega) _ _).trans hz
  have hd := does_step cfg s e
  generalize (step cfg s e).1 = t at hd ⊢
  cases hd with
  | nothing => exact ⟨h, grows_of_eq rfl⟩
  | queued d kind =>
    refine spread_of_still h (fun i z hz => hnew hz) (fun e tx htx => ?_) rfl
    exact writable_setDriver (s := s) (a := { s.driver d with queue := some s.next }) (.inr rfl) e tx htx
  | snapshot d expiresAt => exact spread_of_still h (fun i z hz => hnew hz) (fun _ _ hw => hw) rfl
  | start hx => exact spread_start h hx _
  | issue hx =>
    unfold State.issue
    split
    · exact ⟨h, grows_of_eq rfl⟩
    · exact spread_script _ h hx
  | returns hx => exact spread_returns h hx _
  | throws hx => exact spread_throws h hx _
  | rollback hx =>
    have hs := spread_exec h hx ‹_› .ROLLBACK
    exact hs.trans (move_exec hx _ _) (spread_setPhase hs.tags (move_exec hx _ _).self _)
  | tick | forget => exact spread_of_still h (fun _ _ hz => hz) (fun _ _ hw => hw) rfl
  | close => exact spread_close h _
  | drained => exact spread_drained h _ _

/-! ## The transaction in progress -/

namespace State

/-- The call `i` is a bootstrap. -/
def Boot (s : State ω) (i : ℕ) : Prop := ∃ x, s.job i = some x ∧ x.kind = .bootstrap

/-- The call `i` is a transaction that has resolved. -/
def Won (s : State ω) (i : ℕ) : Prop := ∃ x, s.job i = some x ∧ x.kind = .transaction ∧ x.phase = .settled .resolved

/-- Only bootstraps have written in the transaction in progress. -/
def LeftByBoot (s : State ω) (t : OpenTx ω) : Prop := s.Boot t.owner ∧ t.writes.All fun w => s.Boot w.1

end State

/-- What holds of one transaction. -/
structure Kept (s : State ω) (j : ℕ) (x : Job ω) : Prop where
  /-- while it runs, what is in progress on its handle is its own, and holds what its body has written -/
  owned : x.Running → ∀ t, (s.driver x.driver).writable = some t → t.owner = j ∧ t.implicit = false ∧ t.writes = x.writes
  resolved : x.phase = .settled .resolved → x.committed = true ∧ (s.durable.filter fun w => w.1 = j) = x.writes.written
  committed : x.committed = true → x.phase = .settled .resolved
  fresh : x.phase = .waiting → x.writes = .empty
  tags : x.writes.All fun w => w.1 = j

structure Sound (s : State ω) : Prop where
  kept : ∀ j x, s.job j = some x → x.kind = .transaction → Kept s j x
  idle : ∀ d, (∀ j x, s.job j = some x → x.kind = .transaction → x.Running → x.driver ≠ d) →
    ∀ t, (s.driver d).writable = some t → s.LeftByBoot t
  closed : ∀ d, (s.driver d).closed = true → (s.driver d).writable = none
  durable : ∀ w ∈ s.durable, s.Boot w.1 ∨ s.Won w.1

/-- No other call of the queue runs. -/
def Alone (s : State ω) (j : ℕ) : Prop := ∀ i z, i ≠ j → s.Queued i z → ¬z.Running

theorem queued_of_transaction (h : x.kind = .transaction) : x.queued = true := by
  simp [Job.queued, h]

theorem queued_of_bootstrap (h : x.kind = .bootstrap) : x.queued = true := by
  simp [Job.queued, h]

theorem boot_of_move (hm : Move s t j x y) {i : ℕ} (h : s.Boot i) : t.Boot i := by
  obtain ⟨z, hz, hk⟩ := h
  by_cases hi : i = j
  · subst hi
    have hzx : z = x := Option.some.inj (hz.symm.trans hm.before)
    subst hzx
    exact ⟨y, hm.self, hm.kind.trans hk⟩
  · exact ⟨z, (hm.other hi).trans hz, hk⟩

theorem leftByBoot_of_move (hm : Move s t j x y) {tx : OpenTx ω} (h : s.LeftByBoot tx) : t.LeftByBoot tx :=
  ⟨boot_of_move hm h.1, h.2.mono fun _ hw => boot_of_move hm hw⟩

theorem won_of_move (hm : Move s t j x y) (hns : x.settled = false) {i : ℕ} (h : s.Won i) : t.Won i := by
  obtain ⟨z, hz, hk, hp⟩ := h
  have hi : i ≠ j := by
    rintro rfl
    have hzx : z = x := Option.some.inj (hz.symm.trans hm.before)
    rw [← hzx, Job.settled_of_phase hp] at hns
    cases hns
  exact ⟨z, (hm.other hi).trans hz, hk, hp⟩

namespace Sound

/-- While a call of the queue that is not a running transaction is the only one, nothing but bootstraps has written. -/
theorem left (h : Sound s) (halone : Alone s j) (hx : s.job j = some x) (hnr : x.kind = .transaction → ¬x.Running) {d : ℕ}
    {tx : OpenTx ω} (htx : (s.driver d).writable = some tx) : s.LeftByBoot tx := by
  refine h.idle d (fun i z hz hk hr => ?_) tx htx
  by_cases hi : i = j
  · subst hi
    have hzx : z = x := Option.some.inj (hz.symm.trans hx)
    subst hzx
    exact absurd hr (hnr hk)
  · exact absurd hr (halone i z hi ⟨hz, queued_of_transaction hk⟩)

/-- **A move of a writer** that is alone. -/
theorem move (h : Sound s) (hm : Move s t j x y) (hns : x.settled = false) (halone : Alone s j)
    (hdurable : ∃ ws, t.durable = s.durable ++ ws ∧
      ∀ w ∈ ws, s.Boot w.1 ∨ w.1 = j ∧ y.kind = .transaction ∧ y.phase = .settled .resolved)
    (hkept : y.kind = .transaction → Kept t j y)
    (hidle : (y.kind = .transaction → ¬y.Running) → ∀ tx, (t.driver x.driver).writable = some tx → s.LeftByBoot tx)
    (hclosed : (t.driver x.driver).closed = true → (t.driver x.driver).writable = none) : Sound t := by
  obtain ⟨ws, hws, hall⟩ := hdurable
  constructor
  · intro i z hz hk
    by_cases hi : i = j
    · subst hi
      have hzy : z = y := Option.some.inj (hz.symm.trans hm.self)
      subst hzy
      exact hkept hk
    · have hz' : s.job i = some z := (hm.other hi) ▸ hz
      have hold := h.kept i z hz' hk
      refine { hold with owned := ?_, resolved := ?_ }
      · intro hr
        exact absurd hr (halone i z hi ⟨hz', queued_of_transaction hk⟩)
      · intro hp
        refine ⟨(hold.resolved hp).1, ?_⟩
        have hnone : (ws.filter fun w => w.1 = i) = [] := by
          rw [List.filter_eq_nil_iff]
          intro w hw hwi
          have hwi' : w.1 = i := by simpa using hwi
          obtain ⟨b, hb, hbk⟩ | ⟨hj, -⟩ := hall w hw
          · rw [hwi'] at hb
            have hbz : b = z := Option.some.inj (hb.symm.trans hz')
            rw [hbz, hk] at hbk
            cases hbk
          · exact hi (hwi'.symm.trans hj)
        rw [hws, List.filter_append, hnone, List.append_nil]
        exact (hold.resolved hp).2
  · intro d hd tx htx
    apply leftByBoot_of_move hm
    by_cases hdx : d = x.driver
    · subst hdx
      refine hidle (fun hk hr => ?_) tx htx
      exact hd j y hm.self hk hr hm.driver
    · rw [hm.others d hdx] at htx
      refine h.idle d (fun i z hz hk hr hzd => ?_) tx htx
      by_cases hi : i = j
      · subst hi
        have hzx : z = x := Option.some.inj (hz.symm.trans hm.before)
        subst hzx
        exact hdx hzd.symm
      · exact hd i z ((hm.other hi).trans hz) hk hr hzd
  · intro d hc
    by_cases hdx : d = x.driver
    · subst hdx
      exact hclosed hc
    · rw [hm.others d hdx] at hc ⊢
      exact h.closed d hc
  · intro w hw
    rw [hws] at hw
    rcases List.mem_append.1 hw with hw | hw
    · obtain hb | hb := h.durable w hw
      · exact Or.inl (boot_of_move hm hb)
      · exact Or.inr (won_of_move hm hns hb)
    · obtain hb | ⟨hj, hk, hp⟩ := hall w hw
      · exact Or.inl (boot_of_move hm hb)
      · exact Or.inr ⟨y, by rw [hj]; exact hm.self, hk, hp⟩

/-- A move of a read snapshot. -/
theorem move_snapshot (h : Sound s) (hm : Move s t j x y) (hk : x.kind = .readSnapshot)
    (hw : ∀ d, (t.driver d).writable = (s.driver d).writable) (hd : t.durable = s.durable) : Sound t := by
  have hne : ∀ {i : ℕ} {z : Job ω}, t.job i = some z → z.kind ≠ .readSnapshot → i ≠ j ∧ s.job i = some z := by
    intro i z hz hzk
    have hi : i ≠ j := by
      rintro rfl
      have hzy : z = y := Option.some.inj (hz.symm.trans hm.self)
      exact hzk (by rw [hzy, hm.kind, hk])
    exact ⟨hi, (hm.other hi) ▸ hz⟩
  have hback : ∀ {i : ℕ} {z : Job ω}, s.job i = some z → z.kind ≠ .readSnapshot → t.job i = some z := by
    intro i z hz hzk
    have hi : i ≠ j := by
      rintro rfl
      have hzx : z = x := Option.some.inj (hz.symm.trans hm.before)
      exact hzk (by rw [hzx, hk])
    exact (hm.other hi).trans hz
  constructor
  · intro i z hz hzk
    obtain ⟨-, hz'⟩ := hne hz (by rw [hzk]; decide)
    have hold := h.kept i z hz' hzk
    exact { hold with
      owned := fun hr tx htx => hold.owned hr tx (hw _ ▸ htx)
      resolved := fun hp => by rw [hd]; exact hold.resolved hp }
  · intro d hnone tx htx
    rw [hw] at htx
    apply leftByBoot_of_move hm
    exact h.idle d (fun i z hz hzk => hnone i z (hback hz (by rw [hzk]; decide)) hzk) tx htx
  · intro d hc
    rw [(hm.shell d).closed] at hc
    rw [hw]
    exact h.closed d hc
  · intro w hww
    rw [hd] at hww
    obtain hb | ⟨z, hz, hzk, hp⟩ := h.durable w hww
    · exact Or.inl (boot_of_move hm hb)
    · exact Or.inr ⟨z, hback hz (by rw [hzk]; decide), hzk, hp⟩

/-- Calls that come, and handles that are shut. -/
theorem still (h : Sound s) (hold : ∀ i z, s.job i = some z → t.job i = some z)
    (hnew : ∀ i z, t.job i = some z → s.job i = some z ∨ z.phase = .waiting ∧ z.writes = .empty ∧ z.committed = false)
    (hw : ∀ d tx, (t.driver d).writable = some tx → (s.driver d).writable = some tx)
    (hc : ∀ d, (t.driver d).closed = true → (t.driver d).writable = none) (hd : t.durable = s.durable) : Sound t := by
  have hboot : ∀ {i : ℕ}, s.Boot i → t.Boot i := fun ⟨z, hz, hk⟩ => ⟨z, hold _ z hz, hk⟩
  constructor
  · intro i z hz hk
    obtain hz' | ⟨hp, he, hcom⟩ := hnew i z hz
    · have hkept := h.kept i z hz' hk
      exact { hkept with
        owned := fun hr tx htx => hkept.owned hr tx (hw _ tx htx)
        resolved := fun hp => by rw [hd]; exact hkept.resolved hp }
    · constructor
      · intro hr
        exact absurd hp hr.1
      · intro hres
        rw [hp] at hres
        cases hres
      · intro hcom'
        rw [hcom] at hcom'
        cases hcom'
      · exact fun _ => he
      · rw [he]
        exact Writes.All.empty
  · intro d hnone tx htx
    have hleft := h.idle d (fun i z hz => hnone i z (hold i z hz)) tx (hw d tx htx)
    exact ⟨hboot hleft.1, hleft.2.mono fun _ => hboot⟩
  · exact hc
  · intro w hww
    rw [hd] at hww
    obtain hb | ⟨z, hz, hzk, hp⟩ := h.durable w hww
    · exact Or.inl (hboot hb)
    · exact Or.inr ⟨z, hold _ z hz, hzk, hp⟩

end Sound

/-! ## The parts of a call -/

/-- The writes of a read snapshot: none. -/
structure NoWrite (s t : State ω) : Prop where
  durable : t.durable = s.durable
  writable : ∀ d, (t.driver d).writable = (s.driver d).writable

theorem NoWrite.trans (h : NoWrite s t) (h' : NoWrite t u) : NoWrite s u :=
  ⟨h'.1.trans h.1, fun d => (h'.2 d).trans (h.2 d)⟩

theorem noWrite_setPhase (s : State ω) (j : ℕ) (p : Phase) : NoWrite s (s.setPhase j p) := ⟨by simp, by simp⟩

theorem noWrite_exec (s : State ω) (j : ℕ) (o : Outcome) (st : Statement ω) (hk : x.kind = .readSnapshot) :
    NoWrite s (s.exec j x o st).1 :=
  ⟨(exec_snapshot s j o st hk).1, (exec_snapshot s j o st hk).2⟩

theorem noWrite_script (call : List (Statement ω × Outcome)) (hx : s.job j = some x) (hk : x.kind = .readSnapshot) :
    NoWrite s (s.script j call) := by
  induction call generalizing s x with
  | nil => exact ⟨rfl, fun _ => rfl⟩
  | cons c rest ih =>
    obtain ⟨st, o⟩ := c
    have hexec := noWrite_exec s j o st hk
    rw [State.script, hx]
    dsimp only
    split
    · exact hexec.trans (ih (move_exec hx o st).self hk)
    · exact hexec

theorem noWrite_begin (hk : x.kind = .readSnapshot) : NoWrite s (s.begin j x o) := by
  unfold State.begin
  dsimp only
  split
  · exact (noWrite_exec _ _ _ _ hk).trans (noWrite_setPhase _ j _)
  · exact (noWrite_exec _ _ _ _ hk).trans (noWrite_setPhase _ j _)

section Transaction

/-- A call that has not resolved, nor been committed. -/
theorem Kept.of_unresolved (hp : y.phase ≠ .settled .resolved) (hc : y.committed = false)
    (howned : y.Running → ∀ t', (t.driver y.driver).writable = some t' → t'.owner = j ∧ t'.implicit = false ∧ t'.writes = y.writes)
    (hfresh : y.phase = .waiting → y.writes = .empty) (htags : y.writes.All fun w => w.1 = j) : Kept t j y where
  owned := howned
  resolved := fun h => absurd h hp
  committed := fun h => by rw [hc] at h; cases h
  fresh := hfresh
  tags := htags

theorem Kept.uncommitted (h : Kept s j x) (hns : x.settled = false) : x.committed = false := by
  by_contra hc
  have hp := h.committed (by simpa using hc)
  rw [Job.settled_of_phase hp] at hns
  cases hns

theorem ne_resolved (hns : x.settled = false) : x.phase ≠ .settled .resolved := by
  intro hp
  rw [Job.settled_of_phase hp] at hns
  cases hns

theorem running_of_body (hp : x.phase = .body) : x.Running := by
  unfold Job.Running Job.settled
  rw [hp]
  simp

theorem running_of_rollingBack {error : Failure} (hp : x.phase = .rollingBack error) : x.Running := by
  unfold Job.Running Job.settled
  rw [hp]
  simp

theorem not_running_of_waiting (hp : x.phase = .waiting) : ¬x.Running := fun h => h.1 hp

theorem not_running_of_settled {r : Result} (hp : x.phase = .settled r) : ¬x.Running := by
  rintro ⟨-, hs⟩
  rw [Job.settled_of_phase hp] at hs
  cases hs

theorem Alone.congr (h : Alone s j) (hjob : ∀ i, i ≠ j → t.job i = s.job i) : Alone t j :=
  fun i z hi hz => h i z hi ⟨(hjob i hi) ▸ hz.1, hz.2⟩

/-- The record of a call changes, with nothing on its handle. -/
theorem Sound.setJob (h : Sound s) (hx : s.job j = some x) (hd : y.driver = x.driver) (hk : y.kind = x.kind)
    (ha : y.after = x.after) (hl : y.late = x.late) (hns : x.settled = false) (halone : Alone s j)
    (hkept : y.kind = .transaction → Kept (s.setJob j y) j y)
    (hrun : y.kind = .transaction → x.Running → y.Running) : Sound (s.setJob j y) := by
  refine h.move (Move.setJob hx hd hk ha hl) hns halone ⟨[], by simp, by simp⟩ hkept (fun hnr tx htx => ?_) (h.closed _)
  exact h.left halone hx (fun hkx hr => hnr (hk.trans hkx) (hrun (hk.trans hkx) hr)) htx

/-- A call moves on, or is rejected before it has begun. -/
theorem Sound.setPhase (h : Sound s) (hx : s.job j = some x) (hns : x.settled = false) (halone : Alone s j) {p : Phase}
    (hp : x.kind = .transaction → (∃ error, p = .rollingBack error) ∧ x.Running ∨
      (∃ error, p = .settled (.rejected error)) ∧ ¬x.Running) : Sound (s.setPhase j p) := by
  have heq : s.setPhase j p = s.setJob j { x with phase := p } := by
    unfold State.setPhase
    rw [hx]
  rw [heq]
  refine h.setJob hx rfl rfl rfl rfl hns halone (fun hk => ?_) (fun hk hr => ?_)
  · have hold := h.kept j x hx hk
    refine .of_unresolved ?_ (hold.uncommitted hns) ?_ ?_ hold.tags
    · obtain ⟨⟨error, rfl⟩, -⟩ | ⟨⟨error, rfl⟩, -⟩ := hp hk
      · simp
      · simp
    · intro hr
      obtain ⟨-, hrx⟩ | ⟨⟨error, rfl⟩, -⟩ := hp hk
      · exact hold.owned hrx
      · exact absurd hr (not_running_of_settled rfl)
    · intro hw
      obtain ⟨⟨error, rfl⟩, -⟩ | ⟨⟨error, rfl⟩, -⟩ := hp hk
      · cases hw
      · cases hw
  · obtain ⟨⟨error, rfl⟩, -⟩ | ⟨-, hnr⟩ := hp hk
    · exact running_of_rollingBack rfl
    · exact absurd hr hnr

/-- **BEGIN IMMEDIATE.** -/
theorem Sound.begin (h : Sound s) (hx : s.job j = some x) (hk : x.kind = .transaction) (hp : x.phase = .waiting)
    (halone : Alone s j) (hc : (s.driver x.driver).closed = false) (o : Outcome) : Sound (s.begin j x o) := by
  have hks : x.kind ≠ .readSnapshot := by rw [hk]; decide
  have hns := Job.not_settled_of_waiting hp
  have hold := h.kept j x hx hk
  have hm := move_exec hx o .BEGIN
  obtain ⟨hw, hd, ha⟩ := exec_open j o .BEGIN hks hc
  have hclosed : ((s.exec j x o .BEGIN).1.driver x.driver).closed = true → False := by
    rw [(hm.shell _).closed, hc]
    exact Bool.false_ne_true
  have hnote : ∀ b, (x.note j .BEGIN b).writes = x.writes ∧ (x.note j .BEGIN b).committed = x.committed := by
    intro b
    cases b <;> simp [Job.note, Writes.note]
  unfold State.begin
  dsimp only
  split
  · next hdone =>
    have heq := Db.exec_begin (ha.symm.trans hdone)
    rw [heq] at hw hd
    refine h.move (hm.trans (Move.setPhase hm.self .body)) hns halone ⟨[], ?_, by simp⟩ (fun _ => ?_) (fun hnr => ?_) fun hcl => ?_
    · rw [setPhase_durable, hd, db_of_ne hks, List.append_nil]
    · refine .of_unresolved (by simp) ((hnote _).2.trans (hold.uncommitted hns)) (fun _ tx htx => ?_) (fun hw => by cases hw) ?_
      · rw [setPhase_driver] at htx
        change ((s.exec j x o .BEGIN).1.driver x.driver).writable = some tx at htx
        rw [hw] at htx
        cases htx
        exact ⟨rfl, rfl, ((hnote _).1.trans (hold.fresh hp)).symm⟩
      · exact (hnote _).1.symm ▸ hold.tags
    · exact absurd (running_of_body rfl) (hnr hk)
    · rw [setPhase_driver] at hcl
      exact (hclosed hcl).elim
  · next hdone =>
    have hfail : ((s.db x).exec j o .BEGIN).2 = false := ha ▸ (by simpa using hdone)
    have hsame : ((s.exec j x o .BEGIN).1.driver x.driver).writable = (s.driver x.driver).writable ∨
        ((s.exec j x o .BEGIN).1.driver x.driver).writable = none := by
      rw [hw]
      obtain heq | heq := Db.exec_begin_failed hfail
      · exact Or.inl (by rw [heq, db_of_ne hks])
      · exact Or.inr (by rw [heq])
    refine h.move (hm.trans (Move.setPhase hm.self _)) hns halone ⟨[], ?_, by simp⟩ (fun _ => ?_) (fun _ tx htx => ?_) fun hcl => ?_
    · rw [setPhase_durable, hd, List.append_nil]
      obtain heq | heq := Db.exec_begin_failed hfail
      · rw [heq, db_of_ne hks]
      · rw [heq, db_of_ne hks]
    · refine .of_unresolved (by simp) ((hnote _).2.trans (hold.uncommitted hns)) (fun hr => ?_) (fun hw => by cases hw) ?_
      · exact absurd hr (not_running_of_settled rfl)
      · exact (hnote _).1.symm ▸ hold.tags
    · rw [setPhase_driver] at htx
      obtain hsame | hsame := hsame
      · rw [hsame] at htx
        exact h.left halone hx (fun _ => not_running_of_waiting hp) htx
      · rw [hsame] at htx
        cases htx
    · rw [setPhase_driver] at hcl
      exact (hclosed hcl).elim

/-- **A statement of a body** within its transaction. -/
theorem Sound.exec_within (h : Sound s) (hx : s.job j = some x) (hk : x.kind = .transaction) (hr : x.Running)
    (halone : Alone s j) (hw : (s.driver x.driver).closed = false → Within (s.db x) o st) : Sound (s.exec j x o st).1 := by
  have hks : x.kind ≠ .readSnapshot := by rw [hk]; decide
  cases hc : (s.driver x.driver).closed with
  | true =>
    rw [exec_closed hc]
    exact h
  | false =>
    have hold := h.kept j x hx hk
    have hm := move_exec hx o st
    obtain ⟨hwrite, hd, ha⟩ := exec_open j o st hks hc
    have howned : (s.db x).Owned j x.writes := by
      rw [db_of_ne hks]
      exact hold.owned hr
    obtain ⟨hdb, hnext⟩ := Db.owned_exec howned (hw hc)
    have hcom : (x.note j st (s.exec j x o st).2).committed = false := by
      unfold Job.note
      dsimp only
      rw [hold.uncommitted hr.2, Bool.false_or]
      split
      · rw [ha, Db.not_commit_of_within (hw hc), Bool.false_and]
      · exact Bool.and_false _
    refine h.move hm hr.2 halone ⟨[], by rw [hd, hdb, db_of_ne hks, List.append_nil], by simp⟩ (fun _ => ?_) (fun hnr => ?_)
      fun hcl => ?_
    · refine .of_unresolved (ne_resolved hr.2) hcom (fun _ tx htx => ?_) (fun hp => absurd hp hr.1) (hold.tags.note (fun _ => rfl) _)
      change ((s.exec j x o st).1.driver x.driver).writable = some tx at htx
      rw [hwrite] at htx
      rw [ha]
      exact hnext tx htx
    · exact absurd hr (hnr hk)
    · rw [(hm.shell _).closed, hc] at hcl
      cases hcl

/-- **A statement of a bootstrap.** -/
theorem Sound.exec_boot (h : Sound s) (hx : s.job j = some x) (hk : x.kind = .bootstrap) (hr : x.Running)
    (halone : Alone s j) : Sound (s.exec j x o st).1 := by
  have hks : x.kind ≠ .readSnapshot := by rw [hk]; decide
  have hkt : x.kind ≠ .transaction := by rw [hk]; decide
  cases hc : (s.driver x.driver).closed with
  | true =>
    rw [exec_closed hc]
    exact h
  | false =>
    have hm := move_exec hx o st
    obtain ⟨hwrite, hd, -⟩ := exec_open j o st hks hc
    have hboot : s.Boot j := ⟨x, hx, hk⟩
    have hleft : ∀ tx, (s.db x).tx = some tx → s.LeftByBoot tx := by
      intro tx htx
      rw [db_of_ne hks] at htx
      exact h.left halone hx (fun hkx => absurd hkx hkt) htx
    obtain ⟨⟨ws, hws, hall⟩, hnext⟩ := Db.exec_all (o := o) (s := st) (fun tx htx => (hleft tx htx).2) fun _ => hboot
    refine h.move hm hr.2 halone ⟨ws, by rw [hd, hws, db_of_ne hks], fun w hw => Or.inl (hall w hw)⟩ (fun hky => absurd hky hkt)
      (fun _ tx htx => ?_) fun hcl => ?_
    · rw [hwrite] at htx
      refine ⟨?_, hnext tx htx⟩
      obtain hown | ⟨tx', htx', hown⟩ := Db.exec_owner htx
      · rw [hown]
        exact hboot
      · rw [← hown]
        exact (hleft tx' htx').1
    · rw [(hm.shell _).closed, hc] at hcl
      cases hcl

/-- **COMMIT.** -/
theorem Sound.commit (h : Sound s) (hx : s.job j = some x) (hk : x.kind = .transaction) (hp : x.phase = .body)
    (halone : Alone s j) (o : Outcome) : Sound ((s.exec j x o .COMMIT).1.setPhase j
      (if (s.exec j x o .COMMIT).2 then .settled .resolved else .rollingBack .commit)) := by
  have hks : x.kind ≠ .readSnapshot := by rw [hk]; decide
  have hr := running_of_body hp
  have hold := h.kept j x hx hk
  have hm := move_exec hx o .COMMIT
  have hroll : ∀ error, Sound (s.setPhase j (.rollingBack error)) := by
    intro error
    exact h.setPhase hx hr.2 halone fun _ => Or.inl ⟨⟨error, rfl⟩, hr⟩
  cases hc : (s.driver x.driver).closed with
  | true =>
    rw [exec_closed hc]
    exact hroll _
  | false =>
    obtain ⟨hwrite, hd, ha⟩ := exec_open j o .COMMIT hks hc
    have hclosed : (((s.exec j x o .COMMIT).1.setPhase j (if (s.exec j x o .COMMIT).2 then .settled .resolved else .rollingBack .commit)
        ).driver x.driver).closed = true → False := by
      rw [setPhase_driver, (hm.shell _).closed, hc]
      exact Bool.false_ne_true
    cases hdone : (s.exec j x o .COMMIT).2 with
    | true =>
      obtain ⟨tx, htx, heq⟩ := Db.exec_commit (ha.symm.trans hdone)
      rw [heq] at hwrite hd
      rw [db_of_ne hks] at htx hd
      obtain ⟨-, -, hwrites⟩ := hold.owned hr tx htx
      have hdur : (s.exec j x o .COMMIT).1.durable = s.durable ++ x.writes.written := by
        rw [hd, ← hwrites]
        rfl
      rw [hdone] at hclosed
      refine h.move (hm.trans (Move.setPhase hm.self _)) hr.2 halone ⟨x.writes.written, ?_, ?_⟩ (fun _ => ?_) (fun _ tx htx => ?_)
        fun hcl => (hclosed hcl).elim
      · rw [setPhase_durable, hdur]
      · intro w hw
        exact Or.inr ⟨hold.tags.1 w hw, hk, by simp⟩
      · have hwritten : (x.note j .COMMIT (s.exec j x o .COMMIT).2).writes.written = x.writes.written := by
          rw [hdone]
          rfl
        have hcommitted : (x.note j .COMMIT (s.exec j x o .COMMIT).2).committed = true := by
          rw [hdone]
          simp [Job.note]
        refine ⟨fun hrun => ?_, fun _ => ⟨hcommitted, ?_⟩, fun _ => by simp, fun hw => ?_, hold.tags.note (fun _ => rfl) _⟩
        · exact absurd hrun (not_running_of_settled (r := .resolved) (by simp))
        · -- nothing of the call was durable before
          have hnone : (s.durable.filter fun w => w.1 = j) = [] := by
            rw [List.filter_eq_nil_iff]
            intro w hw hwj
            have hwj' : w.1 = j := by simpa using hwj
            obtain ⟨z, hz, hzk⟩ | ⟨z, hz, -, hzp⟩ := h.durable w hw
            · rw [hwj'] at hz
              rw [Option.some.inj (hz.symm.trans hx), hk] at hzk
              cases hzk
            · rw [hwj'] at hz
              rw [Option.some.inj (hz.symm.trans hx)] at hzp
              exact ne_resolved hr.2 hzp
          have hall : (x.writes.written.filter fun w => w.1 = j) = x.writes.written := by
            rw [List.filter_eq_self]
            intro w hw
            simpa using hold.tags.1 w hw
          rw [setPhase_durable, hdur, List.filter_append, hnone, List.nil_append, hall]
          exact hwritten.symm
        · simp at hw
      · rw [setPhase_driver, hwrite] at htx
        cases htx
    | false =>
      have hfail : ((s.db x).exec j o .COMMIT).2 = false := ha.symm.trans hdone
      rw [hdone, if_neg Bool.false_ne_true] at hclosed
      rw [if_neg Bool.false_ne_true]
      have hnote : (x.note j .COMMIT (s.exec j x o .COMMIT).2) = x := by rw [hdone, Job.note_false]
      rw [hnote] at hm
      refine h.move (hm.trans (Move.setPhase hm.self _)) hr.2 halone ⟨[], ?_, by simp⟩ (fun _ => ?_) (fun hnr => ?_)
        fun hcl => (hclosed hcl).elim
      · rw [setPhase_durable, hd, List.append_nil]
        obtain heq | heq := Db.exec_commit_failed hfail
        · rw [heq, db_of_ne hks]
        · rw [heq, db_of_ne hks]
      · refine .of_unresolved (by simp) (hold.uncommitted hr.2) (fun _ tx htx => ?_) (fun hw => by cases hw) hold.tags
        rw [setPhase_driver] at htx
        change ((s.exec j x o .COMMIT).1.driver x.driver).writable = some tx at htx
        rw [hwrite] at htx
        obtain heq | heq := Db.exec_commit_failed hfail
        · rw [heq, db_of_ne hks] at htx
          exact hold.owned hr tx htx
        · rw [heq] at htx
          cases htx
      · exact absurd (running_of_rollingBack rfl) (hnr hk)

/-- **ROLLBACK** that ends the transaction. -/
theorem Sound.rollback (h : Sound s) (hx : s.job j = some x) (hk : x.kind = .transaction) {error : Failure}
    (hp : x.phase = .rollingBack error) (halone : Alone s j)
    (hw : o = .fails → (s.driver x.driver).writable = none) : Sound (s.rollback j x error o) := by
  have hks : x.kind ≠ .readSnapshot := by rw [hk]; decide
  have hr := running_of_rollingBack hp
  have hold := h.kept j x hx hk
  have hm := move_exec hx o .ROLLBACK
  have hgone : ((s.exec j x o .ROLLBACK).1.driver x.driver).writable = none ∧ (s.exec j x o .ROLLBACK).1.durable = s.durable := by
    cases hc : (s.driver x.driver).closed with
    | true =>
      rw [exec_closed hc]
      exact ⟨h.closed _ hc, rfl⟩
    | false =>
      obtain ⟨hwrite, hd, -⟩ := exec_open j o .ROLLBACK hks hc
      obtain ⟨hsame, hor, hgone⟩ := Db.exec_rollback (x := s.db x) (j := j) (o := o)
      rw [hwrite, hd, hsame, db_of_ne hks]
      refine ⟨?_, rfl⟩
      rw [db_of_ne hks] at hor hgone
      by_cases ho : o = .fails
      · obtain hor | hor := hor
        · rw [hor]
          exact hw ho
        · exact hor
      · exact hgone ho
  have hnote : (x.note j .ROLLBACK (s.exec j x o .ROLLBACK).2).committed = x.committed := by
    cases (s.exec j x o .ROLLBACK).2 <;> simp [Job.note]
  unfold State.rollback
  refine h.move (hm.trans (Move.setPhase hm.self _)) hr.2 halone ⟨[], ?_, by simp⟩ (fun _ => ?_) (fun _ tx htx => ?_) fun _ => ?_
  · rw [setPhase_durable, hgone.2, List.append_nil]
  · refine .of_unresolved (by simp) (hnote.trans (hold.uncommitted hr.2)) (fun hrun => ?_) (fun hw => by cases hw)
      (hold.tags.note (fun _ => rfl) _)
    exact absurd hrun (not_running_of_settled rfl)
  · rw [setPhase_driver, hgone.1] at htx
    cases htx
  · rw [setPhase_driver]
    exact hgone.1

end Transaction

end LlmGateway.Storage.Sqlite
