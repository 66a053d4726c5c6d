import LlmGateway.Storage.SqliteHandles

/-!
# Transactions of the SQLite driver

What the promise of `transaction` says of the file, over every run of the drivers of a process.

* `Honest` — calls run one at a time and in order, and their promises say what is so;
* `Keeps` — no body commits by itself or writes outside the transaction, and no ROLLBACK of the driver fails inside it;
* `callers_honest` — a run whose steps keep the condition is honest, and in a fair one every call settles.
-/

namespace LlmGateway.Storage.Sqlite

open LlmGateway.Lib State

variable {ω : Type*} {cfg : ℕ → Config} {s t u : State ω} {j : ℕ} {x y z : Job ω} {o : Outcome} {st : Statement ω}

/-! ## Honesty -/

/-- A script of a body within its transaction. -/
def WithinScript (j : ℕ) : State ω → List (Statement ω × Outcome) → Prop
  | _, [] => True
  | s, (st, o) :: rest => ∀ x, s.job j = some x →
      ((s.driver x.driver).closed = false → Within (s.db x) o st) ∧
        ((s.exec j x o st).2 = true → WithinScript j (s.exec j x o st).1 rest)

/-- The body of a transaction runs no COMMIT of its own inside it, and once the transaction has ended before the body, by a
ROLLBACK of the body or an error on which SQLite rolls back, the body neither writes nor begins another; and the ROLLBACK of
the driver does not fail while the transaction is in progress. -/
def Keeps (s : State ω) : Event ω → Prop
  | .issue j call => ∀ x, s.job j = some x → x.kind = .transaction → x.phase = .body → s.refuses x call = false →
      WithinScript j s call
  | .rollback j o => ∀ x error, s.job j = some x → x.kind = .transaction → x.phase = .rollingBack error → o = .fails →
      (s.driver x.driver).writable = none
  | _ => True

section Decide

instance (x : Db ω) (o : Outcome) (st : Statement ω) : Decidable (Within x o st) :=
  match st with
  | .COMMIT => inferInstanceAs (Decidable (o = .ok → x.tx = none))
  | .write _ => inferInstanceAs (Decidable (o = .ok → x.tx ≠ none))
  | .BEGIN => inferInstanceAs (Decidable (o = .ok → x.tx ≠ none))
  | .SAVEPOINT _ => inferInstanceAs (Decidable (o = .ok → x.tx ≠ none))
  | .read => isTrue trivial
  | .ROLLBACK => isTrue trivial
  | .RELEASE _ => isTrue trivial
  | .ROLLBACK_TO _ => isTrue trivial

local instance decidableForallSome {α : Type*} (a : Option α) (p : α → Prop) [DecidablePred p] : Decidable (∀ x, a = some x → p x) :=
  match a with
  | none => isTrue fun _ h => nomatch h
  | some x => decidable_of_iff (p x) ⟨fun h _ hx => Option.some.inj hx ▸ h, fun h => h x rfl⟩

instance decidableWithinScript (j : ℕ) : ∀ (s : State ω) (call : List (Statement ω × Outcome)), Decidable (WithinScript j s call)
  | _, [] => isTrue trivial
  | s, (st, o) :: rest =>
    have : ∀ t, Decidable (WithinScript j t rest) := fun t => decidableWithinScript j t rest
    inferInstanceAs (Decidable (∀ x, s.job j = some x →
      ((s.driver x.driver).closed = false → Within (s.db x) o st) ∧
        ((s.exec j x o st).2 = true → WithinScript j (s.exec j x o st).1 rest)))

end Decide

/-- **What the calls say of the file.** -/
structure Honest (s : State ω) : Prop where
  /-- two bodies do not overlap -/
  serial : ∀ i j x y, s.Queued i x → s.Queued j y → x.Running → y.Running → i = j
  /-- they run in the order in which the calls were made -/
  ordered : ∀ i j x y, i < j → s.Queued i x → s.Queued j y → y.phase ≠ .waiting → x.settled = true
  /-- a transaction that resolves has committed, and what its body has written is durable, and nothing else of it -/
  resolved : ∀ j x, s.job j = some x → x.kind = .transaction → x.phase = .settled .resolved →
    x.committed = true ∧ (s.durable.filter fun w => w.1 = j) = x.writes.written
  /-- nothing is durable of one that is rejected -/
  rejected : ∀ j x error, s.job j = some x → x.kind = .transaction → x.phase = .settled (.rejected error) →
    ∀ w ∈ s.durable, w.1 ≠ j
  /-- it leaves no transaction in progress, in which a later BEGIN would fail -/
  released : ∀ d t x, (s.driver d).writable = some t → s.job t.owner = some x → x.kind = .transaction → x.settled = false
  /-- one that is made after `close()` never begins -/
  late : ∀ j x, s.job j = some x → x.kind = .transaction → x.late = true →
    x.phase = .waiting ∨ x.phase = .settled (.rejected .abandoned)
  /-- the deadline is reported only of what was not committed -/
  deadline : ∀ j x, s.job j = some x → x.kind = .transaction → x.phase = .settled (.rejected .deadline) → x.committed = false

/-- Nothing of a driver that is closed becomes durable. -/
def Quiet (cfg : ℕ → Config) (s : State ω) (e : Event ω) : Prop :=
  ∀ j x, s.job j = some x → (s.driver x.driver).closed = true →
    ((step cfg s e).1.durable.filter fun w => w.1 = j) = s.durable.filter fun w => w.1 = j

/-- A transaction that is made after `close()` finds its driver closed. -/
def Late (s : State ω) : Prop :=
  ∀ j x, s.job j = some x → x.kind = .transaction → x.late = true →
    (s.driver x.driver).closed = true ∧ (x.phase = .waiting ∨ x.phase = .settled (.rejected .abandoned))

/-- The invariant of the runs. -/
structure Inv (s : State ω) : Prop where
  queue : Queue s
  tags : Tags s
  sound : Sound s
  late : Late s

namespace Inv

theorem honest (h : Inv s) : Honest s where
  serial := by
    intro i j x y hx hy hxr hyr
    by_contra hij
    exact h.queue.alone hy (Or.inl hyr) hij hx hxr
  ordered := h.queue.ordered
  resolved := fun j x hx hk => (h.sound.kept j x hx hk).resolved
  rejected := by
    intro j x error hx hk hp w hw hwj
    obtain ⟨z, hz, hzk⟩ | ⟨z, hz, -, hzp⟩ := h.sound.durable w hw
    · rw [hwj] at hz
      rw [Option.some.inj (hz.symm.trans hx), hk] at hzk
      cases hzk
    · rw [hwj] at hz
      rw [Option.some.inj (hz.symm.trans hx), hp] at hzp
      cases hzp
  released := by
    intro d t x ht hx hk
    by_contra hs
    -- some transaction runs on the handle, and it owns what is in progress
    have hrun : ∃ j y, s.job j = some y ∧ y.kind = .transaction ∧ y.Running ∧ y.driver = d := by
      by_contra hno
      obtain ⟨⟨z, hz, hzk⟩, -⟩ := h.sound.idle d (fun j y hy hyk hyr hyd => hno ⟨j, y, hy, hyk, hyr, hyd⟩) t ht
      rw [Option.some.inj (hz.symm.trans hx), hk] at hzk
      cases hzk
    obtain ⟨j, y, hy, hyk, hyr, rfl⟩ := hrun
    have hown := ((h.sound.kept j y hy hyk).owned hyr t ht).1
    rw [hown] at hx
    rw [Option.some.inj (hx.symm.trans hy), hyr.2] at hs
    exact hs rfl
  late := fun j x hx hk hl => (h.late j x hx hk hl).2
  deadline := by
    intro j x hx hk hp
    by_contra hc
    have hres := (h.sound.kept j x hx hk).committed (by simpa using hc)
    rw [hp] at hres
    cases hres

theorem init : Inv (State.init : State ω) where
  queue := Queue.init
  tags := by
    intro d t ht
    cases ht
  sound := by
    constructor
    · intro j x hx
      cases hx
    · intro d _ t ht
      cases ht
    · intro d hc
      cases hc
    · intro w hw
      cases hw
  late := by
    intro j x hx
    cases hx

end Inv

/-! ### Steps -/

theorem alone_of_running (hq : Queue s) (hx : s.job j = some x) (hk : x.queued = true) (hr : x.Running) : Alone s j :=
  fun _ _ hi hz => hq.alone ⟨hx, hk⟩ (Or.inl hr) hi hz

theorem sound_script (call : List (Statement ω × Outcome)) (h : Sound s) (hq : Queue s) (hx : s.job j = some x)
    (hr : x.Running) (hk : x.queued = true) (hw : x.kind = .transaction → WithinScript j s call) : Sound (s.script j call) := by
  induction call generalizing s x with
  | nil => exact h
  | cons c rest ih =>
    obtain ⟨st, o⟩ := c
    have hm := move_exec hx o st
    have halone := alone_of_running hq hx hk hr
    have hexec : Sound (s.exec j x o st).1 := by
      cases hkind : x.kind with
      | transaction => exact h.exec_within hx hkind hr halone (hw hkind x hx).1
      | bootstrap => exact h.exec_boot hx hkind hr halone
      | readSnapshot =>
        have hnot : x.queued = false := by simp [Job.queued, hkind]
        rw [hk] at hnot
        cases hnot
    rw [State.script, hx]
    dsimp only
    split
    · next hdone =>
      refine ih hexec (hq.move hm id (fun hp => absurd hp hr.1) id) hm.self hr hk fun hkind => ?_
      exact (hw hkind x hx).2 hdone
    · exact hexec

theorem sound_start (h : Sound s) (hq : Queue s) (hx : s.job j = some x) (hp : x.phase = .waiting) (hready : s.ready x = true)
    (o : Outcome) : Sound (s.start cfg j x o) := by
  have hns := Job.not_settled_of_waiting hp
  have halone : x.queued = true → Alone s j := fun hk i z hi hz => hq.alone ⟨hx, hk⟩ (Or.inr ⟨hp, hready⟩) hi hz
  unfold State.start
  dsimp only
  split
  · next hk =>
    have ha := halone (queued_of_transaction hk)
    split
    · exact h.setPhase hx hns ha fun _ => Or.inr ⟨⟨_, rfl⟩, not_running_of_waiting hp⟩
    · next hopen =>
      have hc : (s.driver x.driver).closed = false := by
        simp only [Bool.or_eq_true, not_or] at hopen
        simpa using hopen.1
      have hold := h.kept j x hx hk
      have harmed := h.setJob (y := { x with expiresAt := s.deadline (cfg x.driver).transactionDeadlineMs }) hx rfl rfl rfl rfl
        hns ha (fun _ => .of_unresolved (ne_resolved hns) (hold.uncommitted hns) (fun hr => absurd hr (not_running_of_waiting hp))
          hold.fresh hold.tags) fun _ hr => absurd hr (not_running_of_waiting hp)
      have hm := Move.setJob (y := { x with expiresAt := s.deadline (cfg x.driver).transactionDeadlineMs }) hx rfl rfl rfl rfl
      exact harmed.begin hm.self hk hp (ha.congr fun i hi => hm.other hi) hc o
  · next hk => exact h.setPhase hx hns (halone (queued_of_bootstrap hk)) fun hkt => by rw [hk] at hkt; cases hkt
  · next hk =>
    have hno := noWrite_begin (s := s) (j := j) (o := o) hk
    obtain ⟨y, hm, -⟩ := move_begin hx hp o
    exact h.move_snapshot hm hk hno.writable hno.durable

theorem sound_issue {call : List (Statement ω × Outcome)} (h : Sound s) (hq : Queue s) (hx : s.job j = some x)
    (hp : x.phase = .body) (hw : x.kind = .transaction → s.refuses x call = false → WithinScript j s call) :
    Sound (s.issue j x call) := by
  unfold State.issue
  split
  · exact h
  · next href =>
    by_cases hk : x.kind = .readSnapshot
    · have hno := noWrite_script call hx hk
      obtain ⟨y, hm, -⟩ := move_script call hx
      exact h.move_snapshot hm hk hno.writable hno.durable
    · exact sound_script call h hq hx (running_of_body hp) (by simpa [Job.queued] using hk) fun hkt => hw hkt (by simpa using href)

theorem sound_returns (h : Sound s) (hq : Queue s) (hx : s.job j = some x) (hp : x.phase = .body) (o : Outcome) :
    Sound (s.returns j x o) := by
  have hr := running_of_body hp
  obtain ⟨y, hm, -⟩ := move_returns hx hp o
  cases hk : x.kind with
  | transaction =>
    have ha := alone_of_running hq hx (queued_of_transaction hk) hr
    unfold State.returns
    rw [if_neg (by rw [hk]; decide)]
    split
    · exact h.setPhase hx hr.2 ha fun _ => Or.inl ⟨⟨_, rfl⟩, hr⟩
    · exact h.commit hx hk hp ha o
  | bootstrap =>
    have ha := alone_of_running hq hx (queued_of_bootstrap hk) hr
    unfold State.returns
    rw [if_pos hk]
    exact h.setPhase hx hr.2 ha fun hkt => by rw [hk] at hkt; cases hkt
  | readSnapshot =>
    have hno : NoWrite s (s.returns j x o) := by
      unfold State.returns
      rw [if_neg (by rw [hk]; decide)]
      split
      · exact noWrite_setPhase _ _ _
      · exact (noWrite_exec _ _ _ _ hk).trans (noWrite_setPhase _ _ _)
    exact h.move_snapshot hm hk hno.writable hno.durable

theorem sound_throws (h : Sound s) (hq : Queue s) (hx : s.job j = some x) (hp : x.phase = .body) (error : Failure) :
    Sound (s.throws j x error) := by
  have hr := running_of_body hp
  cases hk : x.kind with
  | transaction =>
    have ha := alone_of_running hq hx (queued_of_transaction hk) hr
    unfold State.throws
    rw [if_neg (by rw [hk]; decide)]
    exact h.setPhase hx hr.2 ha fun _ => Or.inl ⟨⟨_, rfl⟩, hr⟩
  | bootstrap =>
    have ha := alone_of_running hq hx (queued_of_bootstrap hk) hr
    have hkt : x.kind ≠ .transaction := by rw [hk]; decide
    unfold State.throws
    rw [if_pos hk]
    split
    · exact h.setPhase hx hr.2 ha fun hkx => absurd hkx hkt
    · split
      · exact h.setPhase hx hr.2 ha fun hkx => absurd hkx hkt
      · exact h.setJob hx rfl rfl rfl rfl hr.2 ha (fun hkx => absurd hkx hkt) fun hkx => absurd hkx hkt
  | readSnapshot =>
    have heq : s.throws j x error = s.setPhase j (.rollingBack error) := by
      unfold State.throws
      rw [if_neg (by rw [hk]; decide)]
    rw [heq]
    exact h.move_snapshot (Move.setPhase hx _) hk (by simp) (by simp)

theorem sound_rollback {error : Failure} (h : Sound s) (hq : Queue s) (hx : s.job j = some x) (hp : x.phase = .rollingBack error)
    (hw : x.kind = .transaction → o = .fails → (s.driver x.driver).writable = none) : Sound (s.rollback j x error o) := by
  have hr := running_of_rollingBack hp
  have hm := move_exec hx o .ROLLBACK
  cases hk : x.kind with
  | transaction => exact h.rollback hx hk hp (alone_of_running hq hx (queued_of_transaction hk) hr) (hw hk)
  | bootstrap =>
    have ha := alone_of_running hq hx (queued_of_bootstrap hk) hr
    have hexec : Sound (s.exec j x o .ROLLBACK).1 := h.exec_boot hx hk hr ha
    refine hexec.setPhase hm.self hr.2 (ha.congr fun i hi => hm.other hi) fun hkt => ?_
    have hkx : x.kind = .transaction := hkt
    rw [hk] at hkx
    cases hkx
  | readSnapshot =>
    have hno := (noWrite_exec s j o .ROLLBACK hk).trans
      (noWrite_setPhase _ j (.settled (.rejected error)))
    exact h.move_snapshot (hm.trans (Move.setPhase hm.self _)) hk hno.writable hno.durable

theorem closed_setDriver {d : ℕ} {a : Driver ω} (h : Sound s) (ha : a.closed = true → a.writable = none) (e : ℕ)
    (hc : ((s.setDriver d a).driver e).closed = true) : ((s.setDriver d a).driver e).writable = none := by
  by_cases he : e = d
  · subst he
    rw [setDriver_driver_self] at hc ⊢
    exact ha hc
  · rw [setDriver_driver_of_ne he] at hc ⊢
    exact h.closed e hc

theorem Sound.setDriver {d : ℕ} {a : Driver ω} (h : Sound s) (hw : a.writable = none ∨ a.writable = (s.driver d).writable)
    (ha : a.closed = true → a.writable = none) : Sound (s.setDriver d a) :=
  h.still (fun _ _ hz => hz) (fun _ _ hz => Or.inl hz) (writable_setDriver hw) (closed_setDriver h ha) rfl

theorem sound_shut (h : Sound s) (d : ℕ) : Sound (s.shut d) := h.setDriver (.inl rfl) fun _ => rfl

theorem sound_close (h : Sound s) (d : ℕ) : Sound (s.close cfg d) := by
  unfold State.close
  dsimp only
  split
  · exact h
  · split
    · exact sound_shut (h.setDriver (a := { s.driver d with closing := true }) (.inr rfl) (h.closed d)) d
    · exact h.setDriver (.inr rfl) (h.closed d)

theorem sound_drained (h : Sound s) (d : ℕ) (timer : Bool) : Sound (s.drained d timer) := by
  unfold State.drained
  split
  · exact h
  · split
    · exact sound_shut h d
    · exact h

/-- A call that comes. -/
theorem sound_of_new (h : Sound s) (hq : Queue s) {new : Job ω} (hp : new.phase = .waiting) (he : new.writes = .empty)
    (hcom : new.committed = false) (hjob : t.job = Function.update s.job s.next (some new))
    (hw : ∀ d, (t.driver d).writable = (s.driver d).writable) (hc : ∀ d, (t.driver d).closed = (s.driver d).closed)
    (hd : t.durable = s.durable) : Sound t := by
  refine h.still (fun i z hz => ?_) (fun i z hz => ?_) (fun d tx htx => hw d ▸ htx) (fun d hcl => ?_) hd
  · have := hq.fresh i z hz
    rw [hjob, Function.update_of_ne (by omega)]
    exact hz
  · rw [hjob] at hz
    by_cases hi : i = s.next
    · subst hi
      rw [Function.update_self] at hz
      cases hz
      exact Or.inr ⟨hp, he, hcom⟩
    · rw [Function.update_of_ne hi] at hz
      exact Or.inl hz
  · rw [hw]
    exact h.closed d (hc d ▸ hcl)

theorem driver_enqueueWrite (s : State ω) (d : ℕ) (kind : Kind) (e : ℕ) :
    ((s.enqueueWrite d kind).driver e).writable = (s.driver e).writable ∧
      ((s.enqueueWrite d kind).driver e).closed = (s.driver e).closed := by
  change (((s.setDriver d { s.driver d with queue := some s.next }).driver e).writable = _) ∧
    (((s.setDriver d { s.driver d with queue := some s.next }).driver e).closed = _)
  by_cases he : e = d
  · subst he
    rw [setDriver_driver_self]
    exact ⟨rfl, rfl⟩
  · rw [setDriver_driver_of_ne he]
    exact ⟨rfl, rfl⟩

/-- **Step.** -/
theorem sound_step (h : Sound s) (hq : Queue s) {e : Event ω} (hk : Keeps s e) : Sound (step cfg s e).1 := by
  have hd := does_step cfg s e
  generalize (step cfg s e).1 = t at hd ⊢
  cases hd with
  | nothing => exact h
  | queued d kind =>
    have hdriver := driver_enqueueWrite s d kind
    exact sound_of_new h hq rfl rfl rfl rfl (fun e => (hdriver e).1) (fun e => (hdriver e).2) rfl
  | snapshot d expiresAt => exact sound_of_new h hq rfl rfl rfl rfl (fun _ => rfl) (fun _ => rfl) rfl
  | start hx hp hr => exact sound_start h hq hx hp hr _
  | issue hx hp => exact sound_issue h hq hx hp fun hkt => hk _ hx hkt hp
  | returns hx hp => exact sound_returns h hq hx hp _
  | throws hx hp => exact sound_throws h hq hx hp _
  | rollback hx hp => exact sound_rollback h hq hx hp fun hkt => hk _ _ hx hkt hp
  | tick | forget => exact h.still (fun _ _ hz => hz) (fun _ _ hz => Or.inl hz) (fun _ _ hw => hw) h.closed rfl
  | close => exact sound_close h _
  | drained => exact sound_drained h _ _

theorem closed_of_setDriver {d : ℕ} {a : Driver ω} (ha : (s.driver d).closed = true → a.closed = true) (e : ℕ)
    (h : (s.driver e).closed = true) : ((s.setDriver d a).driver e).closed = true := by
  by_cases he : e = d
  · subst he
    rw [setDriver_driver_self]
    exact ha h
  · rw [setDriver_driver_of_ne he]
    exact h

theorem job_close (s : State ω) (d : ℕ) : (s.close cfg d).job = s.job := by
  unfold State.close
  dsimp only
  split_ifs <;> rfl

theorem closed_close (s : State ω) (d e : ℕ) (h : (s.driver e).closed = true) : ((s.close cfg d).driver e).closed = true := by
  unfold State.close
  dsimp only
  split_ifs
  · exact h
  · exact closed_of_setDriver (fun _ => rfl) e (closed_of_setDriver (a := { s.driver d with closing := true }) (fun hc => hc) e h)
  · refine closed_of_setDriver ?_ e h
    exact fun hc => hc

theorem job_drained (s : State ω) (d : ℕ) (timer : Bool) : (s.drained d timer).job = s.job := by
  unfold State.drained
  split
  · rfl
  · split <;> rfl

theorem closed_drained (s : State ω) (d : ℕ) (timer : Bool) (e : ℕ) (h : (s.driver e).closed = true) :
    ((s.drained d timer).driver e).closed = true := by
  unfold State.drained
  split
  · exact h
  · split
    · exact closed_of_setDriver (fun _ => rfl) e h
    · exact h

theorem late_of_move (h : Late s) (hm : Move s t j x y)
    (hy : x.kind = .transaction → (s.driver x.driver).closed = true → x.phase = .waiting ∨ x.phase = .settled (.rejected .abandoned) →
      y.phase = .waiting ∨ y.phase = .settled (.rejected .abandoned)) : Late t := by
  intro i z hz hk hl
  by_cases hi : i = j
  · subst hi
    have hzy : z = y := Option.some.inj (hz.symm.trans hm.self)
    subst hzy
    obtain ⟨hc, hp⟩ := h i x hm.before (hm.kind.symm.trans hk) (hm.late.symm.trans hl)
    refine ⟨?_, hy (hm.kind.symm.trans hk) hc hp⟩
    rw [(hm.shell _).closed, hm.driver]
    exact hc
  · obtain ⟨hc, hp⟩ := h i z ((hm.other hi) ▸ hz) hk hl
    exact ⟨by rw [(hm.shell _).closed]; exact hc, hp⟩

theorem late_of_still (h : Late s) (hjob : t.job = s.job) (hc : ∀ d, (s.driver d).closed = true → (t.driver d).closed = true) :
    Late t := by
  intro i z hz hk hl
  obtain ⟨hcl, hp⟩ := h i z (hjob ▸ hz) hk hl
  exact ⟨hc _ hcl, hp⟩

theorem late_of_new (h : Late s) {b : Job ω} (hp : b.phase = .waiting)
    (hnew : b.kind = .transaction → b.late = true → (s.driver b.driver).closed = true)
    (hjob : t.job = Function.update s.job s.next (some b)) (hc : ∀ d, (t.driver d).closed = (s.driver d).closed) : Late t := by
  intro i z hz hk hl
  rw [hjob] at hz
  by_cases hi : i = s.next
  · subst hi
    rw [Function.update_self] at hz
    cases hz
    exact ⟨by rw [hc]; exact hnew hk hl, Or.inl hp⟩
  · rw [Function.update_of_ne hi] at hz
    obtain ⟨hcl, hp⟩ := h i z hz hk hl
    exact ⟨by rw [hc]; exact hcl, hp⟩

/-- **Step.** -/
theorem late_step (h : Late s) (e : Event ω) : Late (step cfg s e).1 := by
  -- a late transaction is in none of the other phases
  have hother : ∀ {x y : Job ω}, x.phase ≠ .waiting → x.settled = false → x.kind = .transaction → (s.driver x.driver).closed = true →
      x.phase = .waiting ∨ x.phase = .settled (.rejected .abandoned) →
      y.phase = .waiting ∨ y.phase = .settled (.rejected .abandoned) := by
    intro x y hw hs _ _ hp
    obtain hp | hp := hp
    · exact absurd hp hw
    · rw [Job.settled_of_phase hp] at hs
      cases hs
  have hchange := change_step cfg s e
  have hd := does_step cfg s e
  generalize (step cfg s e).1 = t at hd hchange ⊢
  cases hd with
  | nothing => exact h
  | queued d kind _ hopen =>
    refine late_of_new h (b := s.newJob d kind ((s.driver d).queue.toList ++ s.writeQueue.toList) none) rfl (fun _ hl => ?_) rfl
      fun e => (driver_enqueueWrite s d kind e).2
    have hclosing : (s.driver d).closing = true := hl
    rw [hclosing, Bool.true_and] at hopen
    change (s.driver d).closed = true
    simpa using hopen
  | snapshot d expiresAt =>
    exact late_of_new h (b := s.newJob d .readSnapshot [] expiresAt) rfl (fun hk => by cases hk) rfl fun _ => rfl
  | @start j x o hx hp hr =>
    by_cases hk : x.kind = .transaction ∧ (s.driver x.driver).closed = true
    · have heq : s.start cfg j x o = s.setPhase j (.settled (.rejected .abandoned)) := by
        unfold State.start
        simp [hk.1, hk.2]
      rw [heq]
      exact late_of_move h (Move.setPhase hx _) fun _ _ _ => Or.inr rfl
    · obtain ⟨y, hm, -⟩ : ∃ y, Move s (s.start cfg j x o) j x y ∧ Onward x y := move_start hx hp o
      exact late_of_move h hm fun hkt hc _ => absurd ⟨hkt, hc⟩ hk
  | issue hx hp =>
    obtain ⟨y, hm, -⟩ := move_issue hx _
    exact late_of_move h hm (hother (running_of_body hp).1 (running_of_body hp).2)
  | returns hx hp =>
    obtain ⟨y, hm, -⟩ := move_returns hx hp _
    exact late_of_move h hm (hother (running_of_body hp).1 (running_of_body hp).2)
  | throws hx hp =>
    obtain ⟨y, hm, -⟩ := move_throws hx hp _
    exact late_of_move h hm (hother (running_of_body hp).1 (running_of_body hp).2)
  | rollback hx hp =>
    obtain ⟨y, hm, -⟩ := move_rollback hx hp _
    exact late_of_move h hm (hother (running_of_rollingBack hp).1 (running_of_rollingBack hp).2)
  | tick | forget => exact late_of_still h rfl fun _ hc => hc
  | close => exact late_of_still h (job_close s _) (closed_close s _)
  | drained => exact late_of_still h (job_drained s _ _) (closed_drained s _ _)

theorem inv_step (h : Inv s) {e : Event ω} (hk : Keeps s e) : Inv (step cfg s e).1 where
  queue := h.queue.step e
  tags := (spread_step h.queue h.tags e).tags
  sound := sound_step h.sound h.queue hk
  late := late_step h.late e

theorem quiet_step (hq : Queue s) (ht : Tags s) (e : Event ω) : Quiet cfg s e := by
  intro j x hx hc
  have hspread : Spread s (step cfg s e).1 := spread_step hq ht e
  obtain ⟨ws, hws, hall⟩ := hspread.grows
  have hnone : (ws.filter fun w => w.1 = j) = [] := by
    rw [List.filter_eq_nil_iff]
    intro w hw hwj
    have hwj' : w.1 = j := by simpa using hwj
    obtain ⟨z, hz, hzc⟩ := hall w hw
    rw [hwj'] at hz
    rw [Option.some.inj (hz.symm.trans hx), hc] at hzc
    cases hzc
  rw [hws, List.filter_append, hnone, List.append_nil]

/-- **Transactions are serial and honest.**  In every run whose steps keep the condition the calls say of the file what is so;
in every run nothing of a closed driver becomes durable; and in every endless one in which the front of the queue always moves
again, every call that was accepted settles. -/
theorem callers_honest (cfg : ℕ → Config) :
    (∀ es : List (Event ω), Run.Along (step cfg) Keeps State.init es → Run.Throughout (step cfg) Honest State.init es) ∧
      (∀ es : List (Event ω), Run.Along (step cfg) (Quiet cfg) State.init es) ∧
      ∀ e : ℕ → Event ω, Fair cfg State.init e → ∀ n j x, (Run.nth (step cfg) State.init e n).Queued j x →
        ∃ m, n ≤ m ∧ (Run.nth (step cfg) State.init e m).settledAt j = true := by
  refine ⟨fun es hk => ?_, fun es => ?_, fun e hfair n j x hx => settles Queue.init hfair hx⟩
  · exact (Run.throughout_of_along (P := Inv) (fun _ _ hk h => inv_step h hk) Inv.init hk).mono fun _ => Inv.honest
  · have hall : Run.Throughout (step cfg) (fun s => Queue s ∧ Tags s) State.init es := by
      refine Run.throughout_of_along (C := fun _ _ => True) (fun s e _ h => ?_) ⟨Queue.init, Inv.init.tags⟩
        (Run.along_of_forall fun _ _ => trivial)
      exact ⟨h.1.step e, (spread_step h.1 h.2 e).tags⟩
    exact hall.along fun s e h => quiet_step h.1 h.2 e

section Fixed

def options : ℕ → Config := fun _ => ⟨2000, 30000, 900000⟩

/-- A transaction with a savepoint, and another behind it that throws. -/
def twoRun : List (Event ℕ) :=
  [.transaction 0 .write false, .transaction 1 .write false, .start 0 .ok,
    .issue 0 [(.write 1, .ok), (.SAVEPOINT "a", .ok), (.write 2, .fails)], .issue 0 [(.ROLLBACK_TO "a", .ok), (.write 3, .ok)],
    .returns 0 .ok, .start 1 .ok, .issue 1 [(.write 4, .ok)], .throws 1 .body, .rollback 1 .ok]

/-- One transaction, and nothing more. -/
def fairRun : ℕ → Event ℕ
  | 0 => .transaction 0 .write false
  | 1 => .start 0 .ok
  | 2 => .returns 0 .ok
  | _ => .tick 1

theorem job_fairRun (n : ℕ) : (Run.nth (step options) State.init fairRun (n + 3)).job =
    (Run.nth (step options) State.init fairRun 3).job := by
  induction n with
  | zero => rfl
  | succ n ih => exact ih

/-- The only call of the run, before it starts. -/
def firstJob : Job ℕ := (State.init : State ℕ).newJob 0 .transaction [] none

theorem fair_fairRun : Fair options State.init fairRun := by
  rintro n ⟨j, x, ⟨hx, -⟩, hs, -⟩
  have hfront : ∀ {s : State ℕ} {x : Job ℕ}, s.job 0 = some x → x.queued = true → x.settled = false → s.Front 0 :=
    fun hx hq hs => ⟨_, ⟨hx, hq⟩, hs, fun i y hi => absurd hi (by omega)⟩
  obtain rfl | rfl | rfl | ⟨m, rfl⟩ : n = 0 ∨ n = 1 ∨ n = 2 ∨ ∃ m, n = m + 3 := by
    by_cases hn : n < 3
    · omega
    · exact Or.inr (Or.inr (Or.inr ⟨n - 3, by omega⟩))
  · cases hx
  · exact ⟨1, le_rfl, 0, firstJob, hfront (x := firstJob) rfl rfl rfl, rfl, rfl⟩
  · have hjob : (Run.nth (step options) State.init fairRun 2).job 0 =
        some { firstJob with phase := .body, expiresAt := some 30000 } := rfl
    exact ⟨2, le_rfl, 0, _, hfront hjob rfl rfl, hjob, rfl⟩
  · rw [job_fairRun] at hx
    by_cases hj : j = 0
    · subst hj
      have hjob : (Run.nth (step options) State.init fairRun 3).job 0 =
          some { firstJob with phase := .settled .resolved, expiresAt := some 30000, committed := true } := rfl
      rw [hjob] at hx
      cases hx
      cases hs
    · have hqueue : Queue (Run.nth (step options) State.init fairRun 3) :=
        Run.nth_induction (fun _ i h => h.step i) Queue.init fairRun 3
      have hlt : j < 1 := hqueue.fresh j x hx
      omega

theorem callers_honest_twoRun :
    Run.Throughout (step options) Honest State.init twoRun ∧
      (Run.final (step options) State.init twoRun).durable = [(0, 1), (0, 3)] ∧
      ∃ m, 1 ≤ m ∧ (Run.nth (step options) State.init fairRun m).settledAt 0 = true := by
  have hall := callers_honest (ω := ℕ) options
  have hfirst : (Run.nth (step options) State.init fairRun 1).Queued 0 firstJob := ⟨rfl, rfl⟩
  refine ⟨hall.1 twoRun ?_, by decide +kernel, hall.2.2 fairRun fair_fairRun 1 0 firstJob hfirst⟩
  refine ⟨trivial, trivial, trivial, ?_, ?_, trivial, trivial, ?_, trivial, ?_, trivial⟩
  · exact fun _ _ _ _ _ => by decide +kernel
  · exact fun _ _ _ _ _ => by decide +kernel
  · exact fun _ _ _ _ _ => by decide +kernel
  · exact fun _ _ _ _ _ ho => by cases ho

/-- SQLite rolls the transaction back, the body goes on: its second write is durable, and the promise rejects. -/
theorem not_callers_honest :
    ¬∀ es : List (Event ℕ), Run.Throughout (step options) Honest State.init es := by
  intro h
  have hrun := h [.transaction 0 .write false, .start 0 .ok, .issue 0 [(.write 1, .rollsBack)], .issue 0 [(.write 2, .ok)],
    .returns 0 .ok, .rollback 0 .ok]
  obtain ⟨-, -, -, -, -, -, hlast⟩ := hrun
  exact hlast.rejected 0 _ .commit rfl rfl rfl (0, 2) List.mem_cons_self rfl

/-- A ROLLBACK fails inside the transaction: a later call of the driver cannot begin. -/
example : ((Run.final (step options) State.init
    [.transaction 0 .write false, .start 0 .ok, .throws 0 .body, .rollback 0 .fails, .transaction 0 .write false,
      .start 1 .ok]).job 1).map (Job.phase (ω := ℕ)) = some (.settled (.rejected .begin)) := rfl

end Fixed

end LlmGateway.Storage.Sqlite
