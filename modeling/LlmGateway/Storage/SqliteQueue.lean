import LlmGateway.Lib.Run
import LlmGateway.Storage.SqliteDriver
import Mathlib.Algebra.BigOperators.Intervals

/-!
# The write queue of a SQLite file

* `Queue` — the invariant of the promises that calls wait for;
* `Queue.ordered`, `Queue.alone` — calls run one at a time, in the order in which they were made;
* `settles` — in an endless run in which the front of the queue always moves again, every call settles.
-/

namespace LlmGateway.Storage.Sqlite

open LlmGateway.Lib State

variable {ω : Type*} {cfg : ℕ → Config} {s t u : State ω} {j : ℕ} {x y z : Job ω} {o : Outcome} {st : Statement ω}

/-! ## What an event of one call changes -/

/-- The part of a driver that its handles do not touch. -/
structure SameShell (a b : Driver ω) : Prop where
  closing : b.closing = a.closing
  closed : b.closed = a.closed
  drainDeadline : b.drainDeadline = a.drainDeadline
  queue : b.queue = a.queue
  draining : b.draining = a.draining

/-- Only the call `j` has moved, from `x` to `y`, with the handles of its driver and the file. -/
structure Move (s t : State ω) (j : ℕ) (x y : Job ω) : Prop where
  before : s.job j = some x
  job : t.job = Function.update s.job j (some y)
  next : t.next = s.next
  clock : t.clock = s.clock
  writeQueue : t.writeQueue = s.writeQueue
  driver : y.driver = x.driver
  kind : y.kind = x.kind
  after : y.after = x.after
  late : y.late = x.late
  shell : ∀ d, SameShell (s.driver d) (t.driver d)
  others : ∀ d, d ≠ x.driver → t.driver d = s.driver d

theorem SameShell.rfl (a : Driver ω) : SameShell a a := ⟨.refl _, .refl _, .refl _, .refl _, .refl _⟩

theorem SameShell.trans {a b c : Driver ω} (h : SameShell a b) (h' : SameShell b c) : SameShell a c :=
  ⟨h'.1.trans h.1, h'.2.trans h.2, h'.3.trans h.3, h'.4.trans h.4, h'.5.trans h.5⟩

namespace Move

theorem self (h : Move s t j x y) : t.job j = some y := by
  rw [h.job, Function.update_self]

theorem other (h : Move s t j x y) {i : ℕ} (hi : i ≠ j) : t.job i = s.job i := by
  rw [h.job, Function.update_of_ne hi]

theorem queued (h : Move s t j x y) : y.queued = x.queued := by
  unfold Job.queued
  rw [h.kind]

theorem trans (h : Move s t j x y) (h' : Move t u j y z) : Move s u j x z where
  before := h.before
  job := by rw [h'.job, h.job, Function.update_idem]
  next := h'.next.trans h.next
  clock := h'.clock.trans h.clock
  writeQueue := h'.writeQueue.trans h.writeQueue
  driver := h'.driver.trans h.driver
  kind := h'.kind.trans h.kind
  after := h'.after.trans h.after
  late := h'.late.trans h.late
  shell := fun d => (h.shell d).trans (h'.shell d)
  others := fun d hd => (h'.others d (by rw [h.driver]; exact hd)).trans (h.others d hd)

theorem refl (h : s.job j = some x) : Move s s j x x where
  before := h
  job := by rw [← h, Function.update_eq_self]
  next := rfl
  clock := rfl
  writeQueue := rfl
  driver := rfl
  kind := rfl
  after := rfl
  late := rfl
  shell := fun _ => .rfl _
  others := fun _ _ => rfl

theorem setJob (h : s.job j = some x) (hd : y.driver = x.driver) (hk : y.kind = x.kind) (ha : y.after = x.after)
    (hl : y.late = x.late) : Move s (s.setJob j y) j x y where
  before := h
  job := rfl
  next := rfl
  clock := rfl
  writeQueue := rfl
  driver := hd
  kind := hk
  after := ha
  late := hl
  shell := fun _ => .rfl _
  others := fun _ _ => rfl

theorem setPhase (h : s.job j = some x) (p : Phase) : Move s (s.setPhase j p) j x { x with phase := p } := by
  unfold State.setPhase
  rw [h]
  exact setJob h rfl rfl rfl rfl

end Move

@[simp] theorem Job.note_false (x : Job ω) (j : ℕ) (st : Statement ω) : x.note j st false = x := by
  simp [Job.note, Writes.note]

theorem sameShell_setDriver {d : ℕ} {a : Driver ω} (h : SameShell (s.driver d) a) (e : ℕ) :
    SameShell (s.driver e) ((s.setDriver d a).driver e) := by
  unfold State.setDriver
  by_cases he : e = d
  · subst he
    simpa using h
  · simpa [Function.update_of_ne he] using SameShell.rfl _

theorem exec_closed (h : (s.driver x.driver).closed = true) : s.exec j x o st = (s, false) := by
  unfold State.exec
  rw [if_pos h]

theorem move_exec (h : s.job j = some x) (o : Outcome) (st : Statement ω) :
    Move s (s.exec j x o st).1 j x (x.note j st (s.exec j x o st).2) := by
  cases hc : (s.driver x.driver).closed with
  | true =>
    rw [exec_closed hc, Job.note_false]
    exact Move.refl h
  | false =>
    have hne : ∀ d (a : Driver ω), d ≠ x.driver → (s.setDriver x.driver a).driver d = s.driver d := by
      intro d a hd
      exact Function.update_of_ne hd _ _
    unfold State.exec
    rw [hc, if_neg Bool.false_ne_true]
    dsimp only
    split
    · exact { Move.refl h with
        job := rfl
        shell := sameShell_setDriver ⟨rfl, rfl, rfl, rfl, rfl⟩
        others := fun d hd => hne d _ hd }
    · exact { Move.refl h with
        job := rfl
        shell := sameShell_setDriver ⟨rfl, rfl, rfl, rfl, rfl⟩
        others := fun d hd => hne d _ hd }

theorem move_script (call : List (Statement ω × Outcome)) (h : s.job j = some x) :
    ∃ y, Move s (s.script j call) j x y ∧ y.phase = x.phase ∧ y.attempt = x.attempt := by
  induction call generalizing s x with
  | nil => exact ⟨x, Move.refl h, rfl, rfl⟩
  | cons c rest ih =>
    obtain ⟨st, o⟩ := c
    have hm := move_exec h o st
    have heq : s.script j ((st, o) :: rest) =
        if (s.exec j x o st).2 then (s.exec j x o st).1.script j rest else (s.exec j x o st).1 := by
      rw [State.script]
      rw [h]
    rw [heq]
    split
    · obtain ⟨y, hy, hp, ha⟩ := ih hm.self
      exact ⟨y, hm.trans hy, hp, ha⟩
    · exact ⟨_, hm, rfl, rfl⟩

/-! ## The stages of a call -/

namespace Job

/-- Between its start and its end. -/
def Running (x : Job ω) : Prop := x.phase ≠ .waiting ∧ x.settled = false

/-- How many moves the call may still make. -/
def rank (x : Job ω) : ℕ :=
  match x.phase with
  | .waiting => 67
  | .body => 2 + (64 - x.attempt)
  | .rollingBack _ => 1
  | .settled _ => 0

theorem settled_of_phase {r : Result} (h : x.phase = .settled r) : x.settled = true := by
  unfold settled
  rw [h]

theorem settled_iff_rank : x.settled = true ↔ x.rank = 0 := by
  unfold settled rank
  cases x.phase <;> simp

theorem rank_congr (hp : y.phase = x.phase) (ha : y.attempt = x.attempt) : y.rank = x.rank := by
  unfold rank
  rw [hp, ha]

theorem not_settled_of_waiting (h : x.phase = .waiting) : x.settled = false := by
  unfold settled
  rw [h]

end Job

/-- A move of the call `j` itself. -/
def Event.acts (e : Event ω) (j : ℕ) (p : Phase) : Prop :=
  match e, p with
  | .start i _, .waiting => i = j
  | .returns i _, .body => i = j
  | .throws i _, .body => i = j
  | .rollback i _, .rollingBack _ => i = j
  | _, _ => False

/-- What a call has after a move: it is on, and it comes closer to its end. -/
structure Onward (x y : Job ω) : Prop where
  phase : y.phase ≠ .waiting
  rank : y.rank < x.rank

section Parts

theorem move_begin (h : s.job j = some x) (hw : x.phase = .waiting) (o : Outcome) :
    ∃ y, Move s (s.begin j x o) j x y ∧ Onward x y := by
  have hm := move_exec h o .BEGIN
  unfold State.begin
  dsimp only
  split
  · refine ⟨_, hm.trans (Move.setPhase hm.self .body), by simp, ?_⟩
    simp only [Job.rank, hw]
    omega
  · refine ⟨_, hm.trans (Move.setPhase hm.self _), by simp, ?_⟩
    simp [Job.rank, hw]

theorem move_start (h : s.job j = some x) (hw : x.phase = .waiting) (o : Outcome) :
    ∃ y, Move s (s.start cfg j x o) j x y ∧ Onward x y := by
  unfold State.start
  dsimp only
  split
  · split
    · refine ⟨_, Move.setPhase h _, by simp, ?_⟩
      simp [Job.rank, hw]
    · have hm := Move.setJob (y := { x with expiresAt := s.deadline (cfg x.driver).transactionDeadlineMs }) h rfl rfl rfl rfl
      obtain ⟨y, hy, hp, hr⟩ := move_begin hm.self (o := o) hw
      exact ⟨y, hm.trans hy, hp, hr⟩
  · refine ⟨_, Move.setPhase h _, ?_, ?_⟩
    · split <;> simp
    · simp only [Job.rank, hw]
      split
      · next hif =>
        split at hif
        · cases hif
        · cases hif
      all_goals omega
  · exact move_begin h hw o

theorem move_issue (h : s.job j = some x) (call : List (Statement ω × Outcome)) :
    ∃ y, Move s (s.issue j x call) j x y ∧ y.phase = x.phase ∧ y.attempt = x.attempt := by
  unfold State.issue
  split
  · exact ⟨x, Move.refl h, rfl, rfl⟩
  · exact move_script call h

theorem move_returns (h : s.job j = some x) (hb : x.phase = .body) (o : Outcome) :
    ∃ y, Move s (s.returns j x o) j x y ∧ Onward x y := by
  have hm := move_exec h o .COMMIT
  unfold State.returns
  split
  · refine ⟨_, Move.setPhase h _, by simp, ?_⟩
    simp only [Job.rank, hb]
    omega
  · split
    · refine ⟨_, Move.setPhase h _, by simp, ?_⟩
      simp only [Job.rank, hb]
      omega
    · refine ⟨_, hm.trans (Move.setPhase hm.self _), ?_, ?_⟩
      · split <;> simp
      · simp only [Job.rank, hb]
        split
        · next hif => split at hif <;> cases hif
        · next hif => split at hif <;> cases hif
        all_goals omega

theorem move_throws (h : s.job j = some x) (hb : x.phase = .body) (error : Failure) :
    ∃ y, Move s (s.throws j x error) j x y ∧ Onward x y := by
  unfold State.throws
  split
  · split
    · refine ⟨_, Move.setPhase h _, by simp, ?_⟩
      simp only [Job.rank, hb]
      omega
    · next hretry =>
      split
      · refine ⟨_, Move.setPhase h _, by simp, ?_⟩
        simp only [Job.rank, hb]
        omega
      · refine ⟨_, Move.setJob h rfl rfl rfl rfl, by simp [hb], ?_⟩
        simp only [Job.rank, hb]
        omega
  · refine ⟨_, Move.setPhase h _, by simp, ?_⟩
    simp only [Job.rank, hb]
    omega

theorem move_rollback (h : s.job j = some x) {error : Failure} (hr : x.phase = .rollingBack error) (o : Outcome) :
    ∃ y, Move s (s.rollback j x error o) j x y ∧ Onward x y := by
  have hm := move_exec h o .ROLLBACK
  refine ⟨_, hm.trans (Move.setPhase hm.self _), by simp, ?_⟩
  simp [Job.rank, hr]

end Parts

/-! ## One event -/

/-- **What an event does**, where it does anything. -/
inductive Does (cfg : ℕ → Config) (s : State ω) : Event ω → State ω → Prop
  | nothing {e : Event ω} : Does cfg s e s
  | queued {e : Event ω} (d : ℕ) (kind : Kind) (hkind : kind ≠ .readSnapshot)
      (hopen : ((s.driver d).closing && !(s.driver d).closed) = false) : Does cfg s e (s.enqueueWrite d kind)
  | snapshot {e : Event ω} (d : ℕ) (expiresAt : Option ℕ) :
      Does cfg s e { s.setJob s.next (s.newJob d .readSnapshot [] expiresAt) with next := s.next + 1 }
  | start {j : ℕ} {x : Job ω} {o : Outcome} (hx : s.job j = some x) (hp : x.phase = .waiting) (hr : s.ready x = true) :
      Does cfg s (.start j o) (s.start cfg j x o)
  | issue {j : ℕ} {x : Job ω} {call : List (Statement ω × Outcome)} (hx : s.job j = some x) (hp : x.phase = .body) :
      Does cfg s (.issue j call) (s.issue j x call)
  | returns {j : ℕ} {x : Job ω} {o : Outcome} (hx : s.job j = some x) (hp : x.phase = .body) :
      Does cfg s (.returns j o) (s.returns j x o)
  | throws {j : ℕ} {x : Job ω} {error : Failure} (hx : s.job j = some x) (hp : x.phase = .body) :
      Does cfg s (.throws j error) (s.throws j x error)
  | rollback {j : ℕ} {x : Job ω} {o : Outcome} {error : Failure} (hx : s.job j = some x) (hp : x.phase = .rollingBack error) :
      Does cfg s (.rollback j o) (s.rollback j x error o)
  | tick {ms : ℕ} : Does cfg s (.tick ms) { s with clock := s.clock + ms }
  | forget : Does cfg s .forget { s with writeQueue := s.writeQueue.filter fun j => !s.settledAt j }
  | close {d : ℕ} : Does cfg s (.close d) (s.close cfg d)
  | drained {d : ℕ} {timer : Bool} : Does cfg s (.drained d timer) (s.drained d timer)

theorem does_step (cfg : ℕ → Config) (s : State ω) (e : Event ω) : Does cfg s e (step cfg s e).1 := by
  cases e with
  | tick ms => exact .tick
  | transaction d operation nested =>
    unfold step
    dsimp only
    split_ifs with hclass hnested hclosing
    · exact .nothing
    · exact .nothing
    · exact .nothing
    · exact .queued d .transaction (by decide) (by simpa using hclosing)
  | bootstrap d nested =>
    unfold step
    dsimp only
    split_ifs with hclosing hnested
    · exact .nothing
    · exact .nothing
    · exact .queued d .bootstrap (by decide) (by simpa using hclosing)
  | readSnapshot d operation nested =>
    unfold step
    dsimp only
    split_ifs
    · exact .nothing
    · exact .nothing
    · exact .nothing
    · exact .snapshot d _
  | start j o =>
    unfold step
    dsimp only
    cases hx : s.job j with
    | none => exact .nothing
    | some x =>
      dsimp only
      split_ifs with h
      · exact .start hx h.1 h.2
      · exact .nothing
  | issue j call =>
    unfold step
    dsimp only
    cases hx : s.job j with
    | none => exact .nothing
    | some x =>
      dsimp only
      split_ifs with h
      · exact .issue hx h
      · exact .nothing
  | returns j o =>
    unfold step
    dsimp only
    cases hx : s.job j with
    | none => exact .nothing
    | some x =>
      dsimp only
      split_ifs with h
      · exact .returns hx h
      · exact .nothing
  | throws j error =>
    unfold step
    dsimp only
    cases hx : s.job j with
    | none => exact .nothing
    | some x =>
      dsimp only
      split_ifs with h
      · exact .throws hx h
      · exact .nothing
  | rollback j o =>
    unfold step
    dsimp only
    cases hx : s.job j with
    | none => exact .nothing
    | some x =>
      dsimp only
      split
      · next error h => exact .rollback hx h
      · exact .nothing
  | forget => exact .forget
  | close d => exact .close
  | drained d timer => exact .drained

/-- What an event does to the calls: it moves one call, it accepts one, or it leaves them as they are. -/
inductive Change (s t : State ω) : Prop where
  | moved (j : ℕ) (x y : Job ω) (move : Move s t j x y) (started : y.phase = .waiting → x.phase = .waiting)
      (ready : x.phase = .waiting → y.phase ≠ .waiting → s.ready x = true) (settled : x.settled = true → y.settled = true)
      (rank : y.rank ≤ x.rank)
  | queued (d : ℕ) (kind : Kind) (kind_ne : kind ≠ .readSnapshot)
      (accepted : ((s.driver d).closing && !(s.driver d).closed) = false) (eq : t = s.enqueueWrite d kind)
  | snapshot (d : ℕ) (expiresAt : Option ℕ)
      (eq : t = { s.setJob s.next (s.newJob d .readSnapshot [] expiresAt) with next := s.next + 1 })
  | still (job : t.job = s.job) (next : t.next = s.next) (queue : ∀ d, (t.driver d).queue = (s.driver d).queue)
      (closed : ∀ d, (s.driver d).closed = true → (t.driver d).closed = true)
      (writeQueue : t.writeQueue = s.writeQueue ∨ t.writeQueue = s.writeQueue.filter fun j => !s.settledAt j)

theorem Change.refl (s : State ω) : Change s s := .still rfl rfl (fun _ => rfl) (fun _ h => h) (.inl rfl)

theorem Change.of_onward (hm : Move s t j x y) (ho : Onward x y) (hr : x.phase = .waiting → s.ready x = true) :
    Change s t := by
  refine .moved j x y hm (fun h => absurd h ho.phase) (fun hw _ => hr hw) (fun hs => ?_) ho.rank.le
  have := ho.rank
  rw [Job.settled_iff_rank.1 hs] at this
  omega

theorem Change.of_setDriver {d : ℕ} {a : Driver ω} (hq : a.queue = (s.driver d).queue)
    (hc : (s.driver d).closed = true → a.closed = true) : Change s (s.setDriver d a) := by
  refine .still rfl rfl (fun e => ?_) (fun e he => ?_) (.inl rfl)
  · by_cases h : e = d
    · subst h
      simpa [State.setDriver] using hq
    · simp [State.setDriver, Function.update_of_ne h]
  · by_cases h : e = d
    · subst h
      simpa [State.setDriver] using hc he
    · simpa [State.setDriver, Function.update_of_ne h] using he

theorem change_shut (s : State ω) (d : ℕ) : Change s (s.shut d) := .of_setDriver rfl fun _ => rfl

theorem change_close (s : State ω) (d : ℕ) : Change s (s.close cfg d) := by
  unfold State.close
  dsimp only
  split
  · exact .refl s
  · split
    · have heq : (s.setDriver d { s.driver d with closing := true }).shut d =
          s.setDriver d { s.driver d with closing := true, closed := true, draining := none, writable := none, readable := none } := by
        simp [State.shut, State.setDriver]
      rw [heq]
      exact .of_setDriver rfl fun _ => rfl
    · exact .of_setDriver rfl id

theorem change_drained (s : State ω) (d : ℕ) (timer : Bool) : Change s (s.drained d timer) := by
  unfold State.drained
  split
  · exact .refl s
  · split
    · exact change_shut s d
    · exact .refl s

/-- **Step.** -/
theorem change_step (cfg : ℕ → Config) (s : State ω) (e : Event ω) : Change s (step cfg s e).1 := by
  have hbody : ∀ {p : Phase} {x : Job ω}, x.phase = p → p ≠ .waiting → x.phase = .waiting → s.ready x = true :=
    fun hp hne hw => absurd (hp.symm.trans hw) hne
  have hd := does_step cfg s e
  generalize (step cfg s e).1 = t at hd ⊢
  cases hd with
  | nothing => exact .refl s
  | queued d kind hkind hopen => exact .queued d kind hkind hopen rfl
  | snapshot d expiresAt => exact .snapshot d expiresAt rfl
  | start hx hp hr =>
    obtain ⟨y, hm, ho⟩ := move_start hx hp _
    exact .of_onward hm ho fun _ => hr
  | issue hx hp =>
    obtain ⟨y, hm, hphase, ha⟩ := move_issue hx _
    have hrank : y.rank = _ := Job.rank_congr hphase ha
    refine .moved _ _ y hm (fun hw => hphase ▸ hw) (fun hw => ?_) (fun hs => ?_) hrank.le
    · rw [hp] at hw
      cases hw
    · rw [Job.settled_iff_rank, hrank]
      exact Job.settled_iff_rank.1 hs
  | returns hx hp =>
    obtain ⟨y, hm, ho⟩ := move_returns hx hp _
    exact .of_onward hm ho (hbody hp (by simp))
  | throws hx hp =>
    obtain ⟨y, hm, ho⟩ := move_throws hx hp _
    exact .of_onward hm ho (hbody hp (by simp))
  | rollback hx hp =>
    obtain ⟨y, hm, ho⟩ := move_rollback hx hp _
    exact .of_onward hm ho (hbody hp (by simp))
  | tick => exact .still rfl rfl (fun _ => rfl) (fun _ h => h) (.inl rfl)
  | forget => exact .still rfl rfl (fun _ => rfl) (fun _ h => h) (.inr rfl)
  | close => exact change_close s _
  | drained => exact change_drained s _ _

/-! ## The invariant of the queue -/

/-- The call `j` is `x`, and it goes through the write queue. -/
def State.Queued (s : State ω) (j : ℕ) (x : Job ω) : Prop := s.job j = some x ∧ x.queued = true

structure Queue (s : State ω) : Prop where
  fresh : ∀ j x, s.job j = some x → j < s.next
  after : ∀ j x, s.job j = some x → ∀ i ∈ x.after, i < j ∧ ∃ y, s.Queued i y
  /-- a call that waits has an unsettled one before it only behind one that it waits for -/
  cover : ∀ i j x y, i < j → s.Queued i x → s.Queued j y → y.phase = .waiting → x.settled = true ∨ ∃ k ∈ y.after, i ≤ k
  ordered : ∀ i j x y, i < j → s.Queued i x → s.Queued j y → y.phase ≠ .waiting → x.settled = true
  tail : ∀ k, s.writeQueue = some k → (∃ y, s.Queued k y) ∧ ∀ i x, s.Queued i x → i ≤ k
  idle : s.writeQueue = none → ∀ i x, s.Queued i x → x.settled = true
  driver : ∀ d k, (s.driver d).queue = some k → ∃ y, s.Queued k y

namespace Queue

theorem settledAt_iff {i : ℕ} : s.settledAt i = true ↔ ∃ x, s.job i = some x ∧ x.settled = true := by
  unfold State.settledAt
  cases s.job i with
  | none => simp
  | some x => simp

/-- What a call that may start waits for has settled, and so has every call before it. -/
theorem settled_of_ready (h : Queue s) {i : ℕ} (hij : i < j) (hx : s.Queued i x) (hy : s.Queued j y)
    (hw : y.phase = .waiting) (hr : s.ready y = true) : x.settled = true := by
  obtain hs | ⟨k, hk, hik⟩ := h.cover i j x y hij hx hy hw
  · exact hs
  · obtain ⟨z, hz, hzs⟩ := settledAt_iff.1 (List.all_eq_true.1 hr k hk)
    obtain ⟨-, z', hz'⟩ := h.after j y hy.1 k hk
    have heq : z' = z := Option.some.inj (hz'.1.symm.trans hz)
    subst heq
    obtain rfl | hlt := Nat.eq_or_lt_of_le hik
    · have hxz : x = z' := Option.some.inj (hx.1.symm.trans hz)
      rw [hxz]
      exact hzs
    · refine h.ordered i k x z' hlt hx hz' fun hwait => ?_
      rw [Job.not_settled_of_waiting hwait] at hzs
      cases hzs

/-- **Nothing else runs** beside a call of the queue that runs or may start. -/
theorem alone (h : Queue s) (hx : s.Queued j x) (hr : x.Running ∨ x.phase = .waiting ∧ s.ready x = true) {i : ℕ}
    (hi : i ≠ j) (hy : s.Queued i y) : ¬y.Running := by
  rintro ⟨hyw, hys⟩
  have hxs : x.settled = false := by
    obtain hr | hr := hr
    · exact hr.2
    · exact Job.not_settled_of_waiting hr.1
  obtain hlt | hlt := Nat.lt_or_gt_of_ne hi
  · have : y.settled = true := by
      obtain hr | hr := hr
      · exact h.ordered i j y x hlt hy hx hr.1
      · exact h.settled_of_ready hlt hy hx hr.1 hr.2
    rw [hys] at this
    cases this
  · have := h.ordered j i x y hlt hx hy hyw
    rw [hxs] at this
    cases this

/-! ### Steps -/

/-- A call after a move was one before it. -/
theorem queued_of_move (hm : Move s t j x y) {i : ℕ} (hz : t.Queued i z) :
    (i ≠ j ∧ s.Queued i z) ∨ (i = j ∧ z = y ∧ s.Queued j x) := by
  by_cases hi : i = j
  · subst hi
    have hzy : z = y := Option.some.inj (hz.1.symm.trans hm.self)
    subst hzy
    exact Or.inr ⟨rfl, rfl, hm.before, hm.queued ▸ hz.2⟩
  · exact Or.inl ⟨hi, (hm.other hi) ▸ hz.1, hz.2⟩

theorem queued_move (hm : Move s t j x y) {i : ℕ} (hz : s.Queued i z) : ∃ z', t.Queued i z' := by
  by_cases hi : i = j
  · subst hi
    have hzx : z = x := Option.some.inj (hz.1.symm.trans hm.before)
    subst hzx
    exact ⟨y, hm.self, hm.queued.trans hz.2⟩
  · exact ⟨z, (hm.other hi).trans hz.1, hz.2⟩

theorem move (h : Queue s) (hm : Move s t j x y) (hstarted : y.phase = .waiting → x.phase = .waiting)
    (hready : x.phase = .waiting → y.phase ≠ .waiting → s.ready x = true)
    (hsettled : x.settled = true → y.settled = true) : Queue t := by
  -- a call that had settled still has
  have hkeep : ∀ {i : ℕ} {a : Job ω}, t.Queued i a → ∃ b, s.Queued i b ∧ a.after = b.after ∧ (b.settled = true → a.settled = true) := by
    intro i a ha
    obtain ⟨-, hb⟩ | ⟨rfl, rfl, hb⟩ := queued_of_move hm ha
    · exact ⟨a, hb, rfl, id⟩
    · exact ⟨x, hb, hm.after, hsettled⟩
  constructor
  · intro i a ha
    rw [hm.next]
    by_cases hi : i = j
    · subst hi
      exact h.fresh i x hm.before
    · exact h.fresh i a ((hm.other hi) ▸ ha)
  · intro i a ha k hk
    have hbefore : ∃ b, s.job i = some b ∧ k ∈ b.after := by
      by_cases hi : i = j
      · subst hi
        have hay : a = y := Option.some.inj (ha.symm.trans hm.self)
        exact ⟨x, hm.before, by rw [← hm.after, ← hay]; exact hk⟩
      · exact ⟨a, (hm.other hi) ▸ ha, hk⟩
    obtain ⟨b, hb, hkb⟩ := hbefore
    obtain ⟨hlt, z, hz⟩ := h.after i b hb k hkb
    exact ⟨hlt, queued_move hm hz⟩
  · intro i k a b hik ha hb hw
    obtain ⟨a', ha', -, hsa⟩ := hkeep ha
    obtain ⟨b', hb', hab, -⟩ := hkeep hb
    have hw' : b'.phase = .waiting := by
      obtain ⟨hkj, hb''⟩ | ⟨rfl, rfl, hb''⟩ := queued_of_move hm hb
      · rw [← Option.some.inj (hb''.1.symm.trans hb'.1)]
        exact hw
      · rw [← Option.some.inj (hb''.1.symm.trans hb'.1)]
        exact hstarted hw
    obtain hs | hs := h.cover i k a' b' hik ha' hb' hw'
    · exact Or.inl (hsa hs)
    · exact Or.inr (by rw [hab]; exact hs)
  · intro i k a b hik ha hb hw
    obtain ⟨a', ha', -, hsa⟩ := hkeep ha
    apply hsa
    obtain ⟨-, hb'⟩ | ⟨rfl, rfl, hb'⟩ := queued_of_move hm hb
    · exact h.ordered i k a' b hik ha' hb' hw
    · by_cases hx : x.phase = .waiting
      · exact h.settled_of_ready hik ha' hb' hx (hready hx hw)
      · exact h.ordered i k a' x hik ha' hb' hx
  · intro k hk
    rw [hm.writeQueue] at hk
    obtain ⟨⟨z, hz⟩, hmax⟩ := h.tail k hk
    refine ⟨queued_move hm hz, fun i a ha => ?_⟩
    obtain ⟨b, hb, -⟩ := hkeep ha
    exact hmax i b hb
  · intro hk i a ha
    rw [hm.writeQueue] at hk
    obtain ⟨b, hb, -, hs⟩ := hkeep ha
    exact hs (h.idle hk i b hb)
  · intro d k hk
    rw [(hm.shell d).queue] at hk
    obtain ⟨z, hz⟩ := h.driver d k hk
    exact queued_move hm hz

theorem enqueueWrite (h : Queue s) (d : ℕ) {kind : Kind} (hkind : kind ≠ .readSnapshot) : Queue (s.enqueueWrite d kind) := by
  set new := s.newJob d kind ((s.driver d).queue.toList ++ s.writeQueue.toList) none with hnew
  have hjob : ∀ i, (s.enqueueWrite d kind).job i = if i = s.next then some new else s.job i := by
    intro i
    exact Function.update_apply ..
  have hold : ∀ {i : ℕ} {a : Job ω}, s.Queued i a → (s.enqueueWrite d kind).Queued i a := by
    intro i a ha
    have := h.fresh i a ha.1
    refine ⟨?_, ha.2⟩
    rw [hjob, if_neg (by omega)]
    exact ha.1
  have hlast : (s.enqueueWrite d kind).Queued s.next new := by
    refine ⟨by rw [hjob, if_pos rfl], ?_⟩
    simpa [Job.queued, hnew, State.newJob] using hkind
  have hcases : ∀ {i : ℕ} {a : Job ω}, (s.enqueueWrite d kind).job i = some a →
      (i = s.next ∧ a = new) ∨ (i < s.next ∧ s.job i = some a) := by
    intro i a ha
    rw [hjob] at ha
    split_ifs at ha with hi
    · exact Or.inl ⟨hi, (Option.some.inj ha).symm⟩
    · exact Or.inr ⟨h.fresh i a ha, ha⟩
  constructor
  · intro i a ha
    change i < s.next + 1
    obtain ⟨hi, -⟩ | ⟨hi, -⟩ := hcases ha
    · omega
    · omega
  · intro i a ha k hk
    obtain ⟨rfl, rfl⟩ | ⟨hi, ha'⟩ := hcases ha
    · have hq : ∃ z, s.Queued k z := by
        rcases List.mem_append.1 (show k ∈ (s.driver d).queue.toList ++ s.writeQueue.toList from hk) with hk | hk
        · exact h.driver d k (by simpa using hk)
        · exact (h.tail k (by simpa using hk)).1
      obtain ⟨z, hz⟩ := hq
      exact ⟨h.fresh k z hz.1, z, hold hz⟩
    · obtain ⟨hlt, z, hz⟩ := h.after i a ha' k hk
      exact ⟨hlt, z, hold hz⟩
  · intro i k a b hik ha hb hw
    obtain ⟨hi, -⟩ | ⟨hi, ha'⟩ := hcases ha.1
    · obtain ⟨hk, -⟩ | ⟨hk, -⟩ := hcases hb.1
      · omega
      · omega
    · obtain ⟨rfl, rfl⟩ | ⟨hk, hb'⟩ := hcases hb.1
      · cases hq : s.writeQueue with
        | none => exact Or.inl (h.idle hq i a ⟨ha', ha.2⟩)
        | some k =>
          refine Or.inr ⟨k, ?_, (h.tail k hq).2 i a ⟨ha', ha.2⟩⟩
          change k ∈ (s.driver d).queue.toList ++ s.writeQueue.toList
          simp [hq]
      · exact h.cover i k a b hik ⟨ha', ha.2⟩ ⟨hb', hb.2⟩ hw
  · intro i k a b hik ha hb hw
    obtain ⟨rfl, rfl⟩ | ⟨hk, hb'⟩ := hcases hb.1
    · exact absurd rfl hw
    · obtain ⟨hi, -⟩ | ⟨hi, ha'⟩ := hcases ha.1
      · omega
      · exact h.ordered i k a b hik ⟨ha', ha.2⟩ ⟨hb', hb.2⟩ hw
  · intro k hk
    obtain rfl : s.next = k := Option.some.inj hk
    refine ⟨⟨new, hlast⟩, fun i a ha => ?_⟩
    obtain ⟨hi, -⟩ | ⟨hi, -⟩ := hcases ha.1
    · omega
    · omega
  · intro hk
    cases hk
  · intro e k hk
    change ((Function.update s.driver d { s.driver d with queue := some s.next }) e).queue = some k at hk
    by_cases he : e = d
    · subst he
      rw [Function.update_self] at hk
      obtain rfl : s.next = k := Option.some.inj hk
      exact ⟨new, hlast⟩
    · rw [Function.update_of_ne he] at hk
      obtain ⟨z, hz⟩ := h.driver e k hk
      exact ⟨z, hold hz⟩

theorem snapshot (h : Queue s) (d : ℕ) (expiresAt : Option ℕ) :
    Queue { s.setJob s.next (s.newJob d .readSnapshot [] expiresAt) with next := s.next + 1 } := by
  set t : State ω := { s.setJob s.next (s.newJob d .readSnapshot [] expiresAt) with next := s.next + 1 } with ht
  have hjob : ∀ i, t.job i = if i = s.next then some (s.newJob d .readSnapshot [] expiresAt) else s.job i := by
    intro i
    exact Function.update_apply ..
  -- a read snapshot is not queued
  have hq : ∀ {i : ℕ} {a : Job ω}, t.Queued i a ↔ s.Queued i a := by
    intro i a
    unfold State.Queued
    rw [hjob]
    by_cases hi : i = s.next
    · subst hi
      rw [if_pos rfl]
      constructor
      · rintro ⟨ha, haq⟩
        cases ha
        cases haq
      · rintro ⟨ha, -⟩
        exact absurd (h.fresh _ _ ha) (by omega)
    · rw [if_neg hi]
  constructor
  · intro i a ha
    rw [hjob] at ha
    change i < s.next + 1
    split_ifs at ha with hi
    · omega
    · have := h.fresh i a ha
      omega
  · intro i a ha k hk
    rw [hjob] at ha
    split_ifs at ha with hi
    · cases ha
      cases hk
    · obtain ⟨hlt, z, hz⟩ := h.after i a ha k hk
      exact ⟨hlt, z, hq.2 hz⟩
  · exact fun i k a b hik ha hb => h.cover i k a b hik (hq.1 ha) (hq.1 hb)
  · exact fun i k a b hik ha hb => h.ordered i k a b hik (hq.1 ha) (hq.1 hb)
  · intro k hk
    obtain ⟨⟨z, hz⟩, hmax⟩ := h.tail k hk
    exact ⟨⟨z, hq.2 hz⟩, fun i a ha => hmax i a (hq.1 ha)⟩
  · exact fun hk i a ha => h.idle hk i a (hq.1 ha)
  · intro e k hk
    obtain ⟨z, hz⟩ := h.driver e k hk
    exact ⟨z, hq.2 hz⟩

theorem still (h : Queue s) (hjob : t.job = s.job) (hnext : t.next = s.next)
    (hqueue : ∀ d, (t.driver d).queue = (s.driver d).queue)
    (hwrite : t.writeQueue = s.writeQueue ∨ t.writeQueue = s.writeQueue.filter fun j => !s.settledAt j) : Queue t := by
  have hq : ∀ {i : ℕ} {a : Job ω}, t.Queued i a ↔ s.Queued i a := by
    intro i a
    unfold State.Queued
    rw [hjob]
  constructor
  · intro i a ha
    rw [hnext]
    exact h.fresh i a (hjob ▸ ha)
  · intro i a ha k hk
    obtain ⟨hlt, z, hz⟩ := h.after i a (hjob ▸ ha) k hk
    exact ⟨hlt, z, hq.2 hz⟩
  · exact fun i k a b hik ha hb => h.cover i k a b hik (hq.1 ha) (hq.1 hb)
  · exact fun i k a b hik ha hb => h.ordered i k a b hik (hq.1 ha) (hq.1 hb)
  · intro k hk
    have hk' : s.writeQueue = some k := by
      obtain hw | hw := hwrite
      · exact hw ▸ hk
      · rw [hw] at hk
        exact (Option.filter_eq_some_iff.1 hk).1
    obtain ⟨⟨z, hz⟩, hmax⟩ := h.tail k hk'
    exact ⟨⟨z, hq.2 hz⟩, fun i a ha => hmax i a (hq.1 ha)⟩
  · intro hk i a ha
    have ha' := hq.1 ha
    cases hs : s.writeQueue with
    | none => exact h.idle hs i a ha'
    | some k =>
      -- the tail has settled, and what is before it settled earlier
      obtain hw | hw := hwrite
      · rw [hw, hs] at hk
        cases hk
      · rw [hw, hs] at hk
        have hset : s.settledAt k = true := by
          by_contra hn
          simp [Option.filter, hn] at hk
        obtain ⟨z, hz, hzs⟩ := settledAt_iff.1 hset
        obtain ⟨⟨z', hz'⟩, hmax⟩ := h.tail k hs
        have heq : z' = z := Option.some.inj (hz'.1.symm.trans hz)
        subst heq
        obtain rfl | hlt := Nat.eq_or_lt_of_le (hmax i a ha')
        · have haz : a = z' := Option.some.inj (ha'.1.symm.trans hz)
          rw [haz]
          exact hzs
        · refine h.ordered i k a z' hlt ha' hz' fun hwait => ?_
          rw [Job.not_settled_of_waiting hwait] at hzs
          cases hzs
  · intro d k hk
    rw [hqueue] at hk
    obtain ⟨z, hz⟩ := h.driver d k hk
    exact ⟨z, hq.2 hz⟩

theorem init : Queue (State.init : State ω) := by
  constructor
  · intro j x hx
    cases hx
  · intro j x hx
    cases hx
  · rintro i j x y - ⟨hx, -⟩
    cases hx
  · rintro i j x y - ⟨hx, -⟩
    cases hx
  · intro k hk
    cases hk
  · rintro - i x ⟨hx, -⟩
    cases hx
  · intro d k hk
    cases hk

/-- **Step.** -/
theorem change (h : Queue s) (hc : Change s t) : Queue t := by
  cases hc with
  | moved j x y hm hstarted hready hsettled => exact h.move hm hstarted hready hsettled
  | queued d kind hkind _ heq => exact heq ▸ h.enqueueWrite d hkind
  | snapshot d expiresAt heq => exact heq ▸ h.snapshot d expiresAt
  | still hjob hnext hqueue _ hwrite => exact h.still hjob hnext hqueue hwrite

theorem step (h : Queue s) (e : Event ω) : Queue (step cfg s e).1 := h.change (change_step cfg s e)

end Queue

/-! ## Every call settles -/

/-- The first call of the queue that has not settled. -/
def State.Front (s : State ω) (j : ℕ) : Prop :=
  ∃ x, s.Queued j x ∧ x.settled = false ∧ ∀ i y, i < j → s.Queued i y → y.settled = true

/-- An endless run in which the front of the queue always moves again: promises are run, and bodies come to their end. -/
def Fair (cfg : ℕ → Config) (s : State ω) (e : ℕ → Event ω) : Prop :=
  ∀ n, (∃ j, (Run.nth (step cfg) s e n).Front j) →
    ∃ m, n ≤ m ∧ ∃ j x, (Run.nth (step cfg) s e m).Front j ∧ (Run.nth (step cfg) s e m).job j = some x ∧ (e m).acts j x.phase

/-- How many moves the calls up to `j` may still make. -/
def State.rankUpTo (s : State ω) (j : ℕ) : ℕ := ∑ i ∈ Finset.range (j + 1), (s.job i).elim 0 Job.rank

theorem exists_front (hx : s.Queued j x) (hs : x.settled = false) : ∃ i, i ≤ j ∧ s.Front i := by
  classical
  have hex : ∃ i, ∃ y, s.Queued i y ∧ y.settled = false := ⟨j, x, hx, hs⟩
  obtain ⟨y, hy, hys⟩ := Nat.find_spec hex
  refine ⟨Nat.find hex, Nat.find_min' hex ⟨x, hx, hs⟩, y, hy, hys, fun i z hi hz => ?_⟩
  by_contra hn
  exact Nat.find_min hex hi ⟨z, hz, by simpa using hn⟩

/-- The front of the queue waits for nothing. -/
theorem ready_of_front (h : Queue s) (hf : s.Front j) (hx : s.job j = some x) : s.ready x = true := by
  obtain ⟨-, -, -, hbefore⟩ := hf
  refine List.all_eq_true.2 fun k hk => ?_
  obtain ⟨hlt, z, hz⟩ := h.after j x hx k hk
  exact Queue.settledAt_iff.2 ⟨z, hz.1, hbefore k z hlt hz⟩

/-- **A move of the front** brings it closer to its end. -/
theorem onward_of_acts (cfg : ℕ → Config) (h : Queue s) (hf : s.Front j) (hx : s.job j = some x) {e : Event ω} (ha : e.acts j x.phase) :
    ∃ y, Move s (step cfg s e).1 j x y ∧ Onward x y := by
  cases e with
  | start i o =>
    cases hp : x.phase with
    | waiting =>
      rw [hp] at ha
      obtain rfl : i = j := ha
      simp only [step, hx, hp, ready_of_front h hf hx, and_self, if_true]
      exact move_start hx hp o
    | body | rollingBack error | settled r => rw [hp] at ha; cases ha
  | returns i o =>
    cases hp : x.phase with
    | body =>
      rw [hp] at ha
      obtain rfl : i = j := ha
      simp only [step, hx, hp, if_true]
      exact move_returns hx hp o
    | waiting | rollingBack error | settled r => rw [hp] at ha; cases ha
  | throws i error =>
    cases hp : x.phase with
    | body =>
      rw [hp] at ha
      obtain rfl : i = j := ha
      simp only [step, hx, hp, if_true]
      exact move_throws hx hp error
    | waiting | rollingBack error | settled r => rw [hp] at ha; cases ha
  | rollback i o =>
    cases hp : x.phase with
    | rollingBack error =>
      rw [hp] at ha
      obtain rfl : i = j := ha
      simp only [step, hx, hp]
      exact move_rollback hx hp o
    | waiting | body | settled r => rw [hp] at ha; cases ha
  | _ => cases ha

theorem rankUpTo_update {n : ℕ} (hx : s.job j = some x) (ht : t.job = Function.update s.job j (some y)) (hj : j ≤ n) :
    t.rankUpTo n + x.rank = s.rankUpTo n + y.rank := by
  have hmem : j ∈ Finset.range (n + 1) := Finset.mem_range.2 (by omega)
  unfold State.rankUpTo
  rw [← Finset.add_sum_erase _ _ hmem, ← Finset.add_sum_erase (Finset.range (n + 1)) (fun i => (s.job i).elim 0 Job.rank) hmem]
  have hrest : ∑ i ∈ (Finset.range (n + 1)).erase j, (t.job i).elim 0 Job.rank =
      ∑ i ∈ (Finset.range (n + 1)).erase j, (s.job i).elim 0 Job.rank := by
    refine Finset.sum_congr rfl fun i hi => ?_
    rw [ht, Function.update_of_ne (Finset.ne_of_mem_erase hi)]
  rw [hrest, ht, Function.update_self, hx]
  simp only [Option.elim]
  omega

theorem rankUpTo_congr {n : ℕ} (h : ∀ i ≤ n, t.job i = s.job i) : t.rankUpTo n = s.rankUpTo n := by
  refine Finset.sum_congr rfl fun i hi => ?_
  rw [h i (by have := Finset.mem_range.1 hi; omega)]

/-- No event raises the measure of the calls that there are. -/
theorem rankUpTo_change {n : ℕ} (hn : n < s.next) (hc : Change s t) : t.rankUpTo n ≤ s.rankUpTo n := by
  cases hc with
  | moved j x y hm _ _ _ hrank =>
    by_cases hj : j ≤ n
    · have := rankUpTo_update hm.before hm.job hj
      omega
    · refine (rankUpTo_congr fun i hi => hm.other (by omega)).le
  | queued d kind _ _ heq | snapshot d expiresAt heq =>
    subst heq
    exact (rankUpTo_congr fun i hi => Function.update_of_ne (by omega) _ _).le
  | still hjob => exact (rankUpTo_congr fun i _ => by rw [hjob]).le

/-- A call of the queue stays one, and stays settled. -/
theorem queued_change (h : Queue s) (hx : s.Queued j x) (hc : Change s t) :
    ∃ y, t.Queued j y ∧ (x.settled = true → y.settled = true) := by
  have hold := h.fresh j x hx.1
  cases hc with
  | moved i a b hm _ _ hset _ =>
    by_cases hi : j = i
    · subst hi
      have hax : a = x := Option.some.inj (hm.before.symm.trans hx.1)
      subst hax
      exact ⟨b, ⟨hm.self, hm.queued.trans hx.2⟩, hset⟩
    · exact ⟨x, ⟨(hm.other hi).trans hx.1, hx.2⟩, id⟩
  | queued d kind _ _ heq | snapshot d expiresAt heq =>
    subst heq
    exact ⟨x, ⟨(Function.update_of_ne (by omega) _ _).trans hx.1, hx.2⟩, id⟩
  | still hjob => exact ⟨x, ⟨hjob ▸ hx.1, hx.2⟩, id⟩

/-- **Every call settles.** -/
theorem settles {e : ℕ → Event ω} (hq : Queue s) (hfair : Fair cfg s e) {n : ℕ}
    (hx : (Run.nth (step cfg) s e n).Queued j x) : ∃ m, n ≤ m ∧ (Run.nth (step cfg) s e m).settledAt j = true := by
  have hqueue : ∀ m, Queue (Run.nth (step cfg) s e m) := Run.nth_induction (fun _ i h => h.step i) hq e
  have hthere : ∀ m, n ≤ m → ∃ y, (Run.nth (step cfg) s e m).Queued j y := by
    intro m hnm
    refine (Run.nth_stable (P := fun u => Queue u ∧ ∃ y, u.Queued j y) ?_ ⟨hqueue n, x, hx⟩ hnm).2
    rintro u i ⟨hu, y, hy⟩
    obtain ⟨z, hz, -⟩ := queued_change hu hy (change_step cfg u i)
    exact ⟨hu.step i, z, hz⟩
  refine Run.exists_of_measure (f := Run.nth (step cfg) s e) (μ := fun u => u.rankUpTo j)
    (P := fun u => u.settledAt j = true) ?_ ?_
  · intro m hnm
    obtain ⟨y, hy⟩ := hthere m hnm
    exact rankUpTo_change ((hqueue m).fresh j y hy.1) (change_step cfg _ _)
  · intro m hnm hns
    obtain ⟨y, hy⟩ := hthere m hnm
    have hys : y.settled = false := by
      by_contra hn
      exact hns (Queue.settledAt_iff.2 ⟨y, hy.1, by simpa using hn⟩)
    obtain ⟨i, -, hi⟩ := exists_front hy hys
    obtain ⟨k, hmk, i, a, hf, ha, hacts⟩ := hfair m ⟨i, hi⟩
    refine ⟨k, hmk, ?_⟩
    by_cases hk : (Run.nth (step cfg) s e k).settledAt j = true
    · exact Or.inl hk
    · -- the front is not behind the call, which has not settled
      obtain ⟨z, hz⟩ := hthere k (hnm.trans hmk)
      have hij : i ≤ j := by
        by_contra hn
        obtain ⟨-, -, -, hbefore⟩ := hf
        exact hk (Queue.settledAt_iff.2 ⟨z, hz.1, hbefore j z (by omega) hz⟩)
      obtain ⟨b, hm, ho⟩ := onward_of_acts cfg (hqueue k) hf ha hacts
      have hsum := rankUpTo_update hm.before hm.job hij
      have hrank := ho.rank
      refine Or.inr ?_
      change (step cfg (Run.nth (step cfg) s e k) (e k)).1.rankUpTo j < _
      omega

end LlmGateway.Storage.Sqlite
