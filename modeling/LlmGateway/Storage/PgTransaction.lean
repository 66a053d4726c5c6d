import LlmGateway.Lib.Run

/-!
# Transactions of the PostgreSQL driver

`storage/drivers/postgres.ts`: `transaction` runs a body between BEGIN and COMMIT on one checked-out client, under a deadline
that destroys the client.

* `Session.exec` — what the server makes of a statement: a failed statement aborts the transaction, and COMMIT of an aborted
  transaction rolls back and reports no error;
* `Driver`, `step` — the call: BEGIN, the body, COMMIT or ROLLBACK, with the timer and the connection.

`ω` are the writes that statements make.
-/

namespace LlmGateway.Storage.Pg

open LlmGateway.Lib

variable {ω : Type*}

/-! ## The server -/

inductive Statement (ω : Type*) where
  | work (w : ω)
  | BEGIN
  | COMMIT
  | ROLLBACK
  | SAVEPOINT (name : String)
  | ROLLBACK_TO (name : String)
  | RELEASE (name : String)

/-- A transaction in progress: what it has written, what it had written at each of its savepoints, and whether a statement of
it has failed. -/
structure OpenTx (ω : Type*) where
  written : List ω
  marks : List (String × List ω)
  aborted : Bool

/-- The server's side of a client.  `owed` are the writes of the statements, outside the transaction in progress, that no
ROLLBACK has taken back. -/
structure Session (ω : Type*) where
  tx : Option (OpenTx ω)
  durable : List ω
  owed : List ω

namespace Session

def withTx (x : Session ω) (t : OpenTx ω) : Session ω := { x with tx := some t }

/-- The client is destroyed: the transaction in progress cannot commit. -/
def gone (x : Session ω) : Session ω := { x with tx := none }

/-- The server runs a statement that it may refuse (`ok`); the flag is its answer. -/
def exec (x : Session ω) (ok : Bool) (s : Statement ω) : Session ω × Bool :=
  match x.tx, s with
  | none, .work w => if ok then ({ x with durable := x.durable ++ [w], owed := x.owed ++ [w] }, true) else (x, false)
  | none, .BEGIN => if ok then (x.withTx ⟨[], [], false⟩, true) else (x, false)
  -- there is no transaction in progress, which is a warning
  | none, .COMMIT => (x, true)
  | none, .ROLLBACK => (x, true)
  | none, _ => (x, false)
  | some t, .COMMIT =>
    -- an aborted transaction is rolled back, and the answer is not an error
    if t.aborted then ({ x with tx := none, owed := x.owed ++ t.written }, true)
    else if ok then ({ tx := none, durable := x.durable ++ t.written, owed := x.owed ++ t.written }, true)
    else (x.gone, false)
  | some _, .ROLLBACK => (x.gone, true)
  | some t, .ROLLBACK_TO name =>
    match t.marks.dropWhile fun m => m.1 ≠ name with
    | [] => (x.withTx { t with aborted := true }, false)
    | m :: ms => (x.withTx ⟨m.2, m :: ms, false⟩, true)
  | some t, s =>
    if t.aborted then (x, false)
    else if ok then
      match s with
      | .work w => (x.withTx { t with written := t.written ++ [w] }, true)
      | .SAVEPOINT name => (x.withTx { t with marks := (name, t.written) :: t.marks }, true)
      | .RELEASE name =>
        match t.marks.dropWhile fun m => m.1 ≠ name with
        | [] => (x.withTx { t with aborted := true }, false)
        | _ :: ms => (x.withTx { t with marks := ms }, true)
      | _ => (x, true)
    else (x.withTx { t with aborted := true }, false)

/-- A COMMIT would lose what the transaction in progress has written. -/
def Loses (x : Session ω) : Prop := ∃ t, x.tx = some t ∧ t.aborted = true ∧ t.written ≠ []

/-- Every write that was not taken back is durable. -/
def Paid (x : Session ω) : Prop := ∀ w ∈ x.owed, w ∈ x.durable

end Session

/-! ## The driver -/

/-- Which error is thrown. -/
inductive Failure where
  | deadline
  | begin
  | body
  | commit
deriving DecidableEq

inductive Result where
  | resolved
  | rejected (error : Failure)
deriving DecidableEq

/-- Where the call is; the body may have a statement in flight. -/
inductive Phase (ω : Type*) where
  | beginning
  | body (inFlight : Option (Statement ω))
  | committing
  | rollingBack (error : Failure)
  | settled (result : Result)

/-- The call after `connect`. -/
structure Driver (ω : Type*) where
  phase : Phase ω
  /-- the timer is set -/
  armed : Bool
  /-- `expiry` -/
  expired : Bool
  /-- the client's connection -/
  connected : Bool
  /-- how often `client.release` was called -/
  releases : ℕ
  /-- the client went back to the pool alive -/
  pooled : Bool
  /-- a COMMIT was issued -/
  commitIssued : Bool
  session : Session ω

/-- What becomes of a statement in flight.  When the client gives up on it, or the connection ends, the server may run it
nevertheless. -/
inductive Outcome where
  | answered (ok : Bool)
  | timedOut (executed : Option Bool)

inductive Event (ω : Type*) where
  /-- the timer fires -/
  | deadline (executed : Option Bool)
  /-- the connection breaks -/
  | broken (executed : Option Bool)
  /-- the statement in flight settles -/
  | answer (o : Outcome)
  /-- the body issues a statement -/
  | issue (s : Statement ω)
  | returns
  | throws

namespace Driver

variable (d : Driver ω)

/-- The checked-out client; the timer is set when the deadline is positive. -/
def init (armed : Bool) (durable : List ω) : Driver ω where
  phase := .beginning
  armed := armed
  expired := false
  connected := true
  releases := 0
  pooled := false
  commitIssued := false
  session := ⟨none, durable, []⟩

def inFlight : Option (Statement ω) :=
  match d.phase with
  | .beginning => some .BEGIN
  | .body s => s
  | .committing => some .COMMIT
  | .rollingBack _ => some .ROLLBACK
  | .settled _ => none

/-- What the statement in flight does at the server, when it still gets there. -/
def execute (executed : Option Bool) : Session ω :=
  match executed, d.inFlight with
  | some ok, some s => (d.session.exec ok s).1
  | _, _ => d.session

/-- The connection ends. -/
def disconnect (executed : Option Bool) : Driver ω :=
  if d.connected then { d with connected := false, session := (d.execute executed).gone } else d

/-- `release(err)`: once; with an error the client is destroyed, and a client that is no longer connected does not stay in the
pool. -/
def release (err : Bool) : Driver ω :=
  if d.releases ≠ 0 then d
  else if err then { d.disconnect none with releases := 1 }
  else { d with releases := 1, pooled := d.connected }

/-- The `finally` block. -/
def finish (discard : Bool) (result : Result) : Driver ω :=
  { d with phase := .settled result, armed := false }.release discard

/-- The `catch` block of the body and of COMMIT. -/
def caught (error : Failure) : Driver ω :=
  if d.expired then d.finish false (.rejected .deadline) else { d with phase := .rollingBack error }

/-- The statement in flight settles: the session, and whether its promise resolves. -/
def settle (s : Statement ω) (o : Outcome) : Driver ω × Bool :=
  if d.connected then
    match o with
    | .answered ok => ({ d with session := (d.session.exec ok s).1 }, (d.session.exec ok s).2)
    | .timedOut executed => ({ d with session := d.execute executed }, false)
  else (d, false)

end Driver

open Driver

def step (d : Driver ω) (e : Event ω) : Driver ω × Unit :=
  (match e with
  | .deadline executed =>
    if d.armed then
      { (d.disconnect executed).release true with armed := false, expired := true }
    else d
  | .broken executed =>
    match d.phase with
    | .settled _ => d
    | _ => d.disconnect executed
  | .issue s =>
    match d.phase, s with
    | .body none, .COMMIT => { d with phase := .body (some .COMMIT), commitIssued := d.commitIssued || d.connected }
    | .body none, s => { d with phase := .body (some s) }
    | _, _ => d
  | .answer o =>
    match d.phase with
    | .beginning =>
      let r := d.settle .BEGIN o
      if r.2 then { r.1 with phase := .body none } else r.1.finish false (.rejected .begin)
    | .body (some s) => { (d.settle s o).1 with phase := .body none }
    | .committing =>
      let r := d.settle .COMMIT o
      if r.2 then r.1.finish false .resolved else r.1.caught .commit
    | .rollingBack error =>
      let r := d.settle .ROLLBACK o
      r.1.finish (!r.2) (.rejected error)
    | _ => d
  | .returns =>
    match d.phase with
    | .body none =>
      -- disarmed and checked before COMMIT is issued
      if d.expired then { d with armed := false }.caught .body
      else { d with armed := false, phase := .committing, commitIssued := true }
    | _ => d
  | .throws =>
    match d.phase with
    | .body none => d.caught .body
    | _ => d, ())

/-! ## Honesty -/

/-- **What the call says of the server.** -/
structure Honest (d : Driver ω) : Prop where
  /-- a promise that resolves: the server has committed what the body wrote -/
  resolved : d.phase = .settled .resolved → d.session.tx = none ∧ d.session.Paid
  /-- the deadline is reported only if no COMMIT was issued -/
  deadline : d.phase = .settled (.rejected .deadline) → d.commitIssued = false
  releasedOnce : ∀ r, d.phase = .settled r → d.releases = 1
  releasedAtMostOnce : d.releases ≤ 1
  /-- no client goes back alive inside a transaction -/
  pooled : d.pooled = true → d.session.tx = none

/-- No COMMIT, of the driver or of the body, ends an aborted transaction that has written something; the deadline does not
fire once the body has issued a COMMIT of its own; and the server opens no transaction on a BEGIN that the client has given
up on. -/
def Keeps (d : Driver ω) : Event ω → Prop
  | .returns => ¬d.session.Loses
  | .issue .COMMIT => ¬d.session.Loses
  | .deadline _ => d.armed = true → ∀ s, d.phase = .body s → d.commitIssued = false
  | .answer (.timedOut (some true)) => d.connected = true → d.phase ≠ .beginning
  | _ => True

namespace Session

variable {x : Session ω} {ok : Bool} {s : Statement ω}

@[simp] theorem gone_tx : x.gone.tx = none := rfl
@[simp] theorem gone_owed : x.gone.owed = x.owed := rfl
@[simp] theorem gone_durable : x.gone.durable = x.durable := rfl
@[simp] theorem withTx_owed (t : OpenTx ω) : (x.withTx t).owed = x.owed := rfl
@[simp] theorem withTx_durable (t : OpenTx ω) : (x.withTx t).durable = x.durable := rfl

theorem Paid.gone (h : x.Paid) : x.gone.Paid := h

theorem Paid.withTx (h : x.Paid) (t : OpenTx ω) : (x.withTx t).Paid := h

theorem not_loses_gone : ¬x.gone.Loses := by
  rintro ⟨t, ht, -⟩
  cases ht

/-- Only the COMMIT of an aborted transaction loses a write. -/
theorem paid_exec (h : x.Paid) (ok : Bool) (hs : s = .COMMIT → ¬x.Loses) : (x.exec ok s).1.Paid := by
  have happend : ∀ ws : List ω, ∀ w ∈ x.owed ++ ws, w ∈ x.durable ++ ws := by
    intro ws w hw
    rcases List.mem_append.1 hw with hw | hw
    · exact List.mem_append_left _ (h w hw)
    · exact List.mem_append_right _ hw
  unfold exec
  split
  · split
    · exact happend _
    · exact h
  · split
    · exact h
    · exact h
  · exact h
  · exact h
  · exact h
  · next t ht =>
    split
    · next ha =>
      have hwritten : t.written = [] := by
        by_contra hne
        exact hs rfl ⟨t, ht, ha, hne⟩
      rw [hwritten, List.append_nil]
      exact h
    · split
      · exact happend _
      · exact h
  · exact h
  · split
    · exact h
    · exact h
  · split
    · exact h
    · split
      · split
        · exact h
        · exact h
        · split
          · exact h
          · exact h
        · exact h
      · exact h

/-- After a ROLLBACK there is no transaction in progress. -/
theorem exec_rollback (ok : Bool) : (x.exec ok .ROLLBACK).1.tx = none ∧ (x.exec ok .ROLLBACK).2 = true := by
  unfold exec
  cases hx : x.tx with
  | none => exact ⟨hx, rfl⟩
  | some t => exact ⟨rfl, rfl⟩

/-- Nor after a COMMIT. -/
theorem exec_commit (ok : Bool) : (x.exec ok .COMMIT).1.tx = none := by
  unfold exec
  cases hx : x.tx with
  | none => exact hx
  | some t =>
    dsimp only
    split_ifs <;> rfl

/-- A BEGIN that is refused outside a transaction opens none. -/
theorem exec_begin (hx : x.tx = none) (h : (x.exec ok .BEGIN).2 = false) : (x.exec ok .BEGIN).1.tx = none := by
  unfold exec at h ⊢
  rw [hx] at h ⊢
  dsimp only at h ⊢
  split_ifs at h ⊢ with hok
  exact hx

end Session

namespace Driver

/-- What holds of the call in every phase before it has settled. -/
structure Kept (d : Driver ω) : Prop where
  paid : d.session.Paid
  gone : d.connected = false → d.session.tx = none
  fresh : d.expired = false → d.releases = 0
  expired : d.expired = true → d.releases = 1 ∧ d.connected = false ∧ d.armed = false
  pooled : d.pooled = false

/-- The call before it has settled. -/
structure Live (d : Driver ω) : Prop extends Kept d where
  begun : d.phase = .beginning → d.session.tx = none ∧ d.commitIssued = false
  body : ∀ s, d.phase = .body s → d.expired = true → d.commitIssued = false
  committing : d.phase = .committing → d.expired = false ∧ d.armed = false
  rolling : d.phase ≠ .rollingBack .deadline
  -- no COMMIT in flight loses anything
  keeps : d.inFlight = some .COMMIT → ¬d.session.Loses

/-- The invariant of the run. -/
structure Inv (d : Driver ω) : Prop where
  settled : ∀ r, d.phase = .settled r → Honest d ∧ d.armed = false
  live : (∀ r, d.phase ≠ .settled r) → d.Live

variable {d : Driver ω}

theorem Kept.releases_le (h : d.Kept) : d.releases ≤ 1 := by
  cases he : d.expired with
  | false =>
    have := h.fresh he
    omega
  | true =>
    have := (h.expired he).1
    omega

theorem Live.honest (h : d.Live) (hp : ∀ r, d.phase ≠ .settled r) : Honest d where
  resolved := fun hr => absurd hr (hp _)
  deadline := fun hr => absurd hr (hp _)
  releasedOnce := fun _ hr => absurd hr (hp _)
  releasedAtMostOnce := h.releases_le
  pooled := fun hpool => by
    rw [h.pooled] at hpool
    cases hpool

theorem Inv.honest (h : d.Inv) : Honest d := by
  by_cases hp : ∀ r, d.phase ≠ .settled r
  · exact (h.live hp).honest hp
  · obtain ⟨r, hr⟩ := not_forall.1 hp
    exact (h.settled r (not_not.1 hr)).1

theorem Live.inv (h : d.Live) (hp : ∀ r, d.phase ≠ .settled r) : d.Inv :=
  ⟨fun r hr => absurd hr (hp r), fun _ => h⟩

/-! ### The parts of a step -/

theorem Live.paid_execute (h : d.Live) (executed : Option Bool) : (d.execute executed).Paid := by
  unfold execute
  split
  · next ok s hs =>
    refine Session.paid_exec h.paid ok ?_
    rintro rfl
    exact h.keeps hs
  · exact h.paid

theorem live_disconnect (h : d.Live) (executed : Option Bool) : (d.disconnect executed).Live := by
  unfold disconnect
  split
  · refine { h with paid := (h.paid_execute executed).gone, gone := fun _ => rfl, expired := ?_, begun := ?_, keeps := ?_ }
    · intro he
      exact ⟨(h.expired he).1, rfl, (h.expired he).2.2⟩
    · intro hp
      exact ⟨rfl, (h.begun hp).2⟩
    · intro _
      exact Session.not_loses_gone
  · exact h

theorem release_of_disconnected (hr : d.releases = 0) (hc : d.connected = false) :
    d.release true = { d with releases := 1 } := by
  simp [release, disconnect, hr, hc]

/-- The `finally` block, behind a client that goes back alive with no transaction or is destroyed. -/
theorem inv_finish (h : d.Kept) {discard : Bool} {r : Result} (hback : discard = false → d.session.tx = none)
    (hdeadline : r = .rejected .deadline → d.commitIssued = false) (hresolved : r = .resolved → discard = false) :
    (d.finish discard r).Inv := by
  refine ⟨fun r' hr' => ?_, fun hp => ?_⟩
  · cases he : d.expired with
    | false =>
      have hfresh := h.fresh he
      cases discard with
      | false =>
        have hfinish : d.finish false r =
            { d with phase := .settled r, armed := false, releases := 1, pooled := d.connected } := by
          simp [finish, release, hfresh]
        rw [hfinish] at hr' ⊢
        cases hr'
        refine ⟨⟨fun _ => ⟨hback rfl, h.paid⟩, ?_, fun _ _ => rfl, Nat.le_refl 1, fun _ => hback rfl⟩, rfl⟩
        intro hr
        cases hr
        exact hdeadline rfl
      | true =>
        have hfinish : d.finish true r =
            { d with phase := .settled r, armed := false, releases := 1, connected := false, session := d.session.gone } := by
          cases hc : d.connected with
          | true => simp [finish, release, disconnect, execute, hfresh, hc]
          | false =>
            have hsession : d.session.gone = d.session := by
              have htx := h.gone hc
              unfold Session.gone
              rw [← htx]
            rw [hsession]
            simp [finish, release, disconnect, hfresh, hc]
        rw [hfinish] at hr' ⊢
        cases hr'
        refine ⟨⟨fun hr => ?_, ?_, fun _ _ => rfl, Nat.le_refl 1, fun _ => rfl⟩, rfl⟩
        · cases hr
          cases hresolved rfl
        · intro hr
          cases hr
          exact hdeadline rfl
    | true =>
      have hexp := h.expired he
      have hfinish : d.finish discard r = { d with phase := .settled r, armed := false } := by
        simp [finish, release, hexp.1]
      rw [hfinish] at hr' ⊢
      cases hr'
      have htx := h.gone hexp.2.1
      refine ⟨⟨fun _ => ⟨htx, h.paid⟩, ?_, fun _ _ => hexp.1, h.releases_le, fun _ => htx⟩, rfl⟩
      intro hr
      cases hr
      exact hdeadline rfl
  · exfalso
    refine hp r ?_
    unfold finish release disconnect
    split_ifs <;> rfl

/-- The `catch` block. -/
theorem inv_caught (h : d.Kept) {error : Failure} (herror : error ≠ .deadline)
    (hc : d.expired = true → d.commitIssued = false) : (d.caught error).Inv := by
  unfold caught
  split
  · next he =>
    have hexp := h.expired he
    exact inv_finish h (fun _ => h.gone hexp.2.1) (fun _ => hc he) (fun hr => by cases hr)
  · have hlive : Live { d with phase := .rollingBack error } :=
      { h with
        begun := fun hp => by cases hp
        body := fun s hp => by cases hp
        committing := fun hp => by cases hp
        rolling := fun hp => by
          cases hp
          exact herror rfl
        keeps := fun hp => by cases hp }
    exact hlive.inv fun r hp => by cases hp

theorem settle_fst (s : Statement ω) (o : Outcome) :
    ∃ x : Session ω, (d.settle s o).1 = { d with session := x } ∧
      (x = d.session ∨ d.connected = true ∧ ((∃ ok, x = (d.session.exec ok s).1) ∨ ∃ executed, x = d.execute executed)) := by
  unfold settle
  split
  · next hc =>
    split
    · next ok => exact ⟨_, rfl, .inr ⟨hc, .inl ⟨ok, rfl⟩⟩⟩
    · next executed => exact ⟨_, rfl, .inr ⟨hc, .inr ⟨executed, rfl⟩⟩⟩
  · exact ⟨d.session, rfl, .inl rfl⟩

theorem kept_settle (h : d.Live) {s : Statement ω} (hs : d.inFlight = some s) (o : Outcome) :
    (d.settle s o).1.Kept := by
  obtain ⟨x, hx, hcases⟩ := @settle_fst _ d s o
  rw [hx]
  have hpaid : x.Paid := by
    rcases hcases with rfl | ⟨-, ⟨ok, rfl⟩ | ⟨executed, rfl⟩⟩
    · exact h.paid
    · refine Session.paid_exec h.paid ok ?_
      rintro rfl
      exact h.keeps hs
    · exact h.paid_execute executed
  refine ⟨hpaid, fun hc => ?_, h.fresh, h.expired, h.pooled⟩
  rcases hcases with rfl | ⟨hc', -⟩
  · exact h.gone hc
  · rw [hc'] at hc
    cases hc

theorem inv_deadline (h : d.Live) (hp : ∀ r, d.phase ≠ .settled r) (harmed : d.armed = true) (executed : Option Bool)
    (hk : Keeps d (.deadline executed)) :
    Inv { (d.disconnect executed).release true with armed := false, expired := true } := by
  have hexp : d.expired = false := by
    cases he : d.expired with
    | false => rfl
    | true =>
      have := (h.expired he).2.2
      rw [harmed] at this
      cases this
  have hlive := live_disconnect h executed
  have hphase : (d.disconnect executed).phase = d.phase := by
    unfold disconnect
    split <;> rfl
  have hsame : (d.disconnect executed).releases = 0 ∧ (d.disconnect executed).connected = false ∧
      (d.disconnect executed).commitIssued = d.commitIssued := by
    unfold disconnect
    split
    · exact ⟨h.fresh hexp, rfl, rfl⟩
    · next hc => exact ⟨h.fresh hexp, by simpa using hc, rfl⟩
  rw [release_of_disconnected hsame.1 hsame.2.1]
  have hnext : Live { d.disconnect executed with releases := 1, armed := false, expired := true } :=
    { hlive with
      fresh := fun he => by cases he
      expired := fun _ => ⟨rfl, hsame.2.1, rfl⟩
      body := fun s hs _ => hsame.2.2.trans (hk harmed s (hphase.symm.trans hs))
      committing := fun hc => by
        have := (h.committing (hphase.symm.trans hc)).2
        rw [harmed] at this
        cases this }
  refine hnext.inv fun r hr => hp r ?_
  exact hphase.symm.trans hr

/-- The body goes on, or begins. -/
theorem inv_body {s : Option (Statement ω)} (h : d.Kept) (hi : d.expired = true → d.commitIssued = false)
    (hs : s = some .COMMIT → ¬d.session.Loses) : Inv { d with phase := .body s } := by
  have hnext : Live { d with phase := .body s } :=
    { h with
      begun := fun hp => by cases hp
      body := fun _ _ => hi
      committing := fun hp => by cases hp
      rolling := fun hp => by cases hp
      keeps := hs }
  exact hnext.inv fun r hr => by cases hr

/-- The answer to BEGIN. -/
theorem inv_answer_begin (h : d.Live) (hp : d.phase = .beginning) (o : Outcome) (hk : Keeps d (.answer o)) :
    Inv (if (d.settle .BEGIN o).2 then { (d.settle .BEGIN o).1 with phase := .body none }
      else (d.settle .BEGIN o).1.finish false (.rejected .begin)) := by
  have hflight : d.inFlight = some .BEGIN := by simp [inFlight, hp]
  have hkept := kept_settle h hflight o
  obtain ⟨x, hx, -⟩ := @settle_fst _ d .BEGIN o
  split
  · refine inv_body hkept (fun _ => ?_) fun hs => by cases hs
    rw [hx]
    exact (h.begun hp).2
  · next hrefused =>
    refine inv_finish hkept (fun _ => ?_) (fun hr => by cases hr) (fun hr => by cases hr)
    -- the server has opened no transaction
    have htx := (h.begun hp).1
    unfold settle at hrefused ⊢
    split at hrefused
    · next hc =>
      rw [if_pos hc]
      cases o with
      | answered ok => exact Session.exec_begin htx (by simpa using hrefused)
      | timedOut executed =>
        change (d.execute executed).tx = none
        unfold execute
        rw [hflight]
        cases executed with
        | none => exact htx
        | some ok =>
          cases ok with
          | true => exact absurd hp (hk hc)
          | false => simp [Session.exec, htx]
    · next hc =>
      rw [if_neg hc]
      exact htx

/-- The answer to a statement of the body. -/
theorem inv_answer_body {s : Statement ω} (h : d.Live) (hp : d.phase = .body (some s)) (o : Outcome) :
    Inv { (d.settle s o).1 with phase := .body none } := by
  have hkept := kept_settle h (s := s) (by simp [inFlight, hp]) o
  obtain ⟨x, hx, -⟩ := @settle_fst _ d s o
  refine inv_body hkept ?_ fun hs => by cases hs
  rw [hx]
  exact h.body _ hp

/-- The answer to COMMIT. -/
theorem inv_answer_commit (h : d.Live) (hp : d.phase = .committing) (o : Outcome) :
    Inv (if (d.settle .COMMIT o).2 then (d.settle .COMMIT o).1.finish false .resolved
      else (d.settle .COMMIT o).1.caught .commit) := by
  have hkept := kept_settle h (s := .COMMIT) (by simp [inFlight, hp]) o
  obtain ⟨x, hx, -⟩ := @settle_fst _ d .COMMIT o
  split
  · next hdone =>
    refine inv_finish hkept (fun _ => ?_) (fun hr => by cases hr) fun _ => rfl
    unfold settle at hdone ⊢
    split at hdone
    · next hc =>
      rw [if_pos hc]
      cases o with
      | answered ok => exact Session.exec_commit ok
      | timedOut executed => cases hdone
    · cases hdone
  · refine inv_caught hkept (by decide) fun he => ?_
    rw [hx] at he
    have := (h.committing hp).1.symm.trans he
    cases this

/-- The answer to ROLLBACK. -/
theorem inv_answer_rollback {error : Failure} (h : d.Live) (hp : d.phase = .rollingBack error) (o : Outcome) :
    Inv ((d.settle .ROLLBACK o).1.finish (!(d.settle .ROLLBACK o).2) (.rejected error)) := by
  have hkept := kept_settle h (s := .ROLLBACK) (by simp [inFlight, hp]) o
  refine inv_finish hkept (fun hback => ?_) (fun hr => ?_) fun hr => by cases hr
  · have hdone : (d.settle .ROLLBACK o).2 = true := by simpa using hback
    unfold settle at hdone ⊢
    split at hdone
    · next hc =>
      rw [if_pos hc]
      cases o with
      | answered ok => exact (Session.exec_rollback ok).1
      | timedOut executed => cases hdone
    · cases hdone
  · cases hr
    exact absurd hp h.rolling

/-- The body returns. -/
theorem inv_returns (h : d.Live) (hp : d.phase = .body none) (hk : Keeps d .returns) :
    Inv (if d.expired then { d with armed := false }.caught .body
      else { d with armed := false, phase := .committing, commitIssued := true }) := by
  split
  · have hkept : Kept { d with armed := false } :=
      { h.toKept with expired := fun he => ⟨(h.expired he).1, (h.expired he).2.1, rfl⟩ }
    exact inv_caught hkept (by decide) (h.body _ hp)
  · next he =>
    have hnext : Live { d with armed := false, phase := .committing, commitIssued := true } :=
      { paid := h.paid
        gone := h.gone
        fresh := h.fresh
        expired := fun he' => absurd he' he
        pooled := h.pooled
        begun := fun hp => by cases hp
        body := fun s hp => by cases hp
        committing := fun _ => ⟨by simpa using he, rfl⟩
        rolling := fun hp => by cases hp
        keeps := fun _ => hk }
    exact hnext.inv fun r hr => by cases hr

/-- The body issues a COMMIT; on a client that is no longer connected it reaches nobody. -/
theorem inv_issue_commit (h : d.Live) (hp : d.phase = .body none) (hk : Keeps d (.issue .COMMIT)) :
    Inv { d with phase := .body (some .COMMIT), commitIssued := d.commitIssued || d.connected } := by
  have hkept : Kept { d with commitIssued := d.commitIssued || d.connected } := { h.toKept with }
  refine inv_body hkept (fun he => ?_) fun _ => hk
  change (d.commitIssued || d.connected) = false
  rw [h.body _ hp he, (h.expired he).2.1]
  rfl

end Driver

/-- **Step.** -/
theorem inv_step {d : Driver ω} {e : Event ω} (hk : Keeps d e) (h : d.Inv) : (step d e).1.Inv := by
  by_cases hp : ∀ r, d.phase ≠ .settled r
  · have hlive := h.live hp
    cases e with
    | deadline executed =>
      change (if d.armed then _ else d).Inv
      split
      · next harmed => exact inv_deadline hlive hp harmed executed hk
      · exact h
    | broken executed =>
      change Inv (match d.phase with
        | .settled _ => d
        | _ => d.disconnect executed)
      split
      · exact h
      · refine (live_disconnect hlive executed).inv fun r hr => hp r ?_
        rw [← hr]
        unfold disconnect
        split <;> rfl
    | answer o =>
      unfold step
      dsimp only
      split
      · next hphase => exact inv_answer_begin hlive hphase o hk
      · next s hphase => exact inv_answer_body hlive hphase o
      · next hphase => exact inv_answer_commit hlive hphase o
      · next hphase => exact inv_answer_rollback hlive hphase o
      · exact h
    | issue s =>
      unfold step
      dsimp only
      split
      · next hphase => exact inv_issue_commit hlive hphase hk
      · next hphase hs =>
        refine inv_body hlive.toKept (hlive.body _ hphase) fun hc => ?_
        cases hc
        exact absurd rfl hs
      · exact h
    | returns =>
      unfold step
      dsimp only
      split
      · next hphase => exact inv_returns hlive hphase hk
      · exact h
    | throws =>
      unfold step
      dsimp only
      split
      · next hphase => exact inv_caught hlive.toKept (by decide) (hlive.body _ hphase)
      · exact h
  · -- nothing happens after the call has settled
    obtain ⟨r, hr⟩ := not_forall.1 hp
    have hphase := not_not.1 hr
    have harmed := (h.settled r hphase).2
    have hsame : (step d e).1 = d := by
      unfold step
      cases e <;> simp [hphase, harmed]
    rw [hsame]
    exact h

theorem inv_init (armed : Bool) (durable : List ω) : (Driver.init armed durable).Inv := by
  have hlive : (Driver.init armed durable).Live :=
    { paid := fun _ hw => by cases hw
      gone := fun hc => by cases hc
      fresh := fun _ => rfl
      expired := fun he => by cases he
      pooled := rfl
      begun := fun _ => ⟨rfl, rfl⟩
      body := fun s hp => by cases hp
      committing := fun hp => by cases hp
      rolling := fun hp => by cases hp
      keeps := fun hp => by cases hp }
  exact hlive.inv fun r hr => by cases hr

/-- **A transaction is honest.**  Along every run, of any body, with the deadline and the end of the connection at any moment,
whose steps keep the condition, the call says of the server what is so. -/
theorem transaction_honest (armed : Bool) (durable : List ω) (es : List (Event ω))
    (hk : Run.Along step Keeps (Driver.init armed durable) es) :
    Run.Throughout step Honest (Driver.init armed durable) es :=
  (Run.throughout_of_along (fun _ _ => inv_step) (inv_init armed durable) hk).mono fun _ => Inv.honest

section Fixed

/-- A statement fails, and the body goes back to its savepoint. -/
def savepointRun : List (Event ℕ) :=
  [.answer (.answered true), .issue (.work 1), .answer (.answered true), .issue (.SAVEPOINT "a"), .answer (.answered true),
    .issue (.work 2), .answer (.answered false), .issue (.ROLLBACK_TO "a"), .answer (.answered true), .returns,
    .answer (.answered true)]

theorem transaction_honest_savepointRun :
    Run.Throughout step Honest (Driver.init true []) savepointRun ∧
      (Run.final step (Driver.init true []) savepointRun).session.durable = [1] := by
  refine ⟨transaction_honest true [] savepointRun ?_, rfl⟩
  refine ⟨trivial, trivial, trivial, trivial, trivial, trivial, trivial, trivial, trivial, ?_, trivial, trivial⟩
  rintro ⟨t, ht, ha, -⟩
  cases ht
  cases ha

/-- The body swallows the failure of its second statement: the promise resolves, and the first is not durable. -/
theorem not_transaction_honest :
    ¬Run.Throughout step Honest (Driver.init true ([] : List ℕ))
      [.answer (.answered true), .issue (.work 1), .answer (.answered true), .issue (.work 2), .answer (.answered false),
        .returns, .answer (.answered true)] := by
  rintro ⟨-, -, -, -, -, -, -, h⟩
  have hlost := (h.resolved rfl).2 1 List.mem_cons_self
  cases hlost

/-- A BEGIN times out at the client and is run by the server: the client goes back inside a transaction. -/
example : (Run.final step (Driver.init true ([] : List ℕ)) [.answer (.timedOut (some true))]).pooled = true ∧
    (Run.final step (Driver.init true ([] : List ℕ)) [.answer (.timedOut (some true))]).session.tx.isSome = true :=
  ⟨rfl, rfl⟩

end Fixed

end LlmGateway.Storage.Pg
