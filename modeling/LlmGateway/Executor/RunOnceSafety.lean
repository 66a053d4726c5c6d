import LlmGateway.Executor.RunOnce

/-!
# What a run of a provider CLI tells

* `Run.Told` — the outcome is the truth about the run; `Run.Sound` adds that the child's end settles the run, and what the
  fence owes the process group;
* `Orderly` — the events at which the code keeps to that;
* `sound_of_orderly` — all states of an orderly run are sound, and its first outcome stays.
-/

namespace LlmGateway.Executor

open LlmGateway.Lib LlmGateway.Lib.Utf16 LlmGateway.Lib.Run

/-! ## The fence -/

namespace Fence

def done (spawned : Bool) (log : List GroupAction) : List GroupAction := if spawned then log else []

/-- Nothing was asked of the group, or it was asked to terminate; its leader has left by itself, or the group was killed. -/
inductive Phase (spawned : Bool) : Fence → Prop
  | quiet : Phase spawned ⟨spawned, false, false, false, []⟩
  | asked (n : ℕ) : Phase spawned ⟨spawned, false, true, true, done spawned (List.replicate n (.signal .SIGTERM))⟩
  | released : Phase spawned ⟨spawned, true, false, false, done spawned [.unregister]⟩
  | killed (n : ℕ) :
    Phase spawned ⟨spawned, true, false, false,
      done spawned (List.replicate n (.signal .SIGTERM) ++ [.signal .SIGKILL, .unregister])⟩

/-- A signal goes to a group that is registered; one that has had a signal is unregistered behind its SIGKILL. -/
def Fenced (before : List GroupAction) : GroupAction → Prop
  | .signal _ => .unregister ∉ before
  | .unregister => (∃ s, .signal s ∈ before) → .signal .SIGKILL ∈ before

theorem terminate_pending (f : Fence) : f.terminate.terminationPending = true := by
  obtain ⟨spawned, cleaned, pending, timer, log⟩ := f
  cases spawned <;> rfl

theorem forceKillAndCleanup_cleaned (f : Fence) : f.forceKillAndCleanup.groupCleaned = true := by
  obtain ⟨spawned, cleaned, pending, timer, log⟩ := f
  cases spawned <;> cases cleaned <;> rfl

theorem cleanupAfterLeaderExit_left (f : Fence) :
    f.cleanupAfterLeaderExit.terminationPending = true ∨ f.cleanupAfterLeaderExit.groupCleaned = true := by
  obtain ⟨spawned, cleaned, pending, timer, log⟩ := f
  cases pending with
  | true => exact .inl rfl
  | false => cases cleaned <;> exact .inr rfl

variable {spawned : Bool} {f : Fence}

theorem Phase.terminate (h : Phase spawned f) (hf : f.groupCleaned = false) : Phase spawned f.terminate := by
  cases h with
  | quiet =>
    have h1 : Phase spawned ⟨spawned, false, true, true, done spawned (List.replicate 1 (.signal .SIGTERM))⟩ := .asked 1
    cases spawned <;> exact h1
  | asked n =>
    have hn : Phase spawned _ := .asked (n + 1)
    rw [List.replicate_succ'] at hn
    cases spawned <;> exact hn
  | released => cases hf
  | killed n => cases hf

theorem Phase.cleanupAfterLeaderExit (h : Phase spawned f) : Phase spawned f.cleanupAfterLeaderExit := by
  cases h with
  | quiet => cases spawned <;> exact .released
  | asked n => exact .asked n
  | released => exact .released
  | killed n => exact .killed n

theorem Phase.forceKillAndCleanup (h : Phase spawned f) (hf : f.escalationTimer = true) : Phase spawned f.forceKillAndCleanup := by
  cases h with
  | asked n =>
    have hn : Phase spawned _ := .killed n
    cases spawned with
    | false => exact hn
    | true =>
      rw [← List.singleton_append, ← List.append_assoc] at hn
      exact hn
  | _ => cases hf

theorem fenced_replicate (n : ℕ) : Justified Fenced (List.replicate n (.signal .SIGTERM)) := by
  induction n with
  | zero => exact justified_nil
  | succ n ih =>
    rw [List.replicate_succ']
    refine justified_concat.2 ⟨ih, ?_⟩
    intro hmem
    cases List.eq_of_mem_replicate hmem

theorem Phase.fenced (h : Phase spawned f) : Justified Fenced f.log := by
  cases spawned with
  | false => cases h <;> exact justified_nil
  | true =>
    cases h with
    | quiet => exact justified_nil
    | asked n => exact fenced_replicate n
    | released =>
      refine justified_concat.2 ⟨justified_nil, ?_⟩
      rintro ⟨s, hs⟩
      cases hs
    | killed n =>
      show Justified Fenced (_ ++ ([_] ++ [_]))
      rw [← List.append_assoc]
      refine justified_concat.2 ⟨justified_concat.2 ⟨fenced_replicate n, ?_⟩, ?_⟩
      · intro hmem
        cases List.eq_of_mem_replicate hmem
      · intro _
        simp

theorem Phase.count_unregister (h : Phase spawned f) : f.log.count .unregister ≤ 1 := by
  cases spawned with
  | false => cases h <;> simp [done]
  | true => cases h <;> simp [done, List.count_replicate]

/-- Behind its last timer a group that is owned no longer has been unregistered. -/
theorem Phase.unregister_mem (h : Phase true f) (hf : f.terminationPending = true ∨ f.groupCleaned = true)
    (htimer : f.escalationTimer = false) : .unregister ∈ f.log := by
  cases h with
  | quiet => simp at hf
  | asked n => cases htimer
  | released => simp [done]
  | killed n => simp [done]

end Fence

/-! ## What a run tells -/

/-- A rejection with this exit code. -/
def Outcome.Reports (code : ℤ) : Outcome → Prop
  | .rejected (.exited _ result) => result.code = code
  | _ => False

theorem Outcome.Reports.rejected {code : ℤ} {p : Outcome} (h : p.Reports code) : ∃ error, p = .rejected error := by
  cases p with
  | resolved result => exact h.elim
  | rejected error => exact ⟨error, rfl⟩

namespace Run

def text (r : Run) : Stream → Text
  | .stdout => r.stdout
  | .stderr => r.stderr

/-- There was nothing to deliver, or all of it has been delivered. -/
def Delivered (o : Options) (r : Run) : Prop := o.stdin = .absent ∨ ∃ d, r.stdinDelivery = some d ∧ d.state = .succeeded

/-- A run is resolved by a child that exits with 0, has taken its stdin and has written what the result says; one that took too
long is rejected as such. -/
structure Told (o : Options) (r : Run) : Prop where
  resolved : ∀ result, r.promise = some (.resolved result) →
    result.code = 0 ∧ r.closed = some (some 0) ∧ r.Delivered o ∧
      result.stdout = Utf8.decode (r.written .stdout) ∧ result.stderr = Utf8.decode (r.written .stderr)
  timedOut : ∀ p, r.promise = some p → r.timedOut = true → p.Reports 124
  idledOut : ∀ p, r.promise = some p → r.timedOut = false → r.idledOut = true → p.Reports 125

structure Sound (o : Options) (r : Run) : Prop extends Told o r where
  ended : r.exited = true → r.promise.isSome = true
  fenced : Justified Fence.Fenced r.fence.log
  once : r.fence.log.count .unregister ≤ 1
  released : o.spawned = true → r.exited = true → r.fence.escalationTimer = false → .unregister ∈ r.fence.log

end Run

/-- A failure of the delivery that has the child terminated. -/
def failsDelivery (r : Run) (code : String) : Bool :=
  r.promise.isNone && r.stdinDelivery.any (fun d => !d.reported) &&
    decide (normalizeChildStdinDeliveryError code = .ChildStdinWriteFailedError)

/-- **The condition**: no chunk cuts a character; nothing has a group terminated that is owned no longer; where the time of a run
is over, nothing else ends it than the child's `close`; and no signal from outside ends the child. -/
def Orderly (r : Run) : Event → Prop
  | .data stream chunk =>
    r.promise = none → ¬Utf8.Continues (Utf8.write none (r.written stream)).2 chunk ∧
      (MAX_OUTPUT_SIZE < r.outputSize + chunk.length →
        r.fence.groupCleaned = false ∧ r.timedOut = false ∧ r.idledOut = false)
  | .timeout => r.timeoutId = true → r.fence.groupCleaned = false
  | .idleTimeout => r.idleTimerId = true → r.fence.groupCleaned = false
  | .stdinWritten (some code) => failsDelivery r code = true → r.fence.groupCleaned = false
  | .stdinError code => failsDelivery r code = true → r.fence.groupCleaned = false
  | .close none =>
    r.promise = none →
      r.timedOut = true ∨ r.idledOut = true ∨ r.stdinFailure.isSome = true ∨
        isChildStdinDeliveryIncomplete r.stdinDelivery = true
  | .error _ => r.promise = none → r.timedOut = false ∧ r.idledOut = false
  | _ => True

instance : ∀ r e, Decidable (Orderly r e)
  | _, .data _ _ => inferInstanceAs (Decidable (_ → _ ∧ (_ → _)))
  | _, .timeout => inferInstanceAs (Decidable (_ → _))
  | _, .idleTimeout => inferInstanceAs (Decidable (_ → _))
  | _, .escalation => inferInstanceAs (Decidable True)
  | _, .stdinWritten (some _) => inferInstanceAs (Decidable (_ → _))
  | _, .stdinWritten none => inferInstanceAs (Decidable True)
  | _, .stdinError _ => inferInstanceAs (Decidable (_ → _))
  | _, .stdinClose => inferInstanceAs (Decidable True)
  | _, .close none => inferInstanceAs (Decidable (_ → _))
  | _, .close (some _) => inferInstanceAs (Decidable True)
  | _, .error _ => inferInstanceAs (Decidable (_ → _))

/-! ## The invariant -/

namespace Run

/-- Where the delivery of stdin stands: one that there is stays, a successful one has had its callback, and behind the child's
end its listeners are gone. -/
structure Delivering (o : Options) (r : Run) : Prop where
  noPipe : o.stdin = .noPipe → r.stdinFailure.isSome = true
  payload : ∀ thrown, o.stdin = .payload thrown → r.stdinDelivery.isSome = true
  succeeded : ∀ d, r.stdinDelivery = some d → d.state = .succeeded → d.called = true
  cleaned : ∀ d, r.stdinDelivery = some d → r.exited = true → d.cleaned = true

structure Inv (o : Options) (r : Run) : Prop extends Told o r, Delivering o r where
  phase : r.fence.Phase o.spawned
  left : r.exited = true → r.fence.terminationPending = true ∨ r.fence.groupCleaned = true
  settled : r.promise.isSome = true ↔ r.settled = true ∨ r.closed.isSome = true
  ended : r.exited = true → r.promise.isSome = true
  closing : r.closed.isSome = true → r.exited = true
  timers : r.promise.isSome = true → r.timeoutId = false ∧ r.idleTimerId = false
  texts : r.promise = none → ∀ stream, r.text stream = Utf8.decode (r.written stream)

variable {o : Options} {r : Run}

theorem Inv.sound (h : Inv o r) : Sound o r where
  toTold := h.toTold
  ended := h.ended
  fenced := h.phase.fenced
  once := h.phase.count_unregister
  released hspawned hexited htimer := by
    have hphase := h.phase
    rw [hspawned] at hphase
    exact hphase.unregister_mem (h.left hexited) htimer

/-- A run that has not been settled goes on. -/
theorem Inv.running (h : Inv o r) (hp : r.promise = none) :
    r.settled = false ∧ r.closed = none ∧ r.exited = false := by
  have hsettled := h.settled
  have hended := h.ended
  simp only [hp, Option.isSome_none, Bool.false_eq_true, false_iff, not_or] at hsettled hended
  refine ⟨Bool.eq_false_iff.2 hsettled.1, Option.not_isSome_iff_eq_none.1 hsettled.2, Bool.eq_false_iff.2 hended⟩

/-! ### The operations -/

theorem Inv.withFence (h : Inv o r) {f : Fence} (hf : f.Phase o.spawned)
    (hleft : r.exited = true → f.terminationPending = true ∨ f.groupCleaned = true) : Inv o { r with fence := f } :=
  { h with phase := hf, left := hleft }

theorem Inv.terminate (h : Inv o r) (hf : r.fence.groupCleaned = false) : Inv o r.terminate :=
  h.withFence (h.phase.terminate hf) fun _ => .inl (Fence.terminate_pending _)

theorem Inv.escalation (h : Inv o r) : Inv o r.escalation := by
  unfold Run.escalation
  split
  · next htimer =>
    exact h.withFence (h.phase.forceKillAndCleanup htimer) fun _ => .inr (Fence.forceKillAndCleanup_cleaned _)
  · exact h

theorem Delivered.exit (h : r.Delivered o) : r.exit.Delivered o := by
  refine h.imp id ?_
  rintro ⟨d, hd, hstate⟩
  exact ⟨{ d with cleaned := true }, by show Option.map _ r.stdinDelivery = _; rw [hd]; rfl, hstate⟩

theorem Delivering.exit (h : Delivering o r) : Delivering o r.exit where
  noPipe := h.noPipe
  payload thrown ho := by
    show (Option.map _ r.stdinDelivery).isSome = true
    rw [Option.isSome_map]
    exact h.payload thrown ho
  succeeded := by
    rintro _ hmap hstate
    obtain ⟨d, hd, rfl⟩ := Option.map_eq_some_iff.1 hmap
    exact h.succeeded d hd hstate
  cleaned := by
    rintro _ hmap -
    obtain ⟨d, hd, rfl⟩ := Option.map_eq_some_iff.1 hmap
    rfl

/-- The first things that the child's end does. -/
theorem Inv.exit (h : Inv o r) (hp : r.promise.isSome = true) : Inv o r.exit where
  toTold := { h.toTold with
    resolved := by
      intro result hresult
      obtain ⟨hcode, hclosed, hdelivered, htexts⟩ := h.resolved result hresult
      exact ⟨hcode, hclosed, hdelivered.exit, htexts⟩ }
  toDelivering := h.toDelivering.exit
  phase := h.phase.cleanupAfterLeaderExit
  left _ := r.fence.cleanupAfterLeaderExit_left
  settled := h.settled
  ended _ := hp
  closing _ := rfl
  timers _ := ⟨(h.timers hp).1, rfl⟩
  texts := h.texts

/-- The child's end settles a run that has not been settled. -/
theorem Inv.conclude (h : Inv o r) {s : Bool} {c : Option (Option ℤ)} {p : Outcome} (hs : s = true ∨ c.isSome = true)
    (hp : Told o { r.exit with timeoutId := false, settled := s, closed := c, promise := some p }) :
    Inv o { r.exit with timeoutId := false, settled := s, closed := c, promise := some p } where
  toTold := hp
  toDelivering := { h.toDelivering.exit with }
  phase := h.phase.cleanupAfterLeaderExit
  left _ := r.fence.cleanupAfterLeaderExit_left
  settled := iff_of_true rfl hs
  ended _ := rfl
  closing _ := rfl
  timers _ := ⟨rfl, rfl⟩
  texts hnone := by cases hnone

/-- What has been settled by something else than the child's success. -/
theorem told_of_rejected {error : RunError} (hp : r.promise = some (.rejected error))
    (ht : r.timedOut = true → (Outcome.rejected error).Reports 124)
    (hi : r.timedOut = false → r.idledOut = true → (Outcome.rejected error).Reports 125) : Told o r where
  resolved result hresult := by
    rw [hp] at hresult
    cases hresult
  timedOut p hpromise htimedOut := by
    rw [hp] at hpromise
    cases hpromise
    exact ht htimedOut
  idledOut p hpromise htimedOut hidledOut := by
    rw [hp] at hpromise
    cases hpromise
    exact hi htimedOut hidledOut

theorem told_of_running (hp : r.promise = none) : Told o r where
  resolved _ hresult := by
    rw [hp] at hresult
    cases hresult
  timedOut _ hpromise := by
    rw [hp] at hpromise
    cases hpromise
  idledOut _ hpromise := by
    rw [hp] at hpromise
    cases hpromise

theorem error_of_settled (message : Text) {p : Outcome} (hp : r.promise = some p) (ht : r.timeoutId = false) :
    r.error message = { r.exit with settled := true } := by
  obtain ⟨stdout, stderr, written, outputSize, timedOut, idledOut, exited, settled, stdinFailure, stdinDelivery, fence,
    timeoutId, idleTimerId, closed, promise⟩ := r
  subst hp ht
  cases settled <;> rfl

theorem Inv.error (h : Inv o r) {message : Text} (hok : Orderly r (.error message)) : Inv o (r.error message) := by
  cases hp : r.promise with
  | none =>
    obtain ⟨hsettled, hclosed, -⟩ := h.running hp
    obtain ⟨htimedOut, hidledOut⟩ := hok hp
    have hresult : r.error message =
        { r.exit with timeoutId := false, settled := true, closed := r.closed, promise := some (.rejected (.child message)) } := by
      unfold Run.error Run.settle
      simp [Run.exit, cleanupDelivery, hsettled, hp]
    rw [hresult]
    refine h.conclude (.inl rfl) (told_of_rejected rfl ?_ ?_)
    · intro ht
      rw [show r.timedOut = true from ht] at htimedOut
      cases htimedOut
    · intro _ hi
      rw [show r.idledOut = true from hi] at hidledOut
      cases hidledOut
  | some p =>
    have hexit := h.exit (by rw [hp]; rfl)
    rw [error_of_settled message hp (h.timers (by rw [hp]; rfl)).1]
    exact { hexit with settled := iff_of_true (by show r.promise.isSome = true; rw [hp]; rfl) (.inl rfl) }

/-- What `close` tells of a run that has not been settled. -/
inductive Concludes (o : Options) (r : Run) (code : Option ℤ) : Outcome → Prop
  | timedOut {p} (ht : r.timedOut = true) (hp : p.Reports 124) : Concludes o r code p
  | idledOut {p} (ht : r.timedOut = false) (hi : r.idledOut = true) (hp : p.Reports 125) : Concludes o r code p
  | rejected (ht : r.timedOut = false) (hi : r.idledOut = false) (error : RunError) : Concludes o r code (.rejected error)
  | resolved (ht : r.timedOut = false) (hi : r.idledOut = false) (hcode : (r.exitResult o code).code = 0)
    (hfailure : r.stdinFailure = none) (hdelivery : isChildStdinDeliveryIncomplete r.stdinDelivery = false) :
    Concludes o r code (.resolved (r.exitResult o code))

theorem close_of_running (code : Option ℤ) (hsettled : r.settled = false) (hclosed : r.closed = none) (hp : r.promise = none) :
    ∃ s p, r.close o code = { r.exit with timeoutId := false, settled := s, closed := some code, promise := some p } ∧
      Concludes o r code p := by
  by_cases hcode : (r.exitResult o code).code = 0
  all_goals
    obtain ⟨stdout, stderr, written, outputSize, timedOut, idledOut, exited, settled, stdinFailure, stdinDelivery, fence,
      timeoutId, idleTimerId, closed, promise⟩ := r
    subst hsettled hclosed hp
    cases timedOut with
    | true => exact ⟨_, _, rfl, .timedOut rfl rfl⟩
    | false => ?_
    cases idledOut with
    | true => exact ⟨_, _, rfl, .idledOut rfl rfl rfl⟩
    | false => ?_
  · cases stdinFailure with
    | some error => exact ⟨_, _, if_neg (not_not.2 hcode), .rejected rfl rfl _⟩
    | none =>
      cases hincomplete : isChildStdinDeliveryIncomplete stdinDelivery with
      | true => exact ⟨_, _, (if_neg (not_not.2 hcode)).trans (if_pos hincomplete), .rejected rfl rfl _⟩
      | false =>
        exact ⟨_, _, (if_neg (not_not.2 hcode)).trans (if_neg (ne_true_of_eq_false hincomplete)),
          .resolved rfl rfl hcode rfl hincomplete⟩
  · exact ⟨_, _, if_pos hcode, .rejected rfl rfl _⟩

/-- A result with the code 0 is what the child has written. -/
theorem exitResult_of_code_eq_zero {code : Option ℤ} (h : (r.exitResult o code).code = 0) :
    code.getD 0 = 0 ∧ (r.exitResult o code).stdout = r.stdout ∧ (r.exitResult o code).stderr = r.stderr := by
  unfold Run.exitResult at h ⊢
  split at h
  · cases h
  · next hfound =>
    rw [if_neg hfound]
    exact ⟨h, rfl, rfl⟩

theorem Inv.delivered (h : Inv o r) (hfailure : r.stdinFailure = none)
    (hdelivery : isChildStdinDeliveryIncomplete r.stdinDelivery = false) : r.Delivered o := by
  cases ho : o.stdin with
  | absent => exact .inl ho
  | noPipe =>
    have hsome := h.noPipe ho
    rw [hfailure] at hsome
    cases hsome
  | payload thrown =>
    obtain ⟨d, hd⟩ := Option.isSome_iff_exists.1 (h.payload thrown ho)
    rw [hd] at hdelivery
    exact .inr ⟨d, hd, by simpa [isChildStdinDeliveryIncomplete] using hdelivery⟩

/-- The child's end settles a run with the truth. -/
theorem Inv.close (h : Inv o r) {code : Option ℤ} (hok : Orderly r (.close code)) : Inv o (r.close o code) := by
  cases hp : r.promise with
  | none =>
    obtain ⟨hsettled, hclosed, -⟩ := h.running hp
    obtain ⟨s, p, hresult, hconcludes⟩ := close_of_running (o := o) code hsettled hclosed hp
    rw [hresult]
    refine h.conclude (.inr rfl) ?_
    cases hconcludes with
    | timedOut ht hreports =>
      obtain ⟨error, rfl⟩ := hreports.rejected
      exact told_of_rejected rfl (fun _ => hreports) fun hfalse _ => absurd (ht.symm.trans hfalse) (by decide)
    | idledOut ht hi hreports =>
      obtain ⟨error, rfl⟩ := hreports.rejected
      exact told_of_rejected rfl (fun htrue => absurd (ht.symm.trans htrue) (by decide)) fun _ _ => hreports
    | rejected ht hi error =>
      refine told_of_rejected rfl (fun htrue => ?_) fun _ htrue => ?_
      · exact absurd (ht.symm.trans htrue) (by decide)
      · exact absurd (hi.symm.trans htrue) (by decide)
    | resolved ht hi hcode hfailure hdelivery =>
      obtain ⟨hzero, hout, herr⟩ := exitResult_of_code_eq_zero hcode
      have hclosed0 : code = some 0 := by
        cases code with
        | some n => exact congrArg some hzero
        | none => simpa [ht, hi, hfailure, hdelivery] using hok hp
      have hdelivered := (h.delivered hfailure hdelivery).exit
      refine ⟨?_, fun _ _ htrue => absurd (ht.symm.trans htrue) (by decide),
        fun _ _ _ htrue => absurd (hi.symm.trans htrue) (by decide)⟩
      rintro _ ⟨⟩
      exact ⟨hcode, congrArg some hclosed0, hdelivered, hout.trans (h.texts hp .stdout), herr.trans (h.texts hp .stderr)⟩
  | some p =>
    unfold Run.close
    split
    · exact h
    · next hclosed =>
      have hpromise : r.promise.isSome = true := by rw [hp]; rfl
      have hexit := h.exit hpromise
      have hsettled : r.settled = true := (h.settled.1 hpromise).resolve_right hclosed
      show Inv o (if r.settled = true then { r.exit with closed := some code } else _)
      rw [if_pos hsettled]
      exact { hexit with
        settled := iff_of_true hpromise (.inl hsettled)
        closing := fun _ => rfl
        resolved := by
          intro result hresult
          obtain ⟨-, hfirst, -⟩ := h.resolved result hresult
          rw [hfirst] at hclosed
          exact absurd rfl hclosed }

/-- A timer that is set is one of a run that has not been settled. -/
theorem Inv.running_of_timer (h : Inv o r) (htimer : r.timeoutId = true ∨ r.idleTimerId = true) : r.promise = none := by
  cases hp : r.promise with
  | none => rfl
  | some p =>
    obtain ⟨ht, hi⟩ := h.timers (by rw [hp]; rfl)
    simp [ht, hi] at htimer

theorem Inv.timeout (h : Inv o r) (hok : Orderly r .timeout) : Inv o r.timeout := by
  unfold Run.timeout
  split
  · next htimer =>
    have hp := h.running_of_timer (.inl htimer)
    have hset : Inv o { r with timeoutId := false, timedOut := true } :=
      { h with toTold := told_of_running hp, timers := fun hsome => ⟨rfl, (h.timers hsome).2⟩ }
    exact hset.terminate (hok htimer)
  · exact h

theorem Inv.idleTimeout (h : Inv o r) (hok : Orderly r .idleTimeout) : Inv o r.idleTimeout := by
  unfold Run.idleTimeout
  split
  · next htimer =>
    have hp := h.running_of_timer (.inr htimer)
    have hset : Inv o { r with idleTimerId := false, idledOut := true, timeoutId := false } :=
      { h with toTold := told_of_running hp, timers := fun _ => ⟨rfl, rfl⟩ }
    exact hset.terminate (hok htimer)
  · exact h

/-- What a stream has written grows by a chunk. -/
def write (r : Run) (stream : Stream) (chunk : List UInt8) : Run :=
  { r with written := Function.update r.written stream (r.written stream ++ chunk) }

theorem text_append (r : Run) (stream : Stream) (t : Text) :
    (r.append stream t).text = Function.update r.text stream (r.text stream ++ t) := by
  funext other
  cases stream <;> cases other <;> rfl

/-- A chunk that fits and cuts no character. -/
theorem Inv.append (h : Inv o r) (hp : r.promise = none) {stream : Stream} {chunk : List UInt8} {size : ℕ} {idle : Bool}
    (hcut : ¬Utf8.Continues (Utf8.write none (r.written stream)).2 chunk) :
    Inv o ({ r.write stream chunk with outputSize := size, idleTimerId := idle }.append stream (Utf8.decode chunk)) := by
  have htexts : ∀ other, Function.update r.text stream (r.text stream ++ Utf8.decode chunk) other =
      Utf8.decode (Function.update r.written stream (r.written stream ++ chunk) other) := by
    intro other
    by_cases hother : other = stream
    · subst hother
      rw [Function.update_self, Function.update_self, Utf8.decode_append hcut, h.texts hp]
    · rw [Function.update_of_ne hother, Function.update_of_ne hother, h.texts hp]
  cases stream with
  | stdout | stderr =>
    exact { h with
      toTold := told_of_running hp
      toDelivering := { h.toDelivering with }
      timers := fun hsome => absurd (show r.promise.isSome = true from hsome) (by rw [hp]; decide)
      texts := fun _ other => (congrFun (text_append _ _ _) other).trans (htexts other) }

/-- The chunk that is too much. -/
theorem Inv.overflow (h : Inv o r) (hp : r.promise = none) (hf : r.fence.groupCleaned = false) (ht : r.timedOut = false)
    (hi : r.idledOut = false) {written : Stream → List UInt8} {outputSize : ℕ} :
    Inv o (({ r with written, outputSize } : Run).terminate.finalizeReject .overflow) := by
  obtain ⟨hsettled, -, -⟩ := h.running hp
  have hterminate := h.terminate hf
  have hresult : ({ r with written, outputSize } : Run).terminate.finalizeReject .overflow =
      { r.terminate with
        written, outputSize, settled := true, timeoutId := false, idleTimerId := false,
        promise := some (.rejected .overflow) } := by
    refine (if_neg (ne_true_of_eq_false hsettled)).trans ?_
    show ({ r.terminate with
      written, outputSize, settled := true, timeoutId := false, idleTimerId := false, promise := r.promise.or _ } : Run) = _
    rw [hp]
    rfl
  rw [hresult]
  exact { hterminate with
    toTold := told_of_rejected rfl (fun htrue => absurd (ht.symm.trans htrue) (by decide))
      fun _ htrue => absurd (hi.symm.trans htrue) (by decide)
    toDelivering := { hterminate.toDelivering with }
    settled := iff_of_true rfl (.inl rfl)
    ended := fun _ => rfl
    timers := fun _ => ⟨rfl, rfl⟩
    texts := fun hnone => by cases hnone }

theorem Inv.written (h : Inv o r) {written : Stream → List UInt8} (hclosed : r.closed = none) (hp : r.promise.isSome = true) :
    Inv o { r with written } :=
  { h with
    resolved := by
      intro result hresult
      obtain ⟨-, hfirst, -⟩ := h.resolved result hresult
      rw [hclosed] at hfirst
      cases hfirst
    texts := by
      intro hnone
      rw [show r.promise = none from hnone] at hp
      cases hp }

theorem Inv.data (h : Inv o r) {stream : Stream} {chunk : List UInt8} (hok : Orderly r (.data stream chunk)) :
    Inv o (r.data o stream chunk) := by
  by_cases hclosed : r.closed.isSome = true
  · rw [show r.data o stream chunk = r from if_pos hclosed]
    exact h
  · have hdata : r.data o stream chunk =
        if r.settled then r.write stream chunk else (r.write stream chunk).handleOutputChunk o stream chunk := if_neg hclosed
    rw [hdata]
    cases hp : r.promise with
    | some p =>
      have hpromise : r.promise.isSome = true := by rw [hp]; rfl
      rw [if_pos ((h.settled.1 hpromise).resolve_right hclosed)]
      exact h.written (Option.not_isSome_iff_eq_none.1 hclosed) hpromise
    | none =>
      obtain ⟨hsettled, -, -⟩ := h.running hp
      obtain ⟨hcut, hover⟩ := hok hp
      rw [if_neg (ne_true_of_eq_false hsettled)]
      by_cases hsize : MAX_OUTPUT_SIZE < r.outputSize + chunk.length
      · obtain ⟨hf, ht, hi⟩ := hover hsize
        have hchunk : handleOutputChunk o (r.write stream chunk) stream chunk =
            ({ r.write stream chunk with outputSize := r.outputSize + chunk.length } : Run).terminate.finalizeReject .overflow :=
          if_pos hsize
        rw [hchunk]
        exact h.overflow hp hf ht hi
      · have hchunk : handleOutputChunk o (r.write stream chunk) stream chunk =
            ({ r.write stream chunk with outputSize := r.outputSize + chunk.length, idleTimerId := o.idleMs.isSome } : Run).append
              stream (Utf8.decode chunk) := if_neg hsize
        rw [hchunk]
        exact h.append hp hcut

/-! ### Stdin -/

/-- A failure that is not to be told again, or comes too late to be told, is only kept. -/
theorem Inv.withDelivery (h : Inv o r) {d d' : ChildStdinDelivery} (hd : r.stdinDelivery = some d)
    (hcalled : d'.state = .succeeded → d'.called = true) (hcleaned : r.exited = true → d'.cleaned = true)
    (hstate : r.exited = true → d.state = .succeeded → d'.state = .succeeded) : Inv o { r with stdinDelivery := some d' } :=
  { h with
    resolved := by
      intro result hresult
      obtain ⟨hcode, hclosed, hdelivered, htexts⟩ := h.resolved result hresult
      refine ⟨hcode, hclosed, hdelivered.imp id ?_, htexts⟩
      rintro ⟨first, hfirst, hsucceeded⟩
      rw [hd] at hfirst
      cases hfirst
      exact ⟨d', rfl, hstate (h.closing (by rw [hclosed]; rfl)) hsucceeded⟩
    payload := fun _ _ => rfl
    succeeded := by
      rintro _ ⟨⟩
      exact hcalled
    cleaned := by
      rintro _ ⟨⟩
      exact hcleaned }

theorem Inv.stdinFailed (h : Inv o r) {error : StdinError}
    (hok : r.promise = none → error = .ChildStdinWriteFailedError → r.fence.groupCleaned = false) :
    Inv o (r.stdinFailed error) := by
  cases hp : r.promise with
  | some p =>
    have hsettled := h.settled.1 (by rw [hp]; rfl)
    have hover : (r.exited || r.settled) = true := by
      rcases hsettled with hsettled | hclosed
      · simp [hsettled]
      · simp [h.closing hclosed]
    rw [show r.stdinFailed error = r from if_pos hover]
    exact h
  | none =>
    obtain ⟨hsettled, hclosed, hexited⟩ := h.running hp
    have hgoes : ¬(r.exited || r.settled) = true := by simp [hsettled, hexited]
    cases error with
    | ChildStdinIncompleteError =>
      rw [show r.stdinFailed .ChildStdinIncompleteError =
        { r with stdinFailure := r.stdinFailure.or (some .ChildStdinIncompleteError) } from if_neg hgoes]
      exact { h with
        toTold := told_of_running hp
        toDelivering := { h.toDelivering with noPipe := fun _ => by simp } }
    | ChildStdinWriteFailedError =>
      rw [show r.stdinFailed .ChildStdinWriteFailedError =
        ({ r with stdinFailure := some .ChildStdinWriteFailedError } : Run).terminate from if_neg hgoes]
      have hfailed : Inv o { r with stdinFailure := some .ChildStdinWriteFailedError } :=
        { h with
          toTold := told_of_running hp
          toDelivering := { h.toDelivering with noPipe := fun _ => rfl } }
      exact hfailed.terminate (hok hp rfl)

/-- A delivery `d'` in the place of `d` that fails. -/
theorem Inv.handleError (h : Inv o r) {d d' : ChildStdinDelivery} {code : String} (hd : r.stdinDelivery = some d)
    (hreported : d'.reported = d.reported) (hcleaned : d'.cleaned = d.cleaned)
    (hstate : r.exited = true → d.state ≠ .succeeded) (hok : failsDelivery r code = true → r.fence.groupCleaned = false) :
    Inv o (r.handleError d' code) := by
  have hfailed : Inv o { r with stdinDelivery := some { d' with state := .failed, reported := true } } := by
    refine h.withDelivery hd (by rintro ⟨⟩) ?_ fun hexited hsucceeded => absurd hsucceeded (hstate hexited)
    intro hexited
    exact hcleaned.trans (h.cleaned d hd hexited)
  unfold Run.handleError
  by_cases hfirst : d'.reported = true
  · rw [if_pos hfirst]
    exact hfailed
  · rw [if_neg hfirst]
    refine hfailed.stdinFailed fun hp herror => hok ?_
    rw [hreported] at hfirst
    simp [failsDelivery, show r.promise = none from hp, hd, hfirst, herror]

theorem Inv.stdinWritten (h : Inv o r) {error : Option String} (hok : Orderly r (.stdinWritten error)) :
    Inv o (r.stdinWritten error) := by
  unfold Run.stdinWritten
  cases hd : r.stdinDelivery with
  | none => exact h
  | some d =>
    by_cases hcalled : d.called = true
    · simp only [if_pos hcalled]
      exact h
    · have hstate : d.state ≠ .succeeded := fun hsucceeded => hcalled (h.succeeded d hd hsucceeded)
      simp only [if_neg hcalled]
      cases error with
      | some code => exact h.handleError hd rfl rfl (fun _ => hstate) hok
      | none =>
        refine h.withDelivery hd (fun _ => ?_) (fun hexited => ?_) fun _ hsucceeded => absurd hsucceeded hstate
        · split <;> rfl
        · have hcleaned := h.cleaned d hd hexited
          split <;> exact hcleaned

theorem Inv.stdinError (h : Inv o r) {code : String} (hok : Orderly r (.stdinError code)) : Inv o (r.stdinError code) := by
  unfold Run.stdinError
  cases hd : r.stdinDelivery with
  | none => exact h
  | some d =>
    by_cases hcleaned : d.cleaned = true
    · simp only [if_pos hcleaned]
      exact h
    · simp only [if_neg hcleaned]
      exact h.handleError hd rfl rfl (fun hexited => absurd (h.cleaned d hd hexited) hcleaned) hok

theorem Inv.cleanupDelivery (h : Inv o r) : Inv o r.cleanupDelivery := by
  cases hd : r.stdinDelivery with
  | none =>
    rw [show r.cleanupDelivery = r by unfold Run.cleanupDelivery; rw [hd, Option.map_none, ← hd]]
    exact h
  | some d =>
    rw [show r.cleanupDelivery = { r with stdinDelivery := some { d with cleaned := true } } by
      unfold Run.cleanupDelivery; rw [hd]; rfl]
    exact h.withDelivery hd (h.succeeded d hd) (fun _ => rfl) fun _ hsucceeded => hsucceeded

/-! ## Whole runs -/

theorem Inv.spawned (o : Options) {stdinDelivery : Option ChildStdinDelivery} {stdinFailure : Option StdinError}
    (h : Delivering o { Run.spawned o with stdinDelivery, stdinFailure }) :
    Inv o { Run.spawned o with stdinDelivery, stdinFailure } where
  toTold := told_of_running rfl
  toDelivering := h
  phase := .quiet
  left hexited := by cases hexited
  settled := by simp [Run.spawned]
  ended hexited := by cases hexited
  closing hclosed := by cases hclosed
  timers hsome := by cases hsome
  texts _ stream := by cases stream <;> rfl

theorem Inv.start (o : Options) : Inv o (Run.start o) := by
  unfold Run.start
  cases ho : o.stdin with
  | absent =>
    refine Inv.spawned o ⟨fun h => ?_, fun _ h => ?_, nofun, nofun⟩
    · cases ho.symm.trans h
    · cases ho.symm.trans h
  | noPipe =>
    have h : Inv o { Run.spawned o with stdinDelivery := none, stdinFailure := some .ChildStdinWriteFailedError } := by
      refine Inv.spawned o ⟨fun _ => rfl, fun _ h => ?_, nofun, nofun⟩
      cases ho.symm.trans h
    exact h.terminate rfl
  | payload thrown =>
    have h : Inv o { Run.spawned o with stdinDelivery := some ⟨.pending, false, false, false⟩, stdinFailure := none } := by
      refine Inv.spawned o ⟨fun h => ?_, fun _ _ => rfl, ?_, fun _ _ hexited => by cases hexited⟩
      · cases ho.symm.trans h
      · rintro _ ⟨⟩ ⟨⟩
    cases thrown with
    | none => exact h
    | some code => exact h.handleError rfl rfl rfl (fun hexited => by cases hexited) fun _ => rfl

theorem Inv.step (h : Inv o r) {e : Event} (hok : Orderly r e) : Inv o (step o r e).1 := by
  cases e with
  | data stream chunk => exact h.data hok
  | timeout => exact h.timeout hok
  | idleTimeout => exact h.idleTimeout hok
  | escalation => exact h.escalation
  | stdinWritten error => exact h.stdinWritten hok
  | stdinError code => exact h.stdinError hok
  | stdinClose => exact h.cleanupDelivery
  | close code => exact h.close hok
  | error message => exact h.error hok

end Run

/-! ### What has been settled stays -/

namespace Run

variable {r : Run} {p : Outcome}

theorem settle_promise (hp : r.promise = some p) (q : Outcome) : (r.settle q).promise = some p := by
  rw [settle, hp]
  rfl

theorem finalizeReject_promise (hp : r.promise = some p) (error : RunError) : (r.finalizeReject error).promise = some p := by
  unfold finalizeReject
  split
  · exact hp
  · exact settle_promise (r := { r with settled := true, timeoutId := false, idleTimerId := false }) hp _

theorem data_promise (hp : r.promise = some p) (o : Options) (stream : Stream) (chunk : List UInt8) :
    (r.data o stream chunk).promise = some p := by
  unfold data
  split
  · exact hp
  · dsimp only
    split
    · exact hp
    · unfold handleOutputChunk
      dsimp only
      split
      · exact finalizeReject_promise (by exact hp) _
      · cases stream <;> exact hp

theorem stdinFailed_promise (hp : r.promise = some p) (error : StdinError) : (r.stdinFailed error).promise = some p := by
  unfold stdinFailed
  split
  · exact hp
  · cases error <;> exact hp

theorem handleError_promise (hp : r.promise = some p) (d : ChildStdinDelivery) (code : String) :
    (r.handleError d code).promise = some p := by
  unfold handleError
  dsimp only
  split
  · exact hp
  · exact stdinFailed_promise (by exact hp) _

theorem conclude_promise (hp : r.promise = some p) (o : Options) (code : Option ℤ) (incomplete : Bool) :
    (r.conclude o code incomplete).promise = some p := by
  have hp' : ({ r with timeoutId := false } : Run).promise = some p := hp
  unfold conclude
  dsimp only
  split
  · exact settle_promise hp' _
  split
  · exact settle_promise hp' _
  split
  · exact settle_promise hp' _
  split
  · exact finalizeReject_promise hp' _
  split
  · exact finalizeReject_promise hp' _
  · exact settle_promise hp' _

end Run

theorem step_promise (o : Options) (r : Run) (e : Event) (p : Outcome) (hp : r.promise = some p) :
    (step o r e).1.promise = some p := by
  cases e with
  | data stream chunk => exact Run.data_promise hp o stream chunk
  | timeout => show (r.timeout).promise = _; unfold Run.timeout; split <;> exact hp
  | idleTimeout => show (r.idleTimeout).promise = _; unfold Run.idleTimeout; split <;> exact hp
  | escalation => show (r.escalation).promise = _; unfold Run.escalation; split <;> exact hp
  | stdinWritten error =>
    show (r.stdinWritten error).promise = _
    unfold Run.stdinWritten
    split
    · split
      · exact hp
      · cases error with
        | none => exact hp
        | some code => exact Run.handleError_promise hp _ code
    · exact hp
  | stdinError code =>
    show (r.stdinError code).promise = _
    unfold Run.stdinError
    split
    · split
      · exact hp
      · exact Run.handleError_promise hp _ code
    · exact hp
  | stdinClose => exact hp
  | close code =>
    show (r.close o code).promise = _
    unfold Run.close
    split
    · exact hp
    · dsimp only
      split
      · exact hp
      · exact Run.conclude_promise (by exact hp) o code _
  | error message =>
    show (r.error message).promise = _
    unfold Run.error
    dsimp only
    split
    · exact hp
    · exact Run.settle_promise (by exact hp) _

/-- **A run settles once and truthfully, and its process group is fenced**, as long as its events are orderly: every state is
sound, and no event changes an outcome. -/
theorem sound_of_orderly (o : Options) (es : List Event) (h : Along (step o) Orderly (Run.start o) es) :
    Throughout (step o) (Run.Sound o) (Run.start o) es ∧
      Along (step o) (fun r e => ∀ p, r.promise = some p → (step o r e).1.promise = some p) (Run.start o) es := by
  have hinv := throughout_of_along (P := Run.Inv o) (fun _ _ hok hr => hr.step hok) (Run.Inv.start o) h
  exact ⟨hinv.mono fun _ hr => hr.sound, hinv.along fun r e _ => step_promise o r e⟩

/-- `echo €` with a limit of time. -/
def echo : Options := ⟨text "echo", true, some 1000, none, .absent⟩

/-- Its output in one chunk. -/
theorem sound_of_orderly_echo :
    Throughout (step echo) (Run.Sound echo) (Run.start echo) [.data .stdout [0xE2, 0x82, 0xAC], .close (some 0)] ∧
      Along (step echo) (fun r e => ∀ p, r.promise = some p → (step echo r e).1.promise = some p) (Run.start echo)
        [.data .stdout [0xE2, 0x82, 0xAC], .close (some 0)] :=
  sound_of_orderly echo _ (by decide +kernel)

/-- Two chunks that cut the character: the run is resolved with replacement characters. -/
theorem not_sound_of_cut :
    ¬Throughout (step echo) (Run.Sound echo) (Run.start echo)
      [.data .stdout [0xE2], .data .stdout [0x82, 0xAC], .close (some 0)] := by
  intro h
  have hsound := h.2.2.2
  obtain ⟨-, -, -, hstdout, -⟩ := hsound.resolved ⟨[0xFFFD, 0xFFFD, 0xFFFD], [], 0⟩ (by decide +kernel)
  revert hstdout
  decide +kernel

end LlmGateway.Executor
