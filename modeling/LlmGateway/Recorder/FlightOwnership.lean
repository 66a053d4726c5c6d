import LlmGateway.Lib.PromiseChain
import LlmGateway.Lib.Run
import Mathlib.Data.List.Count

/-!
# Who writes a request's log, and in what order

`FlightOwnership` (flight-ownership.ts): the start and the completions of one request, written one after another.

* `step` — a call, or a turn of the chain; the output is the sink that is called;
* `Serial` — what holds after every run.
-/

namespace LlmGateway.Recorder.Ownership

open Lib Lib.Run

/-- What is written; `R` is the type of results. -/
inductive Sink (R : Type*) where
  | start
  | complete (result : R)

def Sink.isStart {R : Type*} : Sink R → Bool
  | .start => true
  | .complete _ => false

structure State (R : Type*) where
  started : Bool
  managerOwnsCompletion : Bool
  writes : Chain (Sink R)
  /-- The number of the tail that each call has returned. -/
  returned : List ℕ

inductive Event (R : Type*) where
  | start
  | completeInline (result : R)
  | transferCompletionToManager
  | settled
  | turn (t : Turn)

section

variable {R : Type*}

def init : State R := ⟨false, false, [], []⟩

namespace State

/-- `return this.tail` -/
def returnTail (s : State R) : State R := { s with returned := s.returned ++ [s.writes.length] }

def enqueue (s : State R) (sink : Sink R) : State R := { s with writes := s.writes.enqueue sink }.returnTail

def start (s : State R) : State R := if s.started then s.returnTail else { s with started := true }.enqueue .start

def completeInline (s : State R) (result : R) : State R :=
  if s.managerOwnsCompletion then s.returnTail else s.enqueue (.complete result)

end State

def step (s : State R) : Event R → State R × Option (Sink R)
  | .start => (s.start, none)
  | .completeInline result => (s.completeInline result, none)
  | .transferCompletionToManager => ({ s with managerOwnsCompletion := true }, none)
  | .settled => (s.returnTail, none)
  | .turn t => ({ s with writes := s.writes.turn t }, s.writes.called t)

/-- The writes of the calls that are accepted, in their order. -/
def accepted (started managerOwnsCompletion : Bool) : List (Event R) → List (Sink R)
  | [] => []
  | .start :: es => if started then accepted true managerOwnsCompletion es else .start :: accepted true managerOwnsCompletion es
  | .completeInline result :: es =>
    if managerOwnsCompletion then accepted started managerOwnsCompletion es
    else .complete result :: accepted started managerOwnsCompletion es
  | .transferCompletionToManager :: es => accepted started true es
  | _ :: es => accepted started managerOwnsCompletion es

/-- The sinks that a run calls, in their order. -/
def calledSinks (es : List (Event R)) : List (Sink R) := (outputs step init es).filterMap id

/-- What holds after the events `es`. -/
structure Serial (es : List (Event R)) (s : State R) : Prop where
  /-- The start is written once. -/
  one_start : (accepted false false es).countP Sink.isStart ≤ 1
  /-- The sinks are called in the order of the accepted calls. -/
  in_order : calledSinks es <+: accepted false false es
  /-- A sink is called after those before it have settled. -/
  after_previous : ∀ {j k : ℕ} {l m : Link (Sink R)}, j < k → s.writes[j]? = some l → s.writes[k]? = some m → m.begun = true →
    l.begun = true ∧ l.run ≠ .pending
  /-- When no sink is running and no reaction is due, every accepted write has been called and has settled. -/
  not_stopped : s.writes.Quiet → calledSinks es = accepted false false es ∧ ∀ l : Link (Sink R), l ∈ s.writes → l.run ≠ .pending
  /-- No promise that has been returned is rejected. -/
  not_rejected : ∀ n ∈ s.returned, s.writes.promise n ≠ .rejected

/-! ## The writes that are accepted -/

theorem map_op_enqueue (c : Chain (Sink R)) (sink : Sink R) : (c.enqueue sink).map Link.op = c.map Link.op ++ [sink] := by
  rw [Chain.enqueue, List.map_append]
  rfl

/-- **The chain holds the accepted writes.** -/
theorem map_op_final (s : State R) (es : List (Event R)) :
    (final step s es).writes.map Link.op = s.writes.map Link.op ++ accepted s.started s.managerOwnsCompletion es := by
  induction es generalizing s with
  | nil => exact (List.append_nil _).symm
  | cons e es ih =>
    rw [final_cons, ih]
    cases e with
    | start =>
      cases hstarted : s.started with
      | true => simp [step, State.start, State.returnTail, accepted, hstarted]
      | false => simp [step, State.start, State.enqueue, State.returnTail, accepted, hstarted, map_op_enqueue]
    | completeInline result =>
      cases howns : s.managerOwnsCompletion with
      | true => simp [step, State.completeInline, State.returnTail, accepted, howns]
      | false => simp [step, State.completeInline, State.enqueue, State.returnTail, accepted, howns, map_op_enqueue]
    | transferCompletionToManager => rfl
    | settled => rfl
    | turn t =>
      show (s.writes.turn t).map Link.op ++ _ = _
      rw [Chain.map_op_turn]
      rfl

theorem countP_accepted (started owns : Bool) (es : List (Event R)) :
    (accepted started owns es).countP Sink.isStart ≤ if started then 0 else 1 := by
  induction es generalizing started owns with
  | nil => exact Nat.zero_le _
  | cons e es ih =>
    cases e with
    | start =>
      cases started with
      | true => exact ih true owns
      | false =>
        have hrest := ih true owns
        simp only [accepted, Bool.false_eq_true, if_false, List.countP_cons, Sink.isStart, if_true] at hrest ⊢
        omega
    | completeInline result =>
      cases owns with
      | true => exact ih started true
      | false =>
        have hrest := ih started false
        simpa [accepted, List.countP_cons, Sink.isStart] using hrest
    | transferCompletionToManager => exact ih started true
    | settled | turn t => exact ih started owns

theorem managerOwnsCompletion_step {s : State R} (h : s.managerOwnsCompletion = true) (e : Event R) :
    (step s e).1.managerOwnsCompletion = true := by
  cases e with
  | start =>
    show s.start.managerOwnsCompletion = true
    unfold State.start
    split_ifs <;> exact h
  | completeInline result =>
    show (s.completeInline result).managerOwnsCompletion = true
    rw [State.completeInline, if_pos h]
    exact h
  | transferCompletionToManager => rfl
  | settled => exact h
  | turn t => exact h

theorem managerOwnsCompletion_final {es : List (Event R)} (h : Event.transferCompletionToManager ∈ es) (s : State R) :
    (final step s es).managerOwnsCompletion = true := by
  obtain ⟨as, bs, rfl⟩ := List.append_of_mem h
  rw [final_append, final_cons]
  have htransferred : (step (final step s as) .transferCompletionToManager).1.managerOwnsCompletion = true := rfl
  exact final_induction (P := fun t : State R => t.managerOwnsCompletion = true) (fun _ e ht => managerOwnsCompletion_step ht e)
    htransferred bs

/-- What is accepted after the transfer is no completion. -/
theorem accepted_of_owns (started : Bool) (es : List (Event R)) : (accepted started true es).filter (!Sink.isStart ·) = [] := by
  induction es generalizing started with
  | nil => rfl
  | cons e es ih =>
    cases e with
    | start =>
      cases started with
      | true | false => exact ih true
    | completeInline result | transferCompletionToManager | settled | turn t => exact ih started

/-! ## The order of the sinks -/

/-- The invariant: the chain is sound, and the sinks called are those of its first writes. -/
def Inv (s : State R) (called : List (Option (Sink R))) : Prop :=
  s.writes.Sound ∧ ∃ n, s.writes.BegunUpTo n ∧ called.filterMap id = (s.writes.map Link.op).take n

theorem inv_init : Inv (R := R) init [] := ⟨Chain.sound_nil, 0, Chain.begunUpTo_nil, rfl⟩

theorem Inv.enqueue {s : State R} {called : List (Option (Sink R))} (h : Inv s called) {s' : State R} (sink : Sink R)
    (hs' : s'.writes = s.writes.enqueue sink) : Inv s' (called ++ [none]) := by
  obtain ⟨hsound, n, hn, hcalled⟩ := h
  refine ⟨hs' ▸ hsound.enqueue sink, n, hs' ▸ hn.enqueue sink, ?_⟩
  have hlength : n ≤ (s.writes.map Link.op).length := by
    rw [List.length_map]
    exact hn.le_length
  rw [hs', map_op_enqueue, List.take_append_of_le_length hlength, List.filterMap_append, hcalled]
  exact List.append_nil _

theorem Inv.same {s : State R} {called : List (Option (Sink R))} (h : Inv s called) {s' : State R} (hs' : s'.writes = s.writes) :
    Inv s' (called ++ [none]) := by
  obtain ⟨hsound, n, hn, hcalled⟩ := h
  refine ⟨hs' ▸ hsound, n, hs' ▸ hn, ?_⟩
  rw [hs', List.filterMap_append, hcalled]
  exact List.append_nil _

theorem Inv.step {s : State R} {called : List (Option (Sink R))} (h : Inv s called) (e : Event R) :
    Inv (Ownership.step s e).1 (called ++ [(Ownership.step s e).2]) := by
  cases e with
  | start =>
    by_cases hstarted : s.started = true
    · exact h.same (by simp [Ownership.step, State.start, State.returnTail, hstarted])
    · exact h.enqueue .start (by simp [Ownership.step, State.start, State.enqueue, State.returnTail, hstarted])
  | completeInline result =>
    by_cases howns : s.managerOwnsCompletion = true
    · exact h.same (by simp [Ownership.step, State.completeInline, State.returnTail, howns])
    · exact h.enqueue (.complete result)
        (by simp [Ownership.step, State.completeInline, State.enqueue, State.returnTail, howns])
  | transferCompletionToManager | settled => exact h.same rfl
  | turn t =>
    obtain ⟨hsound, n, hn, hcalled⟩ := h
    show Inv { s with writes := s.writes.turn t } (called ++ [s.writes.called t])
    rcases hsound.called_turn hn t with ⟨hnone, hn'⟩ | ⟨l, hl, hsome, hn'⟩
    · refine ⟨hsound.turn t, n, hn', ?_⟩
      show _ = ((s.writes.turn t).map Link.op).take n
      rw [Chain.map_op_turn, List.filterMap_append, hcalled, hnone]
      exact List.append_nil _
    · refine ⟨hsound.turn t, n + 1, hn', ?_⟩
      show _ = ((s.writes.turn t).map Link.op).take (n + 1)
      have hop : (s.writes.map Link.op)[n]? = some l.op := by rw [List.getElem?_map, hl, Option.map_some]
      rw [Chain.map_op_turn, List.filterMap_append, hcalled, hsome, List.take_add_one, hop]
      rfl

theorem inv_final (es : List (Event R)) : Inv (final step init es) (outputs step init es) :=
  trace_induction inv_init (fun _ _ e h => h.step e) es

theorem serial_final (es : List (Event R)) : Serial es (final step init es) := by
  obtain ⟨hsound, n, hn, hcalled⟩ := inv_final es
  have hop : (final step init es).writes.map Link.op = accepted false false es := map_op_final init es
  rw [hop] at hcalled
  refine ⟨countP_accepted false false es, ?_, fun {j k l m} hjk hl hm hbegun => ?_, fun hquiet => ?_, fun m _ => hsound.promise m⟩
  · rw [calledSinks, hcalled]
    exact List.take_prefix n _
  · have hrun := hsound.settled hjk hl hm hbegun
    exact ⟨(hsound j l hl).begun hrun, hrun⟩
  · have hall := hsound.of_quiet hquiet
    refine ⟨?_, fun l hl => (hall l hl).2.1⟩
    have hlength : (accepted false false es).length ≤ n := by
      rw [← hop, List.length_map]
      by_contra hlt
      have hlast : (final step init es).writes[n]? = some (final step init es).writes[n] := List.getElem?_eq_getElem (by omega)
      have hbegun := (hall _ (List.mem_iff_getElem?.2 ⟨n, hlast⟩)).1
      exact absurd ((hn.begun_iff n _ hlast).1 hbegun) (Nat.lt_irrefl n)
    rw [calledSinks, hcalled, List.take_of_length_le hlength]

/-- **One request's writes are serial**, after every run of calls, reactions and sinks that resolve or reject; and once the manager
has the completion, no completion is put in the chain. -/
theorem flight_ownership_serialises (es : List (Event R)) :
    Serial es (final step init es) ∧
      ∀ more, Event.transferCompletionToManager ∈ es →
        ((final step init (es ++ more)).writes.map Link.op).filter (!Sink.isStart ·) =
          ((final step init es).writes.map Link.op).filter (!Sink.isStart ·) := by
  refine ⟨serial_final es, fun more htransfer => ?_⟩
  have howns := managerOwnsCompletion_final htransfer init
  rw [final_append, map_op_final, howns, List.filter_append, accepted_of_owns, List.append_nil]

end

end LlmGateway.Recorder.Ownership
