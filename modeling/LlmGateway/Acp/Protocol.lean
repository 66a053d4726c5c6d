import LlmGateway.Acp.Transport

/-!
# The protocol of the ACP transport

* `Calls` — where every issued request is: in a call that has not made its promise yet, pending, or settled, and only one of
  them; a transport that has ended keeps a request only while the call that issued it is in progress;
* `Sound` — what the transport promises in every state;
* `transport_sound` — it keeps the promise in every run, whatever the hooks call.
-/

namespace LlmGateway.Acp

open LlmGateway.Lib

/-- The request whose promise the call has not made yet. -/
def Frame.starts : Frame → Option ℕ
  | .requestActivity id _ => some id
  | _ => none

namespace Transport

/-- The requests whose call is in `onActivity`, before the promise is made. -/
def starting (t : Transport) : List ℕ := t.stack.filterMap Frame.starts

/-- The call that issued the request has not returned. -/
def InProgress (t : Transport) (id : ℕ) : Prop := .requestWrite id ∈ t.stack ∨ .requestTerminal id ∈ t.stack

def settledIds (t : Transport) : List ℕ := t.settled.map Prod.fst

/-- Where the requests are. -/
structure Calls (t : Transport) : Prop where
  fresh : ∀ id ∈ t.issued, id < t.nextId
  once : t.issued.Nodup
  places : (t.opened ++ t.starting).Perm t.issued
  pending : ∀ id, (t.pending.get id).isSome = true ↔ id ∈ t.opened ∧ id ∉ t.settledIds
  settled : t.settledIds.Nodup
  opened : ∀ id ∈ t.settledIds, id ∈ t.opened
  ended : t.ended = true → ∀ id, (t.pending.get id).isSome = true → t.InProgress id
  closed : t.exitError = true → t.closed = true
  alive : t.ended = false → t.life = []
  life : .terminal ∉ t.life.tail

section Calls

variable {t : Transport}

theorem Calls.settle (h : t.Calls) {id : ℕ} (hid : (t.pending.get id).isSome = true) (s : Settlement) :
    (t.settle id s).Calls := by
  have hids : (t.settle id s).settledIds = t.settledIds ++ [id] := by simp [settledIds, Transport.settle]
  obtain ⟨hopened, hfresh⟩ := (h.pending id).1 hid
  refine { h with pending := fun j => ?_, settled := ?_, opened := fun j hj => ?_, ended := fun he j hj => ?_ }
  · rw [hids, List.mem_append, List.mem_singleton, not_or]
    change ((t.pending.delete id).get j).isSome = true ↔ j ∈ t.opened ∧ _
    rw [JsMap.get_delete]
    by_cases hj : id = j
    · simp [hj]
    · rw [if_neg hj, h.pending j]
      constructor
      · rintro ⟨ho, hs⟩
        exact ⟨ho, hs, Ne.symm hj⟩
      · rintro ⟨ho, hs, -⟩
        exact ⟨ho, hs⟩
  · rw [hids]
    exact List.nodup_append.2 ⟨h.settled, List.nodup_singleton id, fun a ha b hb => by
      rw [List.mem_singleton.1 hb]
      rintro rfl
      exact hfresh ha⟩
  · rw [hids] at hj
    rcases List.mem_append.1 hj with hj | hj
    · exact h.opened j hj
    · rw [List.mem_singleton.1 hj]
      exact hopened
  · have hdelete : ((t.pending.delete id).get j).isSome = true := hj
    rw [JsMap.get_delete] at hdelete
    split at hdelete
    · cases hdelete
    · exact h.ended he j hdelete

theorem Calls.failPending (h : t.Calls) : t.failPending.Calls := by
  have hids : t.failPending.settledIds = t.settledIds ++ t.pending.rows.map Prod.fst := by
    simp [settledIds, Transport.failPending, Function.comp_def]
  have hmem : ∀ id, id ∈ t.pending.rows.map Prod.fst ↔ (t.pending.get id).isSome = true := by
    intro id
    rw [Option.isSome_iff_exists, List.mem_map]
    constructor
    · rintro ⟨e, he, rfl⟩
      exact ⟨e.2, JsMap.get_of_mem he⟩
    · rintro ⟨v, hv⟩
      exact ⟨(id, v), JsMap.get_eq_some_iff.1 hv, rfl⟩
  refine { h with pending := fun id => ?_, settled := ?_, opened := fun id hid => ?_, ended := fun _ id hid => ?_ }
  · rw [hids, List.mem_append, hmem]
    constructor
    · intro hid
      cases hid
    · rintro ⟨ho, hs⟩
      obtain ⟨hs, hp⟩ := not_or.1 hs
      exact absurd ((h.pending id).2 ⟨ho, hs⟩) hp
  · rw [hids]
    refine List.nodup_append.2 ⟨h.settled, t.pending.nodup, fun a ha b hb => ?_⟩
    rintro rfl
    exact ((h.pending a).1 ((hmem a).1 hb)).2 ha
  · rw [hids] at hid
    rcases List.mem_append.1 hid with hid | hid
    · exact h.opened id hid
    · exact ((h.pending id).1 ((hmem id).1 hid)).1
  · cases hid

/-- A state that differs in nothing that the calls are about. -/
theorem Calls.congr {t' : Transport} (h : t.Calls) (hpending : t'.pending = t.pending) (hnext : t'.nextId = t.nextId)
    (hissued : t'.issued = t.issued) (hopened : t'.opened = t.opened) (hsettled : t'.settled = t.settled)
    (hclosed : t'.closed = t.closed) (hexit : t'.exitError = t.exitError) (hlife : t'.life = t.life)
    (hstack : t'.stack = t.stack) : t'.Calls := by
  cases t
  cases t'
  cases hpending
  cases hnext
  cases hissued
  cases hopened
  cases hsettled
  cases hclosed
  cases hexit
  cases hlife
  cases hstack
  exact ⟨h.fresh, h.once, h.places, h.pending, h.settled, h.opened, h.ended, h.closed, h.alive, h.life⟩

theorem Calls.terminate (h : t.Calls) (ht : t.ended = false) : t.terminate.Calls := by
  have hlife : t.failPending.life = [] := h.alive ht
  refine { h.failPending with ended := fun _ id hid => ?_, closed := fun _ => rfl, alive := fun he => ?_, life := ?_ }
  · cases hid
  · cases he
  · change Life.terminal ∉ (t.life ++ [Life.terminal]).tail
    rw [show t.life = [] from hlife]
    exact List.not_mem_nil

/-- Frames may come and go, as long as the calls that have made no promise stay and those with a pending request do once the
transport has ended. -/
theorem Calls.stack {stack : List Frame} (h : t.Calls) (hstart : ({ t with stack } : Transport).starting = t.starting)
    (hended : t.ended = true → ∀ id, (t.pending.get id).isSome = true → ({ t with stack } : Transport).InProgress id) :
    ({ t with stack } : Transport).Calls := by
  refine { h with places := ?_, ended := hended }
  rw [hstart]
  exact h.places

theorem Calls.push (h : t.Calls) {f : Frame} (hf : ∀ id request, f ≠ .requestActivity id request) : (t.push f).Calls := by
  refine h.stack ?_ fun he id hid => ?_
  · unfold starting
    rw [List.filterMap_cons]
    split
    · rfl
    · next id hid =>
      cases f with
      | requestActivity id' request => exact absurd rfl (hf id' request)
      | requestWrite => cases hid
      | requestTerminal => cases hid
      | write => cases hid
      | terminal => cases hid
  · rcases h.ended he id hid with hid | hid
    · exact .inl (List.mem_cons_of_mem f hid)
    · exact .inr (List.mem_cons_of_mem f hid)

/-- The frame of a call without a request is taken off. -/
theorem Calls.pop {f : Frame} {stack : List Frame} (h : t.Calls) (hstack : t.stack = f :: stack)
    (hf : f = .write ∨ f = .terminal) : ({ t with stack } : Transport).Calls := by
  refine h.stack ?_ fun he id hid => ?_
  · unfold starting
    rw [hstack]
    rcases hf with rfl | rfl <;> rfl
  · have hin := h.ended he id hid
    unfold InProgress at hin ⊢
    rw [hstack] at hin
    rcases hf with rfl | rfl
    · simpa using hin
    · simpa using hin

/-- The end of `request`: behind it the request is not pending if the transport has ended. -/
theorem Calls.requestTail {id : ℕ} {f : Frame} {stack : List Frame} (h : t.Calls) (hstack : t.stack = f :: stack)
    (hf : f = .requestWrite id ∨ f = .requestTerminal id) : (({ t with stack } : Transport).requestTail id).Calls := by
  have hstart : ({ t with stack } : Transport).starting = t.starting := by
    unfold starting
    rw [hstack]
    rcases hf with rfl | rfl <;> rfl
  have hprogress : ∀ j, t.InProgress j → j ≠ id → ({ t with stack } : Transport).InProgress j := by
    intro j hj hne
    unfold InProgress at hj ⊢
    rw [hstack] at hj
    rcases hf with rfl | rfl
    · simpa [hne] using hj
    · simpa [hne] using hj
  unfold Transport.requestTail
  split
  · next hpending =>
    obtain ⟨he, hid⟩ := Bool.and_eq_true_iff.1 hpending
    refine (h.settle hid (.rejected .exit)).stack hstart fun _ j hj => ?_
    have hdelete : ((t.pending.delete id).get j).isSome = true := hj
    rw [JsMap.get_delete] at hdelete
    split at hdelete
    · cases hdelete
    · next hne => exact hprogress j (h.ended he j hdelete) (Ne.symm hne)
  · next hnot =>
    refine h.stack hstart fun he j hj => hprogress j (h.ended he j hj) ?_
    rintro rfl
    exact hnot (Bool.and_eq_true_iff.2 ⟨he, hj⟩)

/-- The promise is made, and the request is written. -/
theorem Calls.requestWrite {id : ℕ} {request : PendingRequest} {stack : List Frame} (h : t.Calls)
    (hstack : t.stack = .requestActivity id request :: stack) :
    ({ t with
        stack := .requestWrite id :: stack
        opened := t.opened ++ [id]
        pending := t.pending.set id request
        written := t.written ++ [id] } : Transport).Calls := by
  have hstart : t.starting = id :: stack.filterMap Frame.starts := by
    unfold starting
    rw [hstack]
    rfl
  have hnodup := h.places.nodup_iff.2 h.once
  rw [hstart] at hnodup
  have hfresh : id ∉ t.opened := by
    intro hmem
    exact (List.nodup_append.1 hnodup).2.2 id hmem id List.mem_cons_self rfl
  have hnew : id ∉ t.settledIds := fun hmem => hfresh (h.opened id hmem)
  refine { h with places := ?_, pending := fun j => ?_, opened := fun j hj => ?_, ended := fun he j hj => ?_ }
  · have hplaces := h.places
    rw [hstart] at hplaces
    change ((t.opened ++ [id]) ++ stack.filterMap Frame.starts).Perm t.issued
    rw [List.append_assoc, List.singleton_append]
    exact hplaces
  · change ((t.pending.set id request).get j).isSome = true ↔ j ∈ t.opened ++ [id] ∧ j ∉ t.settledIds
    rw [JsMap.get_set, List.mem_append, List.mem_singleton]
    by_cases hj : id = j
    · subst hj
      simp [hnew]
    · rw [if_neg hj, h.pending j]
      constructor
      · rintro ⟨ho, hs⟩
        exact ⟨.inl ho, hs⟩
      · rintro ⟨ho | ho, hs⟩
        · exact ⟨ho, hs⟩
        · exact absurd ho.symm hj
  · exact List.mem_append_left _ (h.opened j hj)
  · have hget : ((t.pending.set id request).get j).isSome = true := hj
    rw [JsMap.get_set] at hget
    by_cases hid : id = j
    · subst hid
      exact .inl List.mem_cons_self
    · rw [if_neg hid] at hget
      have hin := h.ended he j hget
      unfold InProgress at hin ⊢
      rw [hstack] at hin
      simpa [Ne.symm hid] using hin

/-- A request is issued. -/
theorem Calls.request (h : t.Calls) (ht : t.ended = false) (readNumber : String → Option ℕ) (method : String) (timed : Bool) :
    (Acp.request readNumber t method timed).1.Calls := by
  have hrequest : Acp.request readNumber t method timed =
      ({ t.push (.requestActivity t.nextId ⟨method, timed⟩) with
        nextId := t.nextId + 1
        issued := t.issued ++ [t.nextId]
        issuedAt := t.issuedAt ++ [(t.nextId, (messagesOf readNumber t.received).length)] }, false) := by
    simp [Acp.request, ht]
  rw [hrequest]
  refine { h with fresh := fun id hid => ?_, once := ?_, places := ?_, ended := fun he => ?_ }
  · rcases List.mem_append.1 hid with hid | hid
    · exact (h.fresh id hid).trans (Nat.lt_succ_self _)
    · rw [List.mem_singleton.1 hid]
      exact Nat.lt_succ_self _
  · refine List.nodup_append.2 ⟨h.once, List.nodup_singleton _, fun a ha b hb => ?_⟩
    have hlt := h.fresh a ha
    rw [List.mem_singleton.1 hb]
    exact hlt.ne
  · change (t.opened ++ t.nextId :: t.starting).Perm (t.issued ++ [t.nextId])
    exact List.perm_middle.trans ((h.places.cons t.nextId).trans (List.perm_append_singleton t.nextId t.issued).symm)
  · have he' : t.ended = true := he
    rw [ht] at he'
    cases he'

end Calls

/-! ## What was read -/

/-- The message that the loop has taken from the buffer and not dispatched. -/
def inHand (t : Transport) : List Message :=
  match t.reading with
  | .announcing m => [m]
  | _ => []

variable (readNumber : String → Option ℕ)

/-- The messages in the buffer, in front of what comes. -/
def unread (t : Transport) (more : List Char) : List Message := messagesOf readNumber (t.stdoutBuffer ++ more)

/-- The `k`-th message is a response to the request without an error. -/
def AnsweredBy (t : Transport) (id k : ℕ) : Prop :=
  ∃ method error result,
    t.dispatched[k]? = some (.response (.number (some id)) method error result) ∧ hasError error = false

/-- What was dispatched, what is in hand and what is in the buffer are the messages of the text. -/
structure Reads (t : Transport) : Prop where
  text : ∀ more, messagesOf readNumber (t.received ++ more) = t.dispatched ++ t.inHand ++ t.unread readNumber more
  line : t.reading = .idle → '\n' ∉ t.stdoutBuffer
  answered : ∀ id k, (id, .resolved k) ∈ t.settled → t.AnsweredBy id k

section Reads

variable {readNumber} {t : Transport}

/-- A state that differs in nothing that the reading is about, with no new resolved request. -/
theorem Reads.congr {t' : Transport} (h : t.Reads readNumber) (hreceived : t'.received = t.received)
    (hdispatched : t'.dispatched = t.dispatched) (hreading : t'.reading = t.reading)
    (hbuffer : t'.stdoutBuffer = t.stdoutBuffer)
    (hsettled : ∀ id k, (id, .resolved k) ∈ t'.settled → (id, .resolved k) ∈ t.settled) : t'.Reads readNumber where
  text := by
    intro more
    unfold inHand unread
    rw [hreceived, hdispatched, hreading, hbuffer]
    exact h.text more
  line := by
    rw [hreading, hbuffer]
    exact h.line
  answered := by
    intro id k hid
    unfold AnsweredBy
    rw [hdispatched]
    exact h.answered id k (hsettled id k hid)

theorem resolved_mem_settle {id n k : ℕ} {why : Rejection} (h : (id, .resolved k) ∈ (t.settle n (.rejected why)).settled) :
    (id, .resolved k) ∈ t.settled := by
  rcases List.mem_append.1 h with h | h
  · exact h
  · cases List.mem_singleton.1 h

theorem resolved_mem_failPending {id k : ℕ} (h : (id, .resolved k) ∈ t.failPending.settled) :
    (id, .resolved k) ∈ t.settled := by
  rcases List.mem_append.1 h with h | h
  · exact h
  · obtain ⟨e, -, he⟩ := List.mem_map.1 h
    cases he

/-- The loop goes on, in front of the messages in the buffer. -/
theorem reads_readOn (htext : ∀ more, messagesOf readNumber (t.received ++ more) = t.dispatched ++ t.unread readNumber more)
    (hanswered : ∀ id k, (id, .resolved k) ∈ t.settled → t.AnsweredBy id k) : (readOn readNumber t).Reads readNumber := by
  unfold readOn
  split
  · next m rest hnext =>
    refine ⟨fun more => ?_, (fun hr => by cases hr), hanswered⟩
    change messagesOf readNumber (t.received ++ more) = t.dispatched ++ [m] ++ messagesOf readNumber (rest ++ more)
    rw [htext, List.append_assoc, List.singleton_append]
    unfold unread messagesOf
    rw [Lines.nextMessage_some hnext]
  · next rest hnext =>
    have hline := Lines.not_mem_nextMessage hnext List.not_mem_nil
    refine ⟨fun more => ?_, fun _ => hline, hanswered⟩
    change messagesOf readNumber (t.received ++ more) = t.dispatched ++ [] ++ messagesOf readNumber (rest ++ more)
    rw [htext, List.append_nil]
    unfold unread messagesOf
    rw [Lines.nextMessage_none hnext, Lines.messages_append hline, List.nil_append]

theorem reads_data (h : t.Reads readNumber) (hr : t.reading = .idle) (chunk : List Char) :
    (readOn readNumber { t with stdoutBuffer := t.stdoutBuffer ++ chunk, received := t.received ++ chunk }).Reads
      readNumber := by
  refine reads_readOn (fun more => ?_) h.answered
  change messagesOf readNumber (t.received ++ chunk ++ more) =
    t.dispatched ++ messagesOf readNumber (t.stdoutBuffer ++ chunk ++ more)
  have htext := h.text (chunk ++ more)
  unfold inHand unread at htext
  rw [hr, List.append_nil] at htext
  rw [List.append_assoc, List.append_assoc]
  exact htext

theorem AnsweredBy.dispatch {id k : ℕ} (h : t.AnsweredBy id k) (m : Message) :
    ({ t with dispatched := t.dispatched ++ [m] } : Transport).AnsweredBy id k := by
  obtain ⟨method, error, result, hget, herror⟩ := h
  refine ⟨method, error, result, ?_, herror⟩
  have hlt := (List.getElem?_eq_some_iff.1 hget).1
  change (t.dispatched ++ [m])[k]? = _
  rw [List.getElem?_append_left hlt]
  exact hget

/-- A response resolves the request that it names, if that is pending, and no other. -/
theorem resolved_mem_resolveResponse {id k : ℕ} {rid : JsonRpcId} {error : Option Json}
    (h : (id, .resolved k) ∈ (t.resolveResponse rid error).settled) :
    (id, .resolved k) ∈ t.settled ∨ (t.pending.get id).isSome = true ∧ k = t.dispatched.length ∧
      rid = .number (some id) ∧ hasError error = false := by
  unfold resolveResponse at h
  split at h
  · next n =>
    split at h
    · next hpending =>
      rcases List.mem_append.1 h with h | h
      · exact .inl h
      · have heq := List.mem_singleton.1 h
        split at heq
        · cases heq
        · next herror =>
          cases heq
          exact .inr ⟨hpending, rfl, rfl, by simpa using herror⟩
    · exact .inl h
  · exact .inl h

theorem resolveResponse_same (rid : JsonRpcId) (error : Option Json) :
    (t.resolveResponse rid error).received = t.received ∧ (t.resolveResponse rid error).dispatched = t.dispatched ∧
      (t.resolveResponse rid error).stdoutBuffer = t.stdoutBuffer := by
  unfold resolveResponse
  split
  · split
    · exact ⟨rfl, rfl, rfl⟩
    · exact ⟨rfl, rfl, rfl⟩
  · exact ⟨rfl, rfl, rfl⟩

theorem reads_dispatch (h : t.Reads readNumber) {m : Message} (hr : t.reading = .announcing m) :
    (dispatch readNumber t m).Reads readNumber := by
  have htext : ∀ more, messagesOf readNumber (t.received ++ more) = t.dispatched ++ [m] ++ t.unread readNumber more := by
    intro more
    have htext := h.text more
    unfold inHand at htext
    rwa [hr] at htext
  cases m with
  | request id method params | notification method params =>
    refine ⟨fun more => ?_, (fun hr => by cases hr), fun id k hid => (h.answered id k hid).dispatch _⟩
    rw [show inHand _ = [] from rfl, List.append_nil]
    exact htext more
  | response rid method error result =>
    obtain ⟨hreceived, hdispatched, hbuffer⟩ := @resolveResponse_same t rid error
    refine reads_readOn (fun more => ?_) fun id k hid => ?_
    · change messagesOf readNumber ((t.resolveResponse rid error).received ++ more) =
        t.dispatched ++ [_] ++ messagesOf readNumber ((t.resolveResponse rid error).stdoutBuffer ++ more)
      rw [hreceived, hbuffer]
      exact htext more
    · rcases resolved_mem_resolveResponse hid with hid | ⟨-, rfl, rfl, herror⟩
      · exact (h.answered id k hid).dispatch _
      · refine ⟨method, error, result, ?_, herror⟩
        change (t.dispatched ++ [_])[t.dispatched.length]? = _
        rw [List.getElem?_concat_length]

end Reads

/-! ## Steps -/

/-- The invariant of the runs. -/
structure Inv (t : Transport) : Prop extends t.Calls, t.Reads readNumber

variable {readNumber} {t : Transport}

theorem Calls.exit (h : t.Calls) :
    ({ t.failPending with exitError := true, closed := true, life := t.life ++ [.exited] } : Transport).Calls := by
  refine { h.failPending with ended := fun _ id hid => ?_, closed := fun _ => rfl, alive := fun he => ?_, life := ?_ }
  · cases hid
  · cases he
  · change Life.terminal ∉ (t.life ++ [Life.exited]).tail
    cases hl : t.life with
    | nil => exact List.not_mem_nil
    | cons l ls =>
      have hlife := h.life
      rw [hl] at hlife
      simpa using hlife

theorem Calls.dispose (h : t.Calls) (hclosed : t.closed = false) :
    ({ t.failPending with closed := true, life := t.life ++ [.disposed] } : Transport).Calls := by
  refine { h.failPending with ended := fun _ id hid => ?_, closed := fun _ => rfl, alive := fun he => ?_, life := ?_ }
  · cases hid
  · have hended : (t.exitError || true) = false := he
    rw [Bool.or_true] at hended
    cases hended
  · have hexit : t.exitError = false := by
      cases hx : t.exitError with
      | false => rfl
      | true =>
        rw [h.closed hx] at hclosed
        cases hclosed
    have halive : t.life = [] := h.alive (by simp [Transport.ended, hexit, hclosed])
    change Life.terminal ∉ (t.life ++ [Life.disposed]).tail
    rw [halive]
    exact List.not_mem_nil

theorem inv_readOn (hcalls : t.Calls) (hreads : (readOn readNumber t).Reads readNumber) : (readOn readNumber t).Inv readNumber := by
  refine ⟨?_, hreads⟩
  unfold readOn
  split
  · exact hcalls.congr rfl rfl rfl rfl rfl rfl rfl rfl rfl
  · exact hcalls.congr rfl rfl rfl rfl rfl rfl rfl rfl rfl

theorem inv_dispatch (h : t.Inv readNumber) {m : Message} (hr : t.reading = .announcing m) :
    (dispatch readNumber t m).Inv readNumber := by
  have hreads := reads_dispatch h.toReads hr
  cases m with
  | request id method params | notification method params => exact ⟨h.toCalls.congr rfl rfl rfl rfl rfl rfl rfl rfl rfl, hreads⟩
  | response rid method error result =>
    refine inv_readOn ?_ hreads
    have hcalls : (t.resolveResponse rid error).Calls := by
      unfold resolveResponse
      split
      · split
        · next hpending => exact h.toCalls.settle hpending _
        · exact h.toCalls
      · exact h.toCalls
    exact hcalls.congr rfl rfl rfl rfl rfl rfl rfl rfl rfl

/-- The transport ends through one of its channels. -/
theorem inv_terminate (h : t.Inv readNumber) (ht : t.ended = false) {f : Frame}
    (hf : ∀ id request, f ≠ .requestActivity id request) : (t.terminate.push f).Inv readNumber :=
  ⟨(h.toCalls.terminate ht).push hf, h.toReads.congr rfl rfl rfl rfl fun _ _ => resolved_mem_failPending⟩

theorem inv_terminate_stack (h : t.Inv readNumber) {stack : List Frame}
    (hstack : stack.filterMap Frame.starts = t.starting) (ht : t.ended = false) :
    ({ t.terminate with stack } : Transport).Inv readNumber :=
  ⟨(h.toCalls.terminate ht).stack hstack fun _ _ hid => (by cases hid),
    h.toReads.congr rfl rfl rfl rfl fun _ _ => resolved_mem_failPending⟩

theorem inv_requestTail (h : t.Inv readNumber) {id : ℕ} {f : Frame} {stack : List Frame} (hstack : t.stack = f :: stack)
    (hf : f = .requestWrite id ∨ f = .requestTerminal id) :
    (({ t with stack } : Transport).requestTail id).Inv readNumber := by
  refine ⟨h.toCalls.requestTail hstack hf, ?_⟩
  unfold requestTail
  split
  · exact h.toReads.congr rfl rfl rfl rfl fun _ _ => resolved_mem_settle
  · exact h.toReads.congr rfl rfl rfl rfl fun _ _ hid => hid

theorem inv_resume (h : t.Inv readNumber) (throws : Bool) : (resume readNumber t throws).Inv readNumber := by
  unfold resume
  split
  · next id request stack hstack =>
    exact ⟨h.toCalls.requestWrite hstack, h.toReads.congr rfl rfl rfl rfl fun _ _ hid => hid⟩
  · next id stack hstack =>
    split
    · next hthrows =>
      exact inv_terminate_stack h (by rw [starting, hstack]; rfl) (by simpa using (Bool.and_eq_true_iff.1 hthrows).2)
    · exact inv_requestTail h hstack (.inl rfl)
  · next id stack hstack => exact inv_requestTail h hstack (.inr rfl)
  · next stack hstack =>
    split
    · next hthrows =>
      exact inv_terminate_stack h (by rw [starting, hstack]; rfl) (by simpa using (Bool.and_eq_true_iff.1 hthrows).2)
    · exact ⟨h.toCalls.pop hstack (.inl rfl), h.toReads.congr rfl rfl rfl rfl fun _ _ hid => hid⟩
  · next stack hstack =>
    exact ⟨h.toCalls.pop hstack (.inr rfl), h.toReads.congr rfl rfl rfl rfl fun _ _ hid => hid⟩
  · split
    · exact h
    · next m hr => exact inv_dispatch h hr
    · next hr =>
      refine inv_readOn h.toCalls (reads_readOn (fun more => ?_) h.answered)
      have htext := h.text more
      unfold inHand at htext
      rwa [hr, List.append_nil] at htext

/-- **Step.** -/
theorem inv_step (h : t.Inv readNumber) (e : Event) : (step readNumber t e).1.Inv readNumber := by
  cases e with
  | request method timed =>
    change (Acp.request readNumber t method timed).1.Inv readNumber
    cases ht : t.ended with
    | true =>
      have hsame : Acp.request readNumber t method timed = (t, true) := by simp [Acp.request, ht]
      rw [hsame]
      exact h
    | false =>
      refine ⟨h.toCalls.request ht readNumber method timed, ?_⟩
      unfold Acp.request
      rw [if_neg (by simp [ht])]
      exact h.toReads.congr rfl rfl rfl rfl fun _ _ hid => hid
  | send =>
    change (if t.ended then t else t.push .write).Inv readNumber
    split
    · exact h
    · exact ⟨h.toCalls.push (fun _ _ hf => by cases hf), h.toReads.congr rfl rfl rfl rfl fun _ _ hid => hid⟩
  | data chunk =>
    unfold step
    dsimp only
    split
    · next hstack hr =>
      exact inv_readOn (h.toCalls.congr rfl rfl rfl rfl rfl rfl rfl rfl rfl) (reads_data h.toReads hr chunk)
    · exact h
  | timeout id =>
    change (if (t.pending.get id).any (·.timed) then t.settle id (.rejected .timeout) else t).Inv readNumber
    split
    · next htimed =>
      obtain ⟨p, hp, -⟩ := (Option.any_eq_true _ _).1 htimed
      refine ⟨h.toCalls.settle (Option.isSome_iff_exists.2 ⟨p, hp⟩) _, ?_⟩
      exact h.toReads.congr rfl rfl rfl rfl fun _ _ => resolved_mem_settle
    · exact h
  | stdinError | streamClose =>
    change (if t.ended then t else t.terminate.push .terminal).Inv readNumber
    split
    · exact h
    · next ht => exact inv_terminate h (by simpa using ht) fun _ _ hf => by cases hf
  | handleProcessExit =>
    unfold step
    dsimp only
    split
    · exact h
    · refine ⟨h.toCalls.exit, ?_⟩
      exact h.toReads.congr rfl rfl rfl rfl fun _ _ => resolved_mem_failPending
  | dispose =>
    unfold step
    dsimp only
    split
    · exact h
    · next hclosed =>
      refine ⟨h.toCalls.dispose (by simpa using hclosed), ?_⟩
      exact h.toReads.congr rfl rfl rfl rfl fun _ _ => resolved_mem_failPending
  | resume throws => exact inv_resume h throws

theorem inv_init : init.Inv readNumber where
  fresh := fun _ hid => by cases hid
  once := List.nodup_nil
  places := List.Perm.refl []
  pending := fun id => by simp [init, settledIds]
  settled := List.nodup_nil
  opened := fun _ hid => by cases hid
  ended := fun he => by cases he
  closed := fun he => by cases he
  alive := fun _ => rfl
  life := List.not_mem_nil
  text := fun _ => rfl
  line := fun _ => List.not_mem_nil
  answered := fun _ _ hid => by cases hid

theorem settled_readOn : (readOn readNumber t).settled = t.settled := by
  unfold readOn
  split <;> rfl

theorem resolved_mem_requestTail {id n k : ℕ} (h : (id, .resolved k) ∈ (t.requestTail n).settled) :
    (id, .resolved k) ∈ t.settled := by
  unfold requestTail at h
  split at h
  · exact resolved_mem_settle h
  · exact h

/-- The loop is about to look up a response to the request, as the `k`-th message, and the request is pending. -/
def Answering (t : Transport) (id k : ℕ) : Prop :=
  t.stack = [] ∧ (t.pending.get id).isSome = true ∧ k = t.dispatched.length ∧
    ∃ method error result, t.reading = .announcing (.response (.number (some id)) method error result) ∧
      hasError error = false

/-- A request is resolved only in the look-up of a response to it. -/
theorem resolved_mem_step {e : Event} {id k : ℕ} (h : (id, .resolved k) ∈ (step readNumber t e).1.settled) :
    (id, .resolved k) ∈ t.settled ∨ t.Answering id k := by
  cases e with
  | request method timed =>
    change (id, _) ∈ (Acp.request readNumber t method timed).1.settled at h
    unfold Acp.request at h
    split at h
    · exact .inl h
    · exact .inl h
  | send =>
    change (id, _) ∈ (if t.ended then t else t.push .write).settled at h
    split at h
    · exact .inl h
    · exact .inl h
  | data chunk =>
    unfold step at h
    dsimp only at h
    split at h
    · rw [settled_readOn] at h
      exact .inl h
    · exact .inl h
  | timeout n =>
    change (id, _) ∈ (if (t.pending.get n).any (·.timed) then t.settle n (.rejected .timeout) else t).settled at h
    split at h
    · exact .inl (resolved_mem_settle h)
    · exact .inl h
  | stdinError | streamClose =>
    change (id, _) ∈ (if t.ended then t else t.terminate.push .terminal).settled at h
    split at h
    · exact .inl h
    · exact .inl (resolved_mem_failPending h)
  | handleProcessExit | dispose =>
    unfold step at h
    dsimp only at h
    split at h
    · exact .inl h
    · exact .inl (resolved_mem_failPending h)
  | resume throws =>
    change (id, _) ∈ (resume readNumber t throws).settled at h
    unfold resume at h
    split at h
    · exact .inl h
    · split at h
      · exact .inl (resolved_mem_failPending h)
      · have hmem := resolved_mem_requestTail h
        exact .inl hmem
    · have hmem := resolved_mem_requestTail h
      exact .inl hmem
    · split at h
      · exact .inl (resolved_mem_failPending h)
      · exact .inl h
    · exact .inl h
    · next hstack =>
      split at h
      · exact .inl h
      · next m hr =>
        cases m with
        | request rid method params => exact .inl h
        | notification method params => exact .inl h
        | response rid method error result =>
          unfold dispatch at h
          dsimp only at h
          rw [settled_readOn] at h
          rcases resolved_mem_resolveResponse h with h | ⟨hpending, hk, rfl, herror⟩
          · exact .inl h
          · exact .inr ⟨hstack, hpending, hk, method, error, result, hr, herror⟩
      · rw [settled_readOn] at h
        exact .inl h

variable (readNumber)

/-- **What the transport promises in every state.** -/
structure Sound (t : Transport) : Prop where
  settledOnce : t.settledIds.Nodup
  idOnce : t.issued.Nodup
  /-- a resolved request was resolved by a response with its id and without an error … -/
  answered : ∀ id k, (id, .resolved k) ∈ t.settled → t.AnsweredBy id k
  /-- … in the look-up of that response, while it was pending -/
  whilePending : ∀ e id k, (id, .resolved k) ∈ (step readNumber t e).1.settled →
    (id, .resolved k) ∈ t.settled ∨ t.Answering id k
  pendingExactly : ∀ id, (t.pending.get id).isSome = true ↔ id ∈ t.issued ∧ id ∉ t.starting ∧ id ∉ t.settledIds
  byTimeout : ∀ id p, t.pending.get id = some p → p.timed = true →
    (id, .rejected .timeout) ∈ (step readNumber t (.timeout id)).1.settled
  /-- after a terminal event only a request whose own call is in progress is pending … -/
  endedPending : t.ended = true → ∀ id, (t.pending.get id).isSome = true → t.InProgress id
  /-- … and when no call is in progress every request is settled -/
  endedSettled : t.ended = true → t.stack = [] → ∀ id ∈ t.issued, id ∈ t.settledIds
  refuses : t.ended = true → ∀ method timed, step readNumber t (.request method timed) = (t, true)
  terminalFirst : .terminal ∉ t.life.tail
  framing : t.dispatched <+: messagesOf readNumber t.received
  framed : t.stack = [] → t.reading = .idle → t.dispatched = messagesOf readNumber t.received

variable {readNumber}

theorem Inv.sound (h : t.Inv readNumber) : t.Sound readNumber where
  settledOnce := h.settled
  idOnce := h.once
  answered := h.answered
  whilePending := fun _ _ _ => resolved_mem_step
  pendingExactly := by
    intro id
    have hnodup := h.places.nodup_iff.2 h.once
    rw [h.pending id, ← h.places.mem_iff, List.mem_append]
    constructor
    · rintro ⟨ho, hs⟩
      exact ⟨.inl ho, fun hstart => (List.nodup_append.1 hnodup).2.2 id ho id hstart rfl, hs⟩
    · rintro ⟨ho | hstart, hn, hs⟩
      · exact ⟨ho, hs⟩
      · exact absurd hstart hn
  byTimeout := by
    intro id p hp htimed
    have hany : (t.pending.get id).any (·.timed) = true := by
      rw [hp]
      exact htimed
    change (id, _) ∈ (if (t.pending.get id).any (·.timed) then t.settle id (.rejected .timeout) else t).settled
    rw [if_pos hany]
    exact List.mem_append_right _ List.mem_cons_self
  endedPending := h.ended
  endedSettled := by
    intro he hstack id hid
    by_contra hs
    have hopened : id ∈ t.opened := by
      have hmem := h.places.mem_iff.2 hid
      unfold starting at hmem
      rw [hstack] at hmem
      simpa using hmem
    have hin := h.ended he id ((h.pending id).2 ⟨hopened, hs⟩)
    unfold InProgress at hin
    rw [hstack] at hin
    rcases hin with hin | hin
    · cases hin
    · cases hin
  refuses := by
    intro he method timed
    change Acp.request readNumber t method timed = (t, true)
    unfold Acp.request
    rw [if_pos he]
  terminalFirst := h.life
  framing := by
    have htext := h.text []
    rw [List.append_nil] at htext
    rw [htext, List.append_assoc]
    exact List.prefix_append _ _
  framed := by
    intro _ hr
    have htext := h.text []
    have hline := h.line hr
    unfold inHand unread at htext
    rw [hr, List.append_nil, List.append_nil, List.append_nil] at htext
    rw [htext]
    unfold messagesOf
    rw [Lines.messages_of_not_mem hline, List.append_nil]

/-- **The transport keeps its promise**, in every run: whatever stdout brings in whatever chunks, whenever timers fire, writes
fail and the channels end, and whatever the hooks call. -/
theorem transport_sound (readNumber : String → Option ℕ) (es : List Event) :
    Run.Throughout (step readNumber) (Sound readNumber) init es := by
  have hinv : Run.Throughout (step readNumber) (Inv readNumber) init es :=
    Run.throughout_of_along (P := Inv readNumber) (C := fun _ _ => True) (fun _ e _ h => inv_step h e) inv_init
      (Run.along_of_forall fun _ _ => trivial)
  exact hinv.mono fun _ h => h.sound

/-! ## Early frames -/

/-- The method of a response. -/
def methodOf : Message → Option Json
  | .response _ method _ _ => method
  | _ => none

/-- A request is resolved only by a frame without a method, of those that came after it was issued. -/
def AnsweredAfterIssue (t : Transport) : Prop :=
  ∀ id k, (id, .resolved k) ∈ t.settled →
    (∀ m, t.dispatched[k]? = some m → (methodOf m).isNone = true) ∧ ∃ n, (id, n) ∈ t.issuedAt ∧ n ≤ k

section Fixed

/-- The number of a text of one digit. -/
def digitOf (text : String) : Option ℕ :=
  match text.toList with
  | [c] => if c.isDigit then some (c.toNat - 48) else none
  | _ => none

/-- `onNotification` issues a request, and a response to it is in the same chunk. -/
def earlyRun : List Event :=
  [.data "\x7b\"method\":\"x\"\x7d\n\x7b\"id\":1,\"result\":0\x7d\n".toList, .resume false, .request "session/new" false, .resume false,
    .resume false, .resume false, .resume false]

/-- The response has a method that is no text. -/
def methodRun : List Event :=
  [.request "session/new" false, .resume false, .resume false, .data "\x7b\"id\":1,\"method\":null,\"result\":0\x7d\n".toList,
    .resume false]

/-- A request is resolved by a frame that had come before the request was issued, and by one with a method. -/
theorem not_answeredAfterIssue :
    ¬Run.Throughout (step digitOf) AnsweredAfterIssue init earlyRun ∧
      ¬Run.Throughout (step digitOf) AnsweredAfterIssue init methodRun := by
  constructor
  · intro h
    have hfinal := Run.throughout_iff.1 h earlyRun [] (List.append_nil _).symm
    have hsettled : (Run.final (step digitOf) init earlyRun).settled = [(1, .resolved 1)] := by decide +kernel
    have hissued : (Run.final (step digitOf) init earlyRun).issuedAt = [(1, 2)] := by decide +kernel
    obtain ⟨-, n, hn, hle⟩ := hfinal 1 1 (hsettled ▸ List.mem_cons_self)
    rw [hissued] at hn
    cases List.mem_singleton.1 hn
    omega
  · intro h
    have hfinal := Run.throughout_iff.1 h methodRun [] (List.append_nil _).symm
    have hsettled : (Run.final (step digitOf) init methodRun).settled = [(1, .resolved 0)] := by decide +kernel
    have hmethod : ((Run.final (step digitOf) init methodRun).dispatched[0]?.any fun m => (methodOf m).isSome) = true := by
      decide +kernel
    obtain ⟨hnone, -⟩ := hfinal 1 0 (hsettled ▸ List.mem_cons_self)
    obtain ⟨m, hm, hsome⟩ := (Option.any_eq_true _ _).1 hmethod
    have := hnone m hm
    rw [Option.isNone_iff_eq_none] at this
    rw [this] at hsome
    cases hsome

end Fixed

end Transport

end LlmGateway.Acp
