import LlmGateway.Acp.Client

/-!
# What the ACP client answers and asks

* `ProperAnswer`, `ProperCall` — what stands in the log before an answer, and before a request of the client;
* `Sound` — the promise of the client in a state, `Meets` — the condition on a step;
* `client_sound_iff` — the client keeps its promise in a run exactly when every step meets the condition.
-/

namespace LlmGateway.Acp

open LlmGateway.Lib

namespace Client

/-- An `initialize` response, or a session response since, told of the method. -/
def Advertised (log : List Entry) (method : String) : Prop :=
  ∃ pre response post, log = pre ++ .initializeResponse response :: post ∧
    (method ∈ deriveAcpMethodAvailability response ∨
      ∃ session, .sessionResponse session ∈ post ∧ method ∈ sessionResponseMethods session)

section Promise

variable (setup : Setup)

/-- The texts that are not of the host. -/
def ownMessages (method : String) : List String :=
  ["Method not found", malformedMessage setup method, unsupportedMessage setup method, unexpectedMessage setup method]

/-- The frame carries the handler's value, or an error that says no more of the host than the redacted text of its `AcpError`. -/
def AnswersWith (before : List Entry) (serial : ℕ) (request : AgentRequest) (frame : Json) : Prop :=
  (∃ value, .settled serial (.resolved (some value)) ∈ before ∧ frame.field "result" = some value ∧ frame.field "error" = none) ∨
    ∃ code message, frame.field "result" = none ∧ frame.field "error" = some (errorObject code message) ∧
      (message ∈ ownMessages setup request.method ∨
        ∃ text, .settled serial (.rejected (.acp text)) ∈ before ∧ message = setup.redactAcpMessage text)

/-- The first answer to its request, with the id of the request, in front of which no terminal event stands. -/
def ProperAnswer (before : List Entry) : Entry → Prop
  | .answer serial request frame =>
    .ended ∉ before ∧ (∀ request' frame', .answer serial request' frame' ∉ before) ∧ frame.field "id" = request.id.value ∧
      AnswersWith setup before serial request frame
  | _ => True

/-- A request for a method that the agent told of and, if it is a mutating one, the operator allowed. -/
def ProperCall (before : List Entry) : Entry → Prop
  | .call method _ =>
    method ∈ GATED_METHODS →
      Advertised before method ∧ (method ∈ MUTATING_METHODS → setup.allowMutatingSessionOps = true)
  | _ => True

structure Sound (c : Client) : Prop where
  answers : Justified (ProperAnswer setup) c.log
  answered : ∀ serial request, .due serial request ∈ c.log → ∃ frame, .answer serial request frame ∈ c.log
  calls : Justified (ProperCall setup) c.log

/-- The request reaches a handler. -/
def reaches (request : AgentRequest) (params : Option Json) : Bool :=
  decide (request.method ∈ HOST_METHODS) && setup.parseRequest request.method params && setup.supports request.method

/-- A frame can say it: `undefined` it cannot. -/
def Outcome.sayable : Outcome → Bool
  | .resolved none => false
  | _ => true

/-- What is answered has a finite id and no `undefined` result, and no terminal event comes between a handler that settles and the
`await` that goes on. -/
def Meets (c : Client) : Event → Prop
  | .request request params _ => c.ended = false → reaches setup request params = false → request.id.value.isSome = true
  | .resume serial _ =>
    match c.handling.get serial with
    | some (request, some (outcome, wasOpen)) =>
      (c.ended = false → request.id.value.isSome = true ∧ outcome.sayable = true) ∧ (wasOpen = true → c.ended = false)
    | _ => True
  | _ => True

end Promise

/-! ## The requests of the agent -/

/-- Where the requests of the agent are. -/
structure Answering (setup : Setup) (c : Client) : Prop where
  answers : Justified (ProperAnswer setup) c.log
  answered : ∀ serial request, .due serial request ∈ c.log → ∃ frame, .answer serial request frame ∈ c.log
  live : c.ended = false → .ended ∉ c.log
  fresh : ∀ serial request frame, .answer serial request frame ∈ c.log →
    serial < c.nextSerial ∧ c.handling.get serial = none
  serials : ∀ serial h, c.handling.get serial = some h → serial < c.nextSerial
  settled : ∀ serial request outcome wasOpen, c.handling.get serial = some (request, some (outcome, wasOpen)) →
    .settled serial outcome ∈ c.log

/-- An entry that is no answer, no obligation and no end. -/
def Entry.plain : Entry → Bool
  | .due .. | .answer .. | .ended => false
  | _ => true

section Answering

variable {setup : Setup} {c : Client}

theorem answering_init : Answering setup init where
  answers := justified_nil
  answered := by
    intro serial request h
    cases h
  live := by
    intro _ h
    cases h
  fresh := by
    intro serial request frame h
    cases h
  serials := by
    intro serial h hget
    cases hget
  settled := by
    intro serial request outcome wasOpen hget
    cases hget

theorem mem_record {e x : Entry} : x ∈ (c.record e).log ↔ x ∈ c.log ∨ x = e := by
  change x ∈ c.log ++ [e] ↔ _
  rw [List.mem_append, List.mem_singleton]

theorem properAnswer_plain {before : List Entry} {e : Entry} (he : e.plain = true) : ProperAnswer setup before e := by
  cases e with
  | answer => cases he
  | _ => trivial

/-- One entry more: a proper one, an obligation that is met already, an answer that is the only one, or an end. -/
theorem Answering.append (h : Answering setup c) (e : Entry) {ended : Bool} {pending : JsMap ℕ Op} (hproper : ProperAnswer setup c.log e)
    (hdue : ∀ serial request, e = .due serial request → ∃ frame, .answer serial request frame ∈ c.log)
    (hended : ended = false → c.ended = false ∧ e ≠ .ended)
    (hanswer : ∀ serial request frame, e = .answer serial request frame →
      serial < c.nextSerial ∧ c.handling.get serial = none) :
    Answering setup { c.record e with ended := ended, pending := pending } where
  answers := justified_concat.2 ⟨h.answers, hproper⟩
  answered := by
    intro serial request hmem
    obtain ⟨frame, hframe⟩ := (mem_record.1 hmem).elim (h.answered serial request) (fun he => hdue serial request he.symm)
    exact ⟨frame, mem_record.2 (.inl hframe)⟩
  live := by
    intro hopen hmem
    obtain ⟨hopen, hne⟩ := hended hopen
    exact (mem_record.1 hmem).elim (h.live hopen) (fun he => hne he.symm)
  fresh := by
    intro serial request frame hmem
    exact (mem_record.1 hmem).elim (h.fresh serial request frame) (fun he => hanswer serial request frame he.symm)
  serials := h.serials
  settled := by
    intro serial request outcome wasOpen hget
    exact mem_record.2 (.inl (h.settled serial request outcome wasOpen hget))

theorem Answering.record (h : Answering setup c) {e : Entry} (he : e.plain = true) : Answering setup (c.record e) := by
  apply h.append e (properAnswer_plain he)
  · rintro serial request rfl
    cases he
  · intro hopen
    refine ⟨hopen, ?_⟩
    rintro rfl
    cases he
  · rintro serial request frame rfl
    cases he

/-- A state that differs in nothing that the answers are about. -/
theorem Answering.congr {c' : Client} (h : Answering setup c) (hlog : c'.log = c.log) (hended : c'.ended = c.ended)
    (hserial : c'.nextSerial = c.nextSerial) (hhandling : c'.handling = c.handling) : Answering setup c' where
  answers := by
    rw [hlog]
    exact h.answers
  answered := by
    rw [hlog]
    exact h.answered
  live := by
    rw [hlog, hended]
    exact h.live
  fresh := by
    rw [hlog, hserial, hhandling]
    exact h.fresh
  serials := by
    rw [hserial, hhandling]
    exact h.serials
  settled := by
    rw [hlog, hhandling]
    exact h.settled

theorem Answering.terminate (h : Answering setup c) : Answering setup c.terminate := by
  unfold Client.terminate
  split
  · exact h
  · apply h.append .ended trivial
    · rintro serial request ⟨⟩
    · rintro ⟨⟩
    · rintro serial request frame ⟨⟩

theorem Answering.writeFrame {e : Entry} (hrecord : Answering setup (c.record e)) (throws : Bool) :
    Answering setup (c.writeFrame e throws) := by
  unfold Client.writeFrame
  split
  · exact hrecord.terminate
  · exact hrecord

theorem mem_log_terminate {x : Entry} (hx : x ∈ c.log) : x ∈ c.terminate.log := by
  unfold Client.terminate
  split
  · exact hx
  · exact mem_record.2 (.inl hx)

theorem mem_log_writeFrame {e x : Entry} {throws : Bool} (hx : x ∈ c.log ∨ x = e) : x ∈ (c.writeFrame e throws).log := by
  unfold Client.writeFrame
  split
  · exact mem_log_terminate (mem_record.2 hx)
  · exact mem_record.2 hx

/-- What `respond` needs of the request: nothing else answers it. -/
structure Unanswered (c : Client) (serial : ℕ) : Prop where
  lt : serial < c.nextSerial
  handling : c.handling.get serial = none
  answer : ∀ request frame, .answer serial request frame ∉ c.log

/-- **The answer to a request is written once.** -/
theorem Answering.respond (h : Answering setup c) {serial : ℕ} (hs : Unanswered c serial) {request : AgentRequest} {frame : Json}
    (hframe : c.ended = false → frame.field "id" = request.id.value ∧ AnswersWith setup c.log serial request frame)
    (throws : Bool) : Answering setup (c.respond serial request frame throws) := by
  unfold Client.respond
  split
  · exact h
  · rename_i hopen
    have hopen : c.ended = false := by simpa using hopen
    apply Answering.writeFrame
    apply h.append (.answer serial request frame) ⟨h.live hopen, hs.answer, hframe hopen⟩
    · rintro serial' request' ⟨⟩
    · intro hopen
      exact ⟨hopen, by rintro ⟨⟩⟩
    · rintro serial' request' frame' ⟨⟩
      exact ⟨hs.lt, hs.handling⟩

theorem answer_mem_respond (hopen : c.ended = false) (serial : ℕ) (request : AgentRequest) (frame : Json) (throws : Bool) :
    .answer serial request frame ∈ (c.respond serial request frame throws).log := by
  unfold Client.respond
  rw [if_neg (by simp [hopen])]
  exact mem_log_writeFrame (.inr rfl)

theorem Answering.due (h : Answering setup c) {serial : ℕ} {request : AgentRequest}
    (hanswer : ∃ frame, .answer serial request frame ∈ c.log) : Answering setup (c.record (.due serial request)) := by
  apply h.append (.due serial request) trivial
  · rintro serial' request' ⟨⟩
    exact hanswer
  · intro hopen
    exact ⟨hopen, by rintro ⟨⟩⟩
  · rintro serial' request' frame ⟨⟩

/-! ### Frames -/

theorem field_id_resultFrame (id : RequestId) (result : Option Json) : (resultFrame id result).field "id" = some id.stringify := by
  cases result with
  | none => rfl
  | some value => rfl

theorem field_result_resultFrame (id : RequestId) (result : Option Json) : (resultFrame id result).field "result" = result := by
  cases result with
  | none => rfl
  | some value => rfl

theorem field_error_resultFrame (id : RequestId) (result : Option Json) : (resultFrame id result).field "error" = none := by
  cases result with
  | none => rfl
  | some value => rfl

theorem stringify_eq_value {id : RequestId} : some id.stringify = id.value ↔ id.value.isSome = true := by
  unfold RequestId.stringify
  cases id.value with
  | none => simp
  | some value => simp

/-- An error frame, with a text that is not of the host. -/
theorem answersWith_own {before : List Entry} {serial : ℕ} {request : AgentRequest} {code message : String}
    (h : message ∈ ownMessages setup request.method) :
    AnswersWith setup before serial request (errorFrame request.id code message) :=
  .inr ⟨code, message, rfl, rfl, .inl h⟩

theorem answersWith_answerFrame {before : List Entry} {serial : ℕ} {request : AgentRequest} {outcome : Outcome}
    (hsettled : .settled serial outcome ∈ before) (h : outcome.sayable = true) :
    AnswersWith setup before serial request (answerFrame setup request outcome) := by
  cases outcome with
  | resolved value =>
    cases value with
    | none => cases h
    | some value => exact .inl ⟨value, hsettled, field_result_resultFrame _ _, field_error_resultFrame _ _⟩
  | rejected error =>
    cases error with
    | acp text => exact .inr ⟨_, _, rfl, rfl, .inr ⟨text, hsettled, rfl⟩⟩
    | other text =>
      refine answersWith_own ?_
      simp [ownMessages, userMessage]

theorem field_id_answerFrame (request : AgentRequest) (outcome : Outcome) :
    (answerFrame setup request outcome).field "id" = some request.id.stringify := by
  cases outcome with
  | resolved value => exact field_id_resultFrame request.id value
  | rejected error => rfl

/-- A frame that `undefined` makes is no answer. -/
theorem sayable_of_answersWith {before : List Entry} {serial : ℕ} {request : AgentRequest} {outcome : Outcome}
    (h : AnswersWith setup before serial request (answerFrame setup request outcome)) : outcome.sayable = true := by
  cases outcome with
  | rejected error => rfl
  | resolved value =>
    cases value with
    | some value => rfl
    | none =>
      rcases h with ⟨value, -, hresult, -⟩ | ⟨code, message, -, herror, -⟩
      · cases hresult
      · cases herror

/-! ### Steps -/

theorem Answering.handleRequest (h : Answering setup c) {request : AgentRequest} {params : Option Json} (throws : Bool)
    (hmeets : Meets setup c (.request request params throws)) :
    Answering setup (c.handleRequest setup request params throws) := by
  have hnext : Answering setup { c with nextSerial := c.nextSerial + 1 } := by
    refine { h with fresh := ?_, serials := ?_ }
    · intro serial request' frame hanswer
      obtain ⟨hlt, hnone⟩ := h.fresh serial request' frame hanswer
      exact ⟨Nat.lt_succ_of_lt hlt, hnone⟩
    · intro serial x hget
      exact Nat.lt_succ_of_lt (h.serials serial x hget)
  have hnew : c.handling.get c.nextSerial = none := by
    cases hget : c.handling.get c.nextSerial with
    | none => rfl
    | some x => exact absurd (h.serials _ x hget) (by omega)
  have hfresh : ∀ request frame, .answer c.nextSerial request frame ∉ c.log := by
    intro request' frame hanswer
    have := (h.fresh _ request' frame hanswer).1
    omega
  have hunanswered : Unanswered { c with nextSerial := c.nextSerial + 1 } c.nextSerial :=
    ⟨Nat.lt_succ_self c.nextSerial, hnew, hfresh⟩
  have hrefuse : ∀ code message, message ∈ ownMessages setup request.method → reaches setup request params = false →
      Answering setup (({ c with nextSerial := c.nextSerial + 1 } : Client).refuse c.nextSerial request code message throws) := by
    intro code message hown hreaches
    unfold Client.refuse
    split
    · exact hnext
    · rename_i hopen
      have hopen : c.ended = false := by simpa using hopen
      have hid := hmeets hopen hreaches
      refine Answering.due (hnext.respond hunanswered (fun _ => ⟨?_, answersWith_own hown⟩) throws) ?_
      · exact stringify_eq_value.2 hid
      · have hlive : ({ c with nextSerial := c.nextSerial + 1 } : Client).ended = false := hopen
        exact ⟨_, answer_mem_respond hlive _ _ _ _⟩
  unfold Client.handleRequest
  dsimp only
  split
  · rename_i hmethod
    exact hrefuse _ _ (by simp [ownMessages]) (by simp [reaches, hmethod])
  · split
    · rename_i hparse
      have hparse : setup.parseRequest request.method params = false := by simpa using hparse
      exact hrefuse _ _ (by simp [ownMessages]) (by simp [reaches, hparse])
    · split
      · rename_i hsupports
        have hsupports : setup.supports request.method = false := by simpa using hsupports
        exact hrefuse _ _ (by simp [ownMessages]) (by simp [reaches, hsupports])
      · refine { hnext with fresh := ?_, serials := ?_, settled := ?_ }
        · intro serial request' frame hanswer
          obtain ⟨hlt, hnone⟩ := h.fresh serial request' frame hanswer
          refine ⟨Nat.lt_succ_of_lt hlt, ?_⟩
          change (c.handling.set c.nextSerial (request, none)).get serial = none
          rw [JsMap.get_set, if_neg (by omega), hnone]
        · intro serial x hget
          change (c.handling.set c.nextSerial (request, none)).get serial = some x at hget
          change serial < c.nextSerial + 1
          rw [JsMap.get_set] at hget
          split at hget
          · omega
          · have := h.serials serial x hget
            omega
        · intro serial request' outcome wasOpen hget
          change (c.handling.set c.nextSerial (request, none)).get serial = _ at hget
          rw [JsMap.get_set] at hget
          split at hget
          · cases hget
          · exact h.settled serial request' outcome wasOpen hget

theorem Answering.settle (h : Answering setup c) (serial : ℕ) (outcome : Outcome) : Answering setup (c.settle serial outcome) := by
  unfold Client.settle
  split
  · rename_i request hget
    have hrecord : Answering setup (c.record (.settled serial outcome)) := h.record rfl
    refine { hrecord with fresh := ?_, serials := ?_, settled := ?_ }
    · intro serial' request' frame hanswer
      obtain ⟨hlt, hnone⟩ := hrecord.fresh serial' request' frame hanswer
      refine ⟨hlt, ?_⟩
      change (c.handling.set serial _).get serial' = none
      rw [JsMap.get_set]
      split
      · rename_i hserial
        subst hserial
        exact absurd (hget.symm.trans hnone) (by simp)
      · exact hnone
    · intro serial' x hget'
      change (c.handling.set serial _).get serial' = some x at hget'
      rw [JsMap.get_set] at hget'
      split at hget'
      · rename_i hserial
        subst hserial
        exact h.serials serial _ hget
      · exact h.serials serial' x hget'
    · intro serial' request' outcome' wasOpen hget'
      change (c.handling.set serial _).get serial' = _ at hget'
      rw [JsMap.get_set] at hget'
      split at hget'
      · rename_i hserial
        cases hget'
        exact mem_record.2 (.inr (hserial ▸ rfl))
      · exact hrecord.settled serial' request' outcome' wasOpen hget'
  · exact h

theorem Answering.resume (h : Answering setup c) {serial : ℕ} (throws : Bool)
    (hmeets : Meets setup c (.resume serial throws)) : Answering setup (c.resume setup serial throws) := by
  unfold Client.resume
  split
  · rename_i request outcome wasOpen hget
    simp only [Meets, hget] at hmeets
    obtain ⟨hframe, hwas⟩ := hmeets
    have hfresh : ∀ request frame, .answer serial request frame ∉ c.log := by
      intro request' frame hanswer
      rw [(h.fresh serial request' frame hanswer).2] at hget
      cases hget
    have hdelete : Answering setup { c with handling := c.handling.delete serial } := by
      refine { h with fresh := ?_, serials := ?_, settled := ?_ }
      · intro serial' request' frame hanswer
        obtain ⟨hlt, hnone⟩ := h.fresh serial' request' frame hanswer
        refine ⟨hlt, ?_⟩
        change (c.handling.delete serial).get serial' = none
        rw [JsMap.get_delete, hnone]
        split <;> rfl
      · intro serial' x hget'
        change (c.handling.delete serial).get serial' = some x at hget'
        rw [JsMap.get_delete] at hget'
        split at hget'
        · cases hget'
        · exact h.serials serial' x hget'
      · intro serial' request' outcome' wasOpen' hget'
        change (c.handling.delete serial).get serial' = _ at hget'
        rw [JsMap.get_delete] at hget'
        split at hget'
        · cases hget'
        · exact h.settled serial' request' outcome' wasOpen' hget'
    have hunanswered : Unanswered { c with handling := c.handling.delete serial } serial := by
      refine ⟨h.serials serial _ hget, ?_, hfresh⟩
      change (c.handling.delete serial).get serial = none
      rw [JsMap.get_delete, if_pos rfl]
    have hproper : c.ended = false → (answerFrame setup request outcome).field "id" = request.id.value ∧
        AnswersWith setup c.log serial request (answerFrame setup request outcome) := by
      intro hopen
      obtain ⟨hid, hsayable⟩ := hframe hopen
      exact ⟨(field_id_answerFrame request outcome).trans (stringify_eq_value.2 hid),
        answersWith_answerFrame (h.settled serial request outcome wasOpen hget) hsayable⟩
    have hrespond := hdelete.respond hunanswered hproper throws
    dsimp only
    split
    · rename_i hwasOpen
      have hlive : ({ c with handling := c.handling.delete serial } : Client).ended = false := hwas hwasOpen
      exact hrespond.due ⟨_, answer_mem_respond hlive _ _ _ _⟩
    · exact hrespond
  · exact h

theorem Answering.send (h : Answering setup c) (op : Op) (throws : Bool) : Answering setup (c.send setup op throws) := by
  unfold Client.send
  split
  · exact h
  · apply Answering.writeFrame
    apply Answering.record _ rfl
    exact h.congr rfl rfl rfl rfl

theorem Answering.call (h : Answering setup c) (op : Op) (throws : Bool) : Answering setup (c.call setup op throws) := by
  unfold Client.call
  split
  · split
    · exact h
    · exact h.send _ throws
  · unfold Client.notify
    split
    · exact h
    · exact Answering.writeFrame (h.record rfl) throws
  · split
    · exact h.send _ throws
    · exact h
  · split
    · exact h.send _ throws
    · exact h
  · split
    · exact h.send _ throws
    · exact h
  · split
    · exact h.send _ throws
    · exact h

/-- What a response tells of the methods. -/
theorem advertisement_cases {op : Op} {result : Option Json} {e : Entry} (h : advertisement setup op result = some e) :
    (∃ response, e = .initializeResponse response) ∨ (op.augments = true ∧ ∃ response, e = .sessionResponse response) := by
  have hsession : (if op.augments then (setup.parseResponse op.method result).map Entry.sessionResponse else none) = some e →
      op.augments = true ∧ ∃ response, e = .sessionResponse response := by
    intro h
    split at h
    · rename_i haugments
      obtain ⟨response, -, rfl⟩ := Option.map_eq_some_iff.1 h
      exact ⟨haugments, response, rfl⟩
    · cases h
  cases op with
  | initializeCall =>
    obtain ⟨response, -, rfl⟩ := Option.map_eq_some_iff.1 h
    exact .inl ⟨response, rfl⟩
  | _ => exact .inr (hsession h)

theorem Answering.respondTo (h : Answering setup c) (id : ℕ) (result : Option Json) :
    Answering setup (c.respondTo setup id result) := by
  unfold Client.respondTo
  split
  · exact h
  · rename_i op _
    dsimp only
    split
    · exact h.congr rfl rfl rfl rfl
    · rename_i e he
      apply Answering.record
      · exact h.congr rfl rfl rfl rfl
      · rcases advertisement_cases he with ⟨response, rfl⟩ | ⟨-, response, rfl⟩
        · rfl
        · rfl

theorem Answering.proceed (h : Answering setup c) (id : ℕ) : Answering setup (c.proceed setup id) := by
  unfold Client.proceed
  split
  · exact h
  · dsimp only
    split
    · exact h.congr rfl rfl rfl rfl
    · exact h.congr rfl rfl rfl rfl
    · exact h.congr rfl rfl rfl rfl

theorem Answering.step (h : Answering setup c) {e : Event} (hmeets : Meets setup c e) : Answering setup (step setup c e).1 := by
  cases e with
  | request request params throws => exact h.handleRequest throws hmeets
  | settle serial outcome => exact h.settle serial outcome
  | resume serial throws => exact h.resume throws hmeets
  | call op throws => exact h.call op throws
  | response id result => exact h.respondTo id result
  | fail id => exact h.congr rfl rfl rfl rfl
  | proceed id => exact h.proceed id
  | terminal => exact h.terminate

end Answering

/-! ## The requests of the client -/

/-- What a response told. -/
def Told (log : List Entry) : Entry → Prop
  | .initializeResponse response => .initializeResponse response ∈ log
  | .sessionResponse response => ∀ method ∈ sessionResponseMethods response, Advertised log method
  | _ => True

def WasInitialized (log : List Entry) : Prop := ∃ response, .initializeResponse response ∈ log

/-- What the client knows of the agent's methods it was told. -/
structure Calling (setup : Setup) (c : Client) : Prop where
  calls : Justified (ProperCall setup) c.log
  initialized : c.initialized = true → WasInitialized c.log
  available : ∀ method ∈ c.methodAvailability, Advertised c.log method
  pending : ∀ id op, c.pending.get id = some op → op.augments = true → WasInitialized c.log
  responses : ∀ id op result e, c.responses.get id = some (op, result) → advertisement setup op result = some e → Told c.log e

section Calling

variable {setup : Setup} {c : Client} {log : List Entry} {method : String}

theorem Advertised.concat (h : Advertised log method) (e : Entry) : Advertised (log ++ [e]) method := by
  obtain ⟨pre, response, post, rfl, htold⟩ := h
  refine ⟨pre, response, post ++ [e], by simp, ?_⟩
  rcases htold with hinit | ⟨session, hsession, hmethod⟩
  · exact .inl hinit
  · exact .inr ⟨session, List.mem_append_left _ hsession, hmethod⟩

theorem advertised_of_initialize {response : Json} (h : .initializeResponse response ∈ log)
    (hmethod : method ∈ deriveAcpMethodAvailability response) : Advertised log method := by
  obtain ⟨pre, post, hlog⟩ := List.append_of_mem h
  exact ⟨pre, response, post, hlog, .inl hmethod⟩

theorem advertised_of_session (h : WasInitialized log) {session : Json} (hmethod : method ∈ sessionResponseMethods session) :
    Advertised (log ++ [.sessionResponse session]) method := by
  obtain ⟨response, hresponse⟩ := h
  obtain ⟨pre, post, rfl⟩ := List.append_of_mem hresponse
  refine ⟨pre, response, post ++ [.sessionResponse session], by simp, .inr ⟨session, ?_, hmethod⟩⟩
  exact List.mem_append_right _ List.mem_cons_self

theorem WasInitialized.concat (h : WasInitialized log) (e : Entry) : WasInitialized (log ++ [e]) := by
  obtain ⟨response, hresponse⟩ := h
  exact ⟨response, List.mem_append_left _ hresponse⟩

theorem Told.concat {e : Entry} (h : Told log e) (x : Entry) : Told (log ++ [x]) e := by
  cases e with
  | initializeResponse response => exact List.mem_append_left _ h
  | sessionResponse response => exact fun method hmethod => (h method hmethod).concat x
  | _ => trivial

theorem calling_init : Calling setup init where
  calls := justified_nil
  initialized := by
    intro h
    cases h
  available := by
    intro method h
    cases h
  pending := by
    intro id op h
    cases h
  responses := by
    intro id op result e h
    cases h

def Entry.isCall : Entry → Bool
  | .call .. => true
  | _ => false

theorem properCall_of_not_call {before : List Entry} {e : Entry} (he : e.isCall = false) : ProperCall setup before e := by
  cases e with
  | call => cases he
  | _ => trivial

theorem Calling.record (h : Calling setup c) {e : Entry} (he : ProperCall setup c.log e) : Calling setup (c.record e) where
  calls := justified_concat.2 ⟨h.calls, he⟩
  initialized := fun hinit => (h.initialized hinit).concat e
  available := fun method hmethod => (h.available method hmethod).concat e
  pending := fun id op hget haugments => (h.pending id op hget haugments).concat e
  responses := fun id op result x hget hx => (h.responses id op result x hget hx).concat e

theorem Calling.terminate (h : Calling setup c) : Calling setup c.terminate := by
  unfold Client.terminate
  split
  · exact h
  · apply Calling.record _ (properCall_of_not_call rfl)
    refine { h with pending := ?_ }
    intro id op hget
    cases hget

theorem Calling.writeFrame (h : Calling setup c) {e : Entry} (he : ProperCall setup c.log e) (throws : Bool) :
    Calling setup (c.writeFrame e throws) := by
  unfold Client.writeFrame
  split
  · exact (h.record he).terminate
  · exact h.record he

theorem Calling.send (h : Calling setup c) {op : Op} (hproper : ∀ frame, ProperCall setup c.log (.call op.method frame))
    (haugments : op.augments = true → c.initialized = true) (throws : Bool) : Calling setup (c.send setup op throws) := by
  unfold Client.send
  split
  · exact h
  · have hpending : Calling setup { c with nextId := c.nextId + 1, pending := c.pending.set c.nextId op } := by
      refine { h with pending := ?_ }
      intro id op' hget hop
      change (c.pending.set c.nextId op).get id = some op' at hget
      rw [JsMap.get_set] at hget
      split at hget
      · cases hget
        exact h.initialized (haugments hop)
      · exact h.pending id op' hget hop
    exact hpending.writeFrame (hproper _) throws

theorem Calling.call (h : Calling setup c) (op : Op) (throws : Bool) : Calling setup (c.call setup op throws) := by
  have hgated : c.assertMethodAvailable setup op.method = true → Calling setup (c.send setup op throws) := by
    intro hassert
    unfold assertMethodAvailable at hassert
    simp only [Bool.and_eq_true, Bool.or_eq_true, decide_eq_true_eq] at hassert
    obtain ⟨⟨hinit, havailable⟩, hmutating⟩ := hassert
    refine h.send (fun frame _ => ⟨h.available _ havailable, fun hmem => ?_⟩) (fun _ => hinit) throws
    rcases hmutating with hnot | hallow
    · exact absurd hmem hnot
    · exact hallow
  have hungated : op.method ∉ GATED_METHODS → (op.augments = true → c.initialized = true) →
      Calling setup (c.send setup op throws) :=
    fun hnot haugments => h.send (fun _ hmem => absurd hmem hnot) haugments throws
  unfold Client.call
  split
  · split
    · exact h
    · exact hungated (show "initialize" ∉ GATED_METHODS by decide) (fun hop => by cases hop)
  · unfold Client.notify
    split
    · exact h
    · exact h.writeFrame (properCall_of_not_call rfl) throws
  · split
    · rename_i hinit
      exact hungated (show "session/new" ∉ GATED_METHODS by decide) fun _ => hinit
    · exact h
  · split
    · rename_i hinit
      exact hungated (show "session/load" ∉ GATED_METHODS by decide) fun _ => hinit
    · exact h
  · split
    · rename_i hinit
      exact hungated (show "session/prompt" ∉ GATED_METHODS by decide) fun _ => hinit
    · exact h
  · split
    · rename_i hassert
      exact hgated hassert
    · exact h

theorem Calling.refuse (h : Calling setup c) (serial : ℕ) (request : AgentRequest) (code message : String) (throws : Bool) :
    Calling setup (c.refuse serial request code message throws) := by
  unfold Client.refuse Client.respond
  split
  · exact h
  · exact (h.writeFrame (properCall_of_not_call rfl) throws).record (properCall_of_not_call rfl)

theorem Calling.handleRequest (h : Calling setup c) (request : AgentRequest) (params : Option Json) (throws : Bool) :
    Calling setup (c.handleRequest setup request params throws) := by
  have hnext : Calling setup { c with nextSerial := c.nextSerial + 1 } :=
    ⟨h.calls, h.initialized, h.available, h.pending, h.responses⟩
  unfold Client.handleRequest
  dsimp only
  split
  · exact hnext.refuse _ _ _ _ _
  · split
    · exact hnext.refuse _ _ _ _ _
    · split
      · exact hnext.refuse _ _ _ _ _
      · exact ⟨h.calls, h.initialized, h.available, h.pending, h.responses⟩

theorem Calling.settle (h : Calling setup c) (serial : ℕ) (outcome : Outcome) : Calling setup (c.settle serial outcome) := by
  unfold Client.settle
  split
  · apply Calling.record _ (properCall_of_not_call rfl)
    exact ⟨h.calls, h.initialized, h.available, h.pending, h.responses⟩
  · exact h

theorem Calling.resume (h : Calling setup c) (serial : ℕ) (throws : Bool) : Calling setup (c.resume setup serial throws) := by
  unfold Client.resume
  split
  · rename_i request outcome wasOpen hget
    have hdelete : Calling setup { c with handling := c.handling.delete serial } :=
      ⟨h.calls, h.initialized, h.available, h.pending, h.responses⟩
    have hrespond : Calling setup
        (({ c with handling := c.handling.delete serial } : Client).respond serial request (answerFrame setup request outcome)
          throws) := by
      unfold Client.respond
      split
      · exact hdelete
      · exact hdelete.writeFrame (properCall_of_not_call rfl) throws
    dsimp only
    split
    · exact hrespond.record (properCall_of_not_call rfl)
    · exact hrespond
  · exact h

theorem Calling.respondTo (h : Calling setup c) (id : ℕ) (result : Option Json) : Calling setup (c.respondTo setup id result) := by
  unfold Client.respondTo
  split
  · exact h
  · rename_i op hop
    have hpending : ∀ id' op', (c.pending.delete id).get id' = some op' → op'.augments = true → WasInitialized c.log := by
      intro id' op' hget haugments
      rw [JsMap.get_delete] at hget
      split at hget
      · cases hget
      · exact h.pending id' op' hget haugments
    dsimp only
    split
    · rename_i hnone
      refine ⟨h.calls, h.initialized, h.available, hpending, ?_⟩
      intro id' op' result' e hget he
      change (c.responses.set id (op, result)).get id' = some (op', result') at hget
      rw [JsMap.get_set] at hget
      split at hget
      · cases hget
        rw [hnone] at he
        cases he
      · exact h.responses id' op' result' e hget he
    · rename_i e he
      have hproper : ProperCall setup c.log e := by
        rcases advertisement_cases he with ⟨response, rfl⟩ | ⟨-, response, rfl⟩
        · trivial
        · trivial
      have htold : Told (c.log ++ [e]) e := by
        rcases advertisement_cases he with ⟨response, rfl⟩ | ⟨haugments, response, rfl⟩
        · exact List.mem_append_right _ List.mem_cons_self
        · exact fun method hmethod => advertised_of_session (h.pending id op hop haugments) hmethod
      have hrecord := h.record hproper
      refine ⟨hrecord.calls, hrecord.initialized, hrecord.available, ?_, ?_⟩
      · intro id' op' hget haugments
        exact (hpending id' op' hget haugments).concat e
      · intro id' op' result' e' hget he'
        change (c.responses.set id (op, result)).get id' = some (op', result') at hget
        rw [JsMap.get_set] at hget
        split at hget
        · cases hget
          rw [he] at he'
          cases he'
          exact htold
        · exact hrecord.responses id' op' result' e' hget he'

theorem Calling.proceed (h : Calling setup c) (id : ℕ) : Calling setup (c.proceed setup id) := by
  unfold Client.proceed
  split
  · exact h
  · rename_i op result hget
    have hresponses : ∀ id' op' result' e, (c.responses.delete id).get id' = some (op', result') →
        advertisement setup op' result' = some e → Told c.log e := by
      intro id' op' result' e hget' he
      rw [JsMap.get_delete] at hget'
      split at hget'
      · cases hget'
      · exact h.responses id' op' result' e hget' he
    dsimp only
    split
    · rename_i response he
      have htold : .initializeResponse response ∈ c.log := h.responses id op result _ hget he
      refine ⟨h.calls, fun _ => ⟨response, htold⟩, ?_, h.pending, hresponses⟩
      exact fun method hmethod => advertised_of_initialize htold hmethod
    · rename_i response he
      have htold := h.responses id op result _ hget he
      refine ⟨h.calls, h.initialized, ?_, h.pending, hresponses⟩
      intro method hmethod
      rcases List.mem_append.1 hmethod with hmethod | hmethod
      · exact h.available method hmethod
      · exact htold method hmethod
    · exact ⟨h.calls, h.initialized, h.available, h.pending, hresponses⟩

theorem Calling.step (h : Calling setup c) (e : Event) : Calling setup (step setup c e).1 := by
  cases e with
  | request request params throws => exact h.handleRequest request params throws
  | settle serial outcome => exact h.settle serial outcome
  | resume serial throws => exact h.resume serial throws
  | call op throws => exact h.call op throws
  | response id result => exact h.respondTo id result
  | fail id =>
    refine { h with pending := ?_ }
    intro id' op hget haugments
    change (c.pending.delete id).get id' = some op at hget
    rw [JsMap.get_delete] at hget
    split at hget
    · cases hget
    · exact h.pending id' op hget haugments
  | proceed id => exact h.proceed id
  | terminal => exact h.terminate

end Calling

/-! ## The condition is exact -/

section Exact

variable {setup : Setup} {c : Client}

theorem answer_mem_refuse (hopen : c.ended = false) (serial : ℕ) (request : AgentRequest) (code message : String) (throws : Bool) :
    .answer serial request (errorFrame request.id code message) ∈ (c.refuse serial request code message throws).log := by
  unfold Client.refuse
  rw [if_neg (by simp [hopen])]
  exact mem_record.2 (.inl (answer_mem_respond hopen _ _ _ _))

theorem answer_mem_handleRequest {request : AgentRequest} {params : Option Json} (hopen : c.ended = false)
    (hreaches : reaches setup request params = false) (throws : Bool) :
    ∃ code message, .answer c.nextSerial request (errorFrame request.id code message) ∈
      (c.handleRequest setup request params throws).log := by
  have hlive : ({ c with nextSerial := c.nextSerial + 1 } : Client).ended = false := hopen
  unfold Client.handleRequest
  dsimp only
  split
  · exact ⟨_, _, answer_mem_refuse hlive _ _ _ _ _⟩
  · rename_i hmethod
    split
    · exact ⟨_, _, answer_mem_refuse hlive _ _ _ _ _⟩
    · rename_i hparse
      split
      · exact ⟨_, _, answer_mem_refuse hlive _ _ _ _ _⟩
      · rename_i hsupports
        simp only [not_not] at hmethod
        simp [reaches, hmethod, show setup.parseRequest request.method params = true by simpa using hparse,
          show setup.supports request.method = true by simpa using hsupports] at hreaches

theorem Sound.proper (h : Sound setup c) {serial : ℕ} {request : AgentRequest} {frame : Json}
    (hanswer : .answer serial request frame ∈ c.log) :
    frame.field "id" = request.id.value ∧ ∃ before, AnswersWith setup before serial request frame := by
  obtain ⟨before, post, -, -, -, hid, hwith⟩ := h.answers.of_mem hanswer
  exact ⟨hid, before, hwith⟩

theorem meets_of_sound (h : Answering setup c) {e : Event} (hsound : Sound setup (step setup c e).1) : Meets setup c e := by
  cases e with
  | request request params throws =>
    intro hopen hreaches
    obtain ⟨code, message, hanswer⟩ := @answer_mem_handleRequest setup c request params hopen hreaches throws
    exact stringify_eq_value.1 (hsound.proper hanswer).1
  | resume serial throws =>
    cases hget : c.handling.get serial with
    | none => simp [Meets, hget]
    | some x =>
      obtain ⟨request, settled⟩ := x
      cases settled with
      | none => simp [Meets, hget]
      | some settled =>
        obtain ⟨outcome, wasOpen⟩ := settled
        simp only [Meets, hget]
        change Sound setup (c.resume setup serial throws) at hsound
        unfold Client.resume at hsound
        simp only [hget] at hsound
        let c' : Client := { c with handling := c.handling.delete serial }
        let answered := c'.respond serial request (answerFrame setup request outcome) throws
        change Sound setup (if wasOpen then answered.record (.due serial request) else answered) at hsound
        constructor
        · intro hopen
          have hanswer : .answer serial request (answerFrame setup request outcome) ∈ answered.log :=
            answer_mem_respond (c := c') hopen _ _ _ _
          have hlog : .answer serial request (answerFrame setup request outcome) ∈
              (if wasOpen then answered.record (.due serial request) else answered).log := by
            split
            · exact mem_record.2 (.inl hanswer)
            · exact hanswer
          obtain ⟨hid, before, hwith⟩ := hsound.proper hlog
          rw [field_id_answerFrame] at hid
          exact ⟨stringify_eq_value.1 hid, sayable_of_answersWith hwith⟩
        · intro hwas
          by_contra hclosed
          have hended : c'.ended = true := by simpa using hclosed
          have hsame : answered = c' := if_pos hended
          rw [if_pos hwas, hsame] at hsound
          obtain ⟨frame, hframe⟩ := hsound.answered serial request (mem_record.2 (.inr rfl))
          rcases mem_record.1 hframe with hframe | hframe
          · have hnone := (h.fresh serial request frame hframe).2
            rw [hget] at hnone
            cases hnone
          · cases hframe
  | _ => trivial

/-- **The client keeps its promise exactly where every step meets the condition.** -/
theorem client_sound_iff (setup : Setup) (es : List Event) :
    Run.Throughout (step setup) (Sound setup) init es ↔ Run.Along (step setup) (Meets setup) init es := by
  apply Run.throughout_iff_of_invariant (P := fun c => Answering setup c ∧ Calling setup c)
  · rintro c ⟨hanswering, hcalling⟩
    exact ⟨hanswering.answers, hanswering.answered, hcalling.calls⟩
  · rintro c e hmeets ⟨hanswering, hcalling⟩
    exact ⟨hanswering.step hmeets, hcalling.step e⟩
  · rintro c e ⟨hanswering, -⟩ hsound
    exact meets_of_sound hanswering hsound
  · exact ⟨answering_init, calling_init⟩

section Fixed

/-- A host that has all handlers, and schemas that accept everything. -/
def plainSetup : Setup where
  allowMutatingSessionOps := false
  protocolVersion := "1"
  gatewayVersion := "0"
  supports := fun _ => true
  parseRequest := fun _ _ => true
  parseResponse := fun _ result => result
  redactAcpMessage := fun text => text

/-- A handler resolves to `undefined`. -/
def undefinedRun : List Event :=
  [.request ⟨.number (some "7"), "fs/write_text_file"⟩ none false, .settle 0 (.resolved none), .resume 0 false]

/-- A request with the id `1e999`. -/
def infiniteRun : List Event := [.request ⟨.number none, "terminal/create"⟩ none false]

/-- The frame for a handler that resolves to `undefined` has neither a result nor an error, and the answer to a request with an
infinite id has the id `null`. -/
theorem client_not_sound :
    ¬Run.Throughout (step plainSetup) (Sound plainSetup) init undefinedRun ∧
      ¬Run.Throughout (step plainSetup) (Sound plainSetup) init infiniteRun := by
  constructor
  · intro h
    have hsound := Run.throughout_iff.1 h undefinedRun [] (List.append_nil _).symm
    have hanswer : .answer 0 ⟨.number (some "7"), "fs/write_text_file"⟩ (resultFrame (.number (some "7")) none) ∈
        (Run.final (step plainSetup) init undefinedRun).log := .tail _ (.head _)
    obtain ⟨before, post, -, -, -, -, hwith⟩ := hsound.answers.of_mem hanswer
    rcases hwith with ⟨value, -, hresult, -⟩ | ⟨code, message, -, herror, -⟩
    · cases hresult
    · cases herror
  · intro h
    have hsound := Run.throughout_iff.1 h infiniteRun [] (List.append_nil _).symm
    have hanswer : .answer 0 ⟨.number none, "terminal/create"⟩ (errorFrame (.number none) "-32601" "Method not found") ∈
        (Run.final (step plainSetup) init infiniteRun).log := .head _
    obtain ⟨-, -, -, -, -, hid, -⟩ := hsound.answers.of_mem hanswer
    cases hid

end Fixed

end Exact

end Client

end LlmGateway.Acp
