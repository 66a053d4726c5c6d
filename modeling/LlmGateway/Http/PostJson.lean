import LlmGateway.Lib.Run
import LlmGateway.Lib.Utf8

/-!
# One request to an API

* `Exchange` — a call of `postJson`: what Node's client has delivered, and what the listeners have kept;
* `Truthful` — when the connection is closed and nothing is outstanding, the promise is settled; and it is settled as the response
  says;
* `Steady` — the peer does not close the connection in the middle of a response;
* `postJson_truthful_iff` — the call is truthful all along exactly when the peer is steady.
-/

namespace LlmGateway.Http.PostJson

open LlmGateway.Lib LlmGateway.Lib.Run LlmGateway.Lib.Utf16 LlmGateway.Lib.Utf8

def maxApiResponseBytes : ℕ := 50 * 1024 * 1024

structure ApiHttpError where
  message : Text
  status : Option ℕ
  responseText : Text
  code : Option Text
  deriving DecidableEq

structure ApiHttpResponse where
  status : ℕ
  text : Text
  deriving DecidableEq

/-- What the promise can be rejected with: an error of this client, or one of the connection. -/
inductive Failure where
  | api (error : ApiHttpError)
  | connection (code : Text)
  deriving DecidableEq

def Failure.status : Failure → Option ℕ
  | .api error => error.status
  | .connection _ => none

def Failure.responseText : Failure → Text
  | .api error => error.responseText
  | .connection _ => []

inductive Settlement where
  | resolved (response : ApiHttpResponse)
  | rejected (failure : Failure)
  deriving DecidableEq

def aborted : Failure := .api ⟨text "API request aborted", none, [], some (text "ABORT_ERR")⟩

def timedOut : Failure := .api ⟨text "API request timed out", none, [], some (text "ETIMEDOUT")⟩

def exceeded : Failure := .api ⟨text "API response exceeded the 50MB limit", none, [], none⟩

/-- What the client says when the peer closes the connection before it answers. -/
def hungUp : Failure := .connection (text "ECONNRESET")

/-- A call of `postJson`. -/
structure Exchange where
  statusCode : Option ℕ
  /-- The body, as far as it has been delivered. -/
  received : List UInt8
  ended : Bool
  chunks : List (List UInt8)
  bytes : ℕ
  closed : Bool
  /-- The `error` that the request is about to emit. -/
  outstanding : Option Failure
  /-- `onAbort` listens to the signal. -/
  listening : Bool
  promise : Option Settlement
  deriving DecidableEq

inductive Event where
  | abort
  | timeout
  | connectionError (code : Text)
  | response (statusCode : ℕ)
  | data (chunk : List UInt8)
  | responseEnd
  | peerClose
  | emitError
  deriving DecidableEq

/-- The call, with a signal that has been aborted or not. -/
def postJson (signalAborted : Bool) : Exchange where
  statusCode := none
  received := []
  ended := false
  chunks := []
  bytes := 0
  closed := signalAborted
  outstanding := none
  listening := !signalAborted
  promise := if signalAborted then some (.rejected aborted) else none

section

variable (extractErrorMessage : ℕ → Text → Text)

/-- A promise is settled once. -/
def settle (x : Exchange) (s : Settlement) : Exchange := if x.promise.isSome then x else { x with promise := some s }

/-- The end of the connection: the request emits `failure` and `close`; after the response has ended, `close` only. -/
def breakOff (x : Exchange) (failure : Failure) : Exchange :=
  if x.closed then x
  else if x.ended then { x with closed := true, listening := false }
  else { x with closed := true, outstanding := some failure }

/-- What the end of the response settles. -/
def outcome (statusCode : ℕ) (body : List UInt8) : Settlement :=
  if statusCode < 200 ∨ 300 ≤ statusCode then
    .rejected (.api ⟨extractErrorMessage statusCode (decode body), some statusCode, decode body, none⟩)
  else .resolved ⟨statusCode, decode body⟩

def onData (x : Exchange) (chunk : List UInt8) : Exchange :=
  let x := { x with received := x.received ++ chunk, bytes := x.bytes + chunk.length }
  if maxApiResponseBytes < x.bytes then breakOff x exceeded else { x with chunks := x.chunks ++ [chunk] }

def onEnd (x : Exchange) : Exchange :=
  settle { x with ended := true } (outcome extractErrorMessage (x.statusCode.getD 0) x.chunks.flatten)

/-- The response goes on. -/
def Exchange.streams (x : Exchange) : Bool := !x.closed && x.statusCode.isSome && !x.ended

def next (x : Exchange) : Event → Exchange
  | .abort => if x.listening then breakOff x aborted else x
  | .timeout => breakOff x timedOut
  | .connectionError code => breakOff x (.connection code)
  | .response statusCode => if x.closed || x.statusCode.isSome then x else { x with statusCode := some statusCode }
  | .data chunk => if x.streams then onData x chunk else x
  | .responseEnd => if x.streams then onEnd extractErrorMessage x else x
  | .peerClose =>
    -- `aborted` and `close` of a response find no listener
    if x.streams then { x with closed := true, listening := false } else breakOff x hungUp
  | .emitError =>
    match x.outstanding with
    | none => x
    | some failure => settle { x with outstanding := none, listening := false } (.rejected failure)

def step (x : Exchange) (e : Event) : Exchange × Unit := (next extractErrorMessage x e, ())

/-- The response is a success, and all of it has come. -/
structure Exchange.Delivered (x : Exchange) (statusCode : ℕ) : Prop where
  answered : x.statusCode = some statusCode
  success : 200 ≤ statusCode ∧ statusCode < 300
  ended : x.ended = true
  within : x.received.length ≤ maxApiResponseBytes

/-- **An API request settles truthfully.** -/
structure Truthful (x : Exchange) : Prop where
  settled : x.closed = true → x.outstanding = none → x.promise.isSome = true
  resolved : ∀ r, x.promise = some (.resolved r) → x.Delivered r.status ∧ r.text = decode x.received
  rejected : ∀ failure, x.promise = some (.rejected failure) → (∀ statusCode, ¬x.Delivered statusCode) ∧
    (x.ended = true → failure.status = x.statusCode ∧ failure.responseText = decode x.received) ∧
    (x.ended = false → failure.status = none)
  answered : x.ended = true → x.promise.isSome = true

/-- The peer does not close the connection while the response goes on. -/
def Steady (x : Exchange) (e : Event) : Prop := e = .peerClose → x.streams = false

/-! ## The invariant -/

/-- Where a call stands. -/
inductive Inv (x : Exchange) : Prop
  | live (hopen : x.closed = false) (hended : x.ended = false) (hpromise : x.promise = none) (houtstanding : x.outstanding = none)
      (hchunks : x.chunks.flatten = x.received) (hbytes : x.bytes = x.received.length) (hcap : x.bytes ≤ maxApiResponseBytes)
  | failing (failure : Failure) (hclosed : x.closed = true) (hended : x.ended = false) (hpromise : x.promise = none)
      (houtstanding : x.outstanding = some failure) (hstatus : failure.status = none)
  | failed (failure : Failure) (hclosed : x.closed = true) (hended : x.ended = false)
      (hpromise : x.promise = some (.rejected failure)) (houtstanding : x.outstanding = none) (hstatus : failure.status = none)
  | done (statusCode : ℕ) (hended : x.ended = true) (hstatus : x.statusCode = some statusCode)
      (hpromise : x.promise = some (outcome extractErrorMessage statusCode x.received)) (houtstanding : x.outstanding = none)
      (hcap : x.received.length ≤ maxApiResponseBytes)

variable {extractErrorMessage} {x : Exchange}

theorem inv_postJson (signalAborted : Bool) : Inv extractErrorMessage (postJson signalAborted) := by
  cases signalAborted with
  | false => exact .live rfl rfl rfl rfl rfl rfl (Nat.zero_le _)
  | true => exact .failed aborted rfl rfl rfl rfl rfl

/-- The outcome of a response is a truthful one. -/
theorem outcome_cases (extractErrorMessage : ℕ → Text → Text) (statusCode : ℕ) (body : List UInt8) :
    (200 ≤ statusCode ∧ statusCode < 300 ∧ outcome extractErrorMessage statusCode body = .resolved ⟨statusCode, decode body⟩) ∨
      (¬(200 ≤ statusCode ∧ statusCode < 300) ∧ ∃ failure, outcome extractErrorMessage statusCode body = .rejected failure ∧
        failure.status = some statusCode ∧ failure.responseText = decode body) := by
  unfold outcome
  split_ifs with h
  · exact .inr ⟨by omega, _, rfl, rfl, rfl⟩
  · exact .inl ⟨by omega, by omega, rfl⟩

theorem Inv.truthful (h : Inv extractErrorMessage x) : Truthful x := by
  cases h with
  | live hopen hended hpromise houtstanding hchunks hbytes hcap =>
    refine ⟨fun hclosed => ?_, fun r hr => ?_, fun failure hfailure => ?_, fun hended' => ?_⟩
    · rw [hopen] at hclosed
      cases hclosed
    · rw [hpromise] at hr
      cases hr
    · rw [hpromise] at hfailure
      cases hfailure
    · rw [hended] at hended'
      cases hended'
  | failing failure hclosed hended hpromise houtstanding hstatus =>
    refine ⟨fun _ hnone => ?_, fun r hr => ?_, fun failure' hfailure => ?_, fun hended' => ?_⟩
    · rw [houtstanding] at hnone
      cases hnone
    · rw [hpromise] at hr
      cases hr
    · rw [hpromise] at hfailure
      cases hfailure
    · rw [hended] at hended'
      cases hended'
  | failed failure hclosed hended hpromise houtstanding hstatus =>
    refine ⟨fun _ _ => by rw [hpromise]; rfl, fun r hr => ?_, fun failure' hfailure => ?_, fun hended' => ?_⟩
    · rw [hpromise] at hr
      cases hr
    · rw [hpromise] at hfailure
      obtain rfl : failure = failure' := by injection Option.some.inj hfailure
      refine ⟨fun statusCode hdelivered => ?_, fun hended' => ?_, fun _ => hstatus⟩
      · rw [hdelivered.ended] at hended
        cases hended
      · rw [hended] at hended'
        cases hended'
    · rw [hended] at hended'
      cases hended'
  | done statusCode hended hstatus hpromise houtstanding hcap =>
    have hunique (other : ℕ) (hdelivered : x.Delivered other) : other = statusCode :=
      Option.some.inj (hdelivered.answered.symm.trans hstatus)
    have hsettled : x.promise.isSome = true := by rw [hpromise]; rfl
    rcases outcome_cases extractErrorMessage statusCode x.received with
      ⟨hlower, hupper, houtcome⟩ | ⟨hfailure, failure, houtcome, hfailed, htext⟩
    · rw [houtcome] at hpromise
      refine ⟨fun _ _ => hsettled, fun r hr => ?_, fun failure hr => ?_, fun _ => hsettled⟩
      · rw [hpromise] at hr
        obtain rfl : (⟨statusCode, decode x.received⟩ : ApiHttpResponse) = r := by injection Option.some.inj hr
        exact ⟨⟨hstatus, ⟨hlower, hupper⟩, hended, hcap⟩, rfl⟩
      · rw [hpromise] at hr
        injection hr with hr
        cases hr
    · rw [houtcome] at hpromise
      refine ⟨fun _ _ => hsettled, fun r hr => ?_, fun failure' hr => ?_, fun _ => hsettled⟩
      · rw [hpromise] at hr
        injection hr with hr
        cases hr
      · rw [hpromise] at hr
        obtain rfl : failure = failure' := by injection Option.some.inj hr
        refine ⟨fun other hdelivered => ?_, fun _ => ⟨hfailed.trans hstatus.symm, htext⟩, fun hnot => ?_⟩
        · obtain rfl := hunique other hdelivered
          exact hfailure hdelivered.success
        · rw [hended] at hnot
          cases hnot

/-! ## Steps -/

theorem streams_iff : x.streams = true ↔ x.closed = false ∧ (∃ statusCode, x.statusCode = some statusCode) ∧ x.ended = false := by
  unfold Exchange.streams
  rw [Bool.and_eq_true, Bool.and_eq_true, Bool.not_eq_true', Bool.not_eq_true', Option.isSome_iff_exists, and_assoc]

/-- The connection breaks off while the call is under way. -/
theorem breakOff_live {failure : Failure} (hstatus : failure.status = none) (hopen : x.closed = false) (hended : x.ended = false)
    (hpromise : x.promise = none) : Inv extractErrorMessage (breakOff x failure) := by
  have hnot : ¬x.ended = true := by simp [hended]
  rw [breakOff, hopen, if_neg Bool.false_ne_true, if_neg hnot]
  exact .failing failure rfl hended hpromise rfl hstatus

theorem Inv.breakOff (h : Inv extractErrorMessage x) {failure : Failure} (hstatus : failure.status = none) :
    Inv extractErrorMessage (breakOff x failure) := by
  cases h with
  | live hopen hended hpromise houtstanding hchunks hbytes hcap => exact breakOff_live hstatus hopen hended hpromise
  | failing other hclosed hended hpromise houtstanding hother =>
    rw [PostJson.breakOff, if_pos hclosed]
    exact .failing other hclosed hended hpromise houtstanding hother
  | failed other hclosed hended hpromise houtstanding hother =>
    rw [PostJson.breakOff, if_pos hclosed]
    exact .failed other hclosed hended hpromise houtstanding hother
  | done statusCode hended hanswered hpromise houtstanding hcap =>
    rw [PostJson.breakOff]
    split_ifs
    · exact .done statusCode hended hanswered hpromise houtstanding hcap
    · exact .done statusCode hended hanswered hpromise houtstanding hcap

/-- Only a call that is under way receives more of its response. -/
theorem Inv.live_of_streams (h : Inv extractErrorMessage x) (hstreams : x.streams = true) :
    x.promise = none ∧ x.outstanding = none ∧ x.chunks.flatten = x.received ∧ x.bytes = x.received.length ∧
      x.bytes ≤ maxApiResponseBytes := by
  obtain ⟨hopen, -, hended⟩ := streams_iff.1 hstreams
  cases h with
  | live _ _ hpromise houtstanding hchunks hbytes hcap => exact ⟨hpromise, houtstanding, hchunks, hbytes, hcap⟩
  | failing failure hclosed | failed failure hclosed =>
    rw [hopen] at hclosed
    cases hclosed
  | done statusCode hended' =>
    rw [hended] at hended'
    cases hended'

theorem Inv.onData (h : Inv extractErrorMessage x) (hstreams : x.streams = true) (chunk : List UInt8) :
    Inv extractErrorMessage (onData x chunk) := by
  obtain ⟨hopen, -, hended⟩ := streams_iff.1 hstreams
  obtain ⟨hpromise, houtstanding, hchunks, hbytes, -⟩ := h.live_of_streams hstreams
  unfold PostJson.onData
  dsimp only
  split_ifs with hexceeded
  · exact breakOff_live rfl hopen hended hpromise
  · refine .live hopen hended hpromise houtstanding ?_ ?_ (Nat.le_of_not_lt hexceeded)
    · simp [hchunks]
    · simp [hbytes]

theorem Inv.onEnd (h : Inv extractErrorMessage x) (hstreams : x.streams = true) :
    Inv extractErrorMessage (onEnd extractErrorMessage x) := by
  obtain ⟨-, ⟨statusCode, hstatus⟩, -⟩ := streams_iff.1 hstreams
  obtain ⟨hpromise, houtstanding, hchunks, hbytes, hcap⟩ := h.live_of_streams hstreams
  have hnot : ¬({ x with ended := true } : Exchange).promise.isSome = true := by simp [hpromise]
  rw [PostJson.onEnd, settle, if_neg hnot, hchunks, hstatus]
  exact .done statusCode rfl rfl rfl houtstanding (hbytes ▸ hcap)

/-- The headers change nothing that the invariant speaks of, before there are any. -/
theorem Inv.response (h : Inv extractErrorMessage x) (statusCode : ℕ) :
    Inv extractErrorMessage (next extractErrorMessage x (.response statusCode)) := by
  rw [next]
  split_ifs with hskip
  · exact h
  · rw [Bool.or_eq_true, not_or, Bool.not_eq_true, Bool.not_eq_true, Option.isSome_eq_false_iff, Option.isNone_iff_eq_none] at hskip
    cases h with
    | live hopen hended hpromise houtstanding hchunks hbytes hcap =>
      exact .live hopen hended hpromise houtstanding hchunks hbytes hcap
    | failing failure hclosed | failed failure hclosed =>
      rw [hskip.1] at hclosed
      cases hclosed
    | done other _ hstatus =>
      rw [hskip.2] at hstatus
      cases hstatus

theorem Inv.emitError (h : Inv extractErrorMessage x) : Inv extractErrorMessage (next extractErrorMessage x .emitError) := by
  cases houtstanding' : x.outstanding with
  | none =>
    rw [next, houtstanding']
    exact h
  | some failure =>
    cases h with
    | live _ _ _ houtstanding | failed _ _ _ _ houtstanding | done _ _ _ _ houtstanding =>
      rw [houtstanding'] at houtstanding
      cases houtstanding
    | failing other hclosed hended hpromise houtstanding hstatus =>
      rw [houtstanding'] at houtstanding
      obtain rfl := Option.some.inj houtstanding
      have hnot : ¬({ x with outstanding := none, listening := false } : Exchange).promise.isSome = true := by simp [hpromise]
      rw [next, houtstanding']
      dsimp only
      rw [settle, if_neg hnot]
      exact .failed failure hclosed hended rfl rfl hstatus

/-- **Every step keeps the invariant**, if the peer is steady. -/
theorem Inv.step (h : Inv extractErrorMessage x) {e : Event} (hsteady : Steady x e) :
    Inv extractErrorMessage (step extractErrorMessage x e).1 := by
  unfold PostJson.step
  cases e with
  | abort =>
    rw [next]
    split_ifs
    · exact h.breakOff rfl
    · exact h
  | timeout | connectionError code => exact h.breakOff rfl
  | response statusCode => exact h.response statusCode
  | data chunk =>
    rw [next]
    split_ifs with hstreams
    · exact h.onData hstreams chunk
    · exact h
  | responseEnd =>
    rw [next]
    split_ifs with hstreams
    · exact h.onEnd hstreams
    · exact h
  | peerClose =>
    rw [next, hsteady rfl, if_neg Bool.false_ne_true]
    exact h.breakOff rfl
  | emitError => exact h.emitError

/-- A peer that closes the connection while the response goes on leaves the promise unsettled. -/
theorem steady_of_truthful (h : Inv extractErrorMessage x) {e : Event} (hnext : Truthful (step extractErrorMessage x e).1) :
    Steady x e := by
  rintro rfl
  rw [← Bool.not_eq_true]
  intro hstreams
  obtain ⟨hpromise, houtstanding, -⟩ := h.live_of_streams hstreams
  have hsettled := hnext.settled
  simp only [PostJson.step, next, hstreams, if_true] at hsettled
  have hsome := hsettled trivial houtstanding
  rw [hpromise] at hsome
  cases hsome

variable (extractErrorMessage)

/-- **When an API request settles truthfully**: all along a call exactly if the peer does not close the connection in the middle
of the response. -/
theorem postJson_truthful_iff (signalAborted : Bool) (es : List Event) :
    Throughout (step extractErrorMessage) Truthful (postJson signalAborted) es ↔
      Along (step extractErrorMessage) Steady (postJson signalAborted) es :=
  throughout_iff_of_invariant (P := Inv extractErrorMessage) (fun _ h => h.truthful) (fun _ _ hsteady h => h.step hsteady)
    (fun _ _ h hnext => steady_of_truthful h hnext) (inv_postJson signalAborted) es

end

/-- After the headers and a part of the body, the peer closes the connection. -/
def closedEarly : List Event := [.response 200, .data [0x7B], .peerClose]

/-- The promise stays pending, whatever happens afterwards; the signal and the timer are gone, too. -/
theorem closedEarly_stays_pending :
    ¬(∀ (extractErrorMessage : ℕ → Text → Text) (signalAborted : Bool) (es : List Event),
        Throughout (step extractErrorMessage) Truthful (postJson signalAborted) es) ∧
      (final (step fun _ s => s) (postJson false) (closedEarly ++ [.abort, .timeout, .emitError])).promise = none := by
  refine ⟨fun h => ?_, by decide +kernel⟩
  have hend := throughout_iff.1 (h (fun _ s => s) false closedEarly) _ [] (List.append_nil _).symm
  exact absurd (hend.settled (by decide +kernel) (by decide +kernel)) (by decide +kernel)

end LlmGateway.Http.PostJson
