import LlmGateway.Lib.JsMap
import LlmGateway.Lib.JsText
import LlmGateway.Lib.Json
import LlmGateway.Lib.Lines
import LlmGateway.Lib.Run

/-!
# The ACP transport

`acp/json-rpc-stdio.ts`: JSON-RPC requests over a provider's stdio, one frame a line.

* `Transport` — the object, the calls that are in progress on it, and what has happened so far;
* `Event`, `step` — a call, an event of a stream or of a timer, or the return of the innermost hook.

A hook (`onActivity`, `onNotification`, `onRequest`, `onTerminal`) and `stdin.write` may call the transport again before they
return: `step` runs up to the next of them and leaves the rest on the stack.  Data of stdout comes from the event loop, when no
call is in progress.  `readNumber` reads the text of a JSON number, `none` if it is no natural number.
-/

namespace LlmGateway.Acp

open LlmGateway.Lib

/-! ## Messages -/

inductive JsonRpcId where
  | number (n : Option ℕ)
  | string (s : String)
deriving DecidableEq

/-- The frames that are routed; the `method` of a response is not a text. -/
inductive Message where
  | request (id : JsonRpcId) (method : String) (params : Option Json)
  | notification (method : String) (params : Option Json)
  | response (id : JsonRpcId) (method error result : Option Json)

section Classify

variable (readNumber : String → Option ℕ)

/-- `isJsonRpcId` -/
def jsonRpcId : Option Json → Option JsonRpcId
  | some (.num text) => some (.number (readNumber text))
  | some (.str s) => some (.string s)
  | _ => none

/-- `typeof value === "string"` -/
def textOf : Option Json → Option String
  | some (.str s) => some s
  | _ => none

/-- What `handleLine` routes; the other lines are dropped with an entry in the log. -/
def classify (line : List Char) : Option Message :=
  let trimmed := JsText.trim (String.ofList line)
  if trimmed = "" then none
  else
    match Json.parse trimmed with
    | none => none
    | some parsed =>
      if ¬parsed.isObject then none
      else
        match textOf (parsed.field "method"), jsonRpcId readNumber (parsed.field "id") with
        | some method, some id => some (.request id method (parsed.field "params"))
        | some method, none => some (.notification method (parsed.field "params"))
        | none, some id => some (.response id (parsed.field "method") (parsed.field "error") (parsed.field "result"))
        | none, none => none

end Classify

/-- `parsed.error !== undefined && parsed.error !== null` -/
def hasError : Option Json → Bool
  | none | some .null => false
  | _ => true

/-! ## The object -/

/-- Why a request is rejected. -/
inductive Rejection where
  | rpcError
  | timeout
  | exit
deriving DecidableEq

/-- How a request settles: resolved by the `k`-th dispatched message, or rejected. -/
inductive Settlement where
  | resolved (k : ℕ)
  | rejected (why : Rejection)
deriving DecidableEq

structure PendingRequest where
  method : String
  timed : Bool
deriving DecidableEq

/-- A call that waits for a hook, or for `stdin.write`, to return. -/
inductive Frame where
  /-- `request`, in `onActivity` -/
  | requestActivity (id : ℕ) (request : PendingRequest)
  /-- `request`, in `stdin.write` -/
  | requestWrite (id : ℕ)
  /-- `request`, in the `onTerminal` that follows a write that threw -/
  | requestTerminal (id : ℕ)
  /-- `notify` or `respond`, in `stdin.write` -/
  | write
  /-- `onTerminal`, with nothing to do behind it -/
  | terminal

/-- Where the loop over stdout is. -/
inductive Reading where
  | idle
  /-- `handleLine`, in `onActivity` -/
  | announcing (m : Message)
  /-- `handleLine`, in `onNotification` or `onRequest` -/
  | dispatching

/-- What ends a transport, and the call of `onTerminal`. -/
inductive Life where
  | terminal
  | exited
  | disposed
deriving DecidableEq

structure Transport where
  pending : JsMap ℕ PendingRequest
  nextId : ℕ
  stdoutBuffer : List Char
  closed : Bool
  exitError : Bool
  stack : List Frame
  reading : Reading
  /-- the ids of all requests, and of those whose promise is made -/
  issued : List ℕ
  opened : List ℕ
  settled : List (ℕ × Settlement)
  /-- how many messages stdout had brought when a request was issued -/
  issuedAt : List (ℕ × ℕ)
  received : List Char
  dispatched : List Message
  /-- the requests written to stdin -/
  written : List ℕ
  life : List Life

namespace Transport

def init : Transport where
  pending := Table.empty
  nextId := 1
  stdoutBuffer := []
  closed := false
  exitError := false
  stack := []
  reading := .idle
  issued := []
  opened := []
  settled := []
  issuedAt := []
  received := []
  dispatched := []
  written := []
  life := []

variable (t : Transport)

/-- `this.exitError || this.closed` -/
def ended : Bool := t.exitError || t.closed

/-- Settle a request and take it out of the map, with its timer. -/
def settle (id : ℕ) (s : Settlement) : Transport :=
  { t with pending := t.pending.delete id, settled := t.settled ++ [(id, s)] }

def failPending : Transport :=
  { t with
    pending := Table.empty
    settled := t.settled ++ t.pending.rows.map fun e => (e.1, .rejected .exit) }

/-- `handleStdinError` and `handleStreamClose` up to `emitTerminal`, for a transport that has not ended. -/
def terminate : Transport :=
  { t.failPending with exitError := true, closed := true, life := t.life ++ [.terminal] }

def push (f : Frame) : Transport := { t with stack := f :: t.stack }

/-- The end of `request`: a request that the terminal path has not seen is rejected. -/
def requestTail (id : ℕ) : Transport :=
  if t.ended && (t.pending.get id).isSome then t.settle id (.rejected .exit) else t

def resolveResponse (id : JsonRpcId) (error : Option Json) : Transport :=
  match id with
  | .number (some n) =>
    if (t.pending.get n).isSome then
      t.settle n (if hasError error then .rejected .rpcError else .resolved t.dispatched.length)
    else t
  | _ => t

end Transport

/-! ## Steps -/

inductive Event where
  | request (method : String) (timed : Bool)
  /-- `notify`, `respond` or `respondError` -/
  | send
  | data (chunk : List Char)
  | timeout (id : ℕ)
  /-- `handleStdinError`, by the stream's event or by the callback of a write -/
  | stdinError
  /-- `close`, `end` or `error` of stdout -/
  | streamClose
  | handleProcessExit
  | dispose
  /-- the innermost hook, or `stdin.write`, returns or throws -/
  | resume (throws : Bool)

section Step

variable (readNumber : String → Option ℕ)

/-- All messages of a text. -/
def messagesOf (text : List Char) : List Message := Lines.messages '\n' (classify readNumber) [] text

open Transport

/-- The loop of `onStdoutData`, up to the next `onActivity`. -/
def readOn (t : Transport) : Transport :=
  match Lines.nextMessage '\n' (classify readNumber) [] t.stdoutBuffer with
  | (some m, rest) => { t with stdoutBuffer := rest, reading := .announcing m }
  | (none, rest) => { t with stdoutBuffer := rest, reading := .idle }

/-- `handleLine` behind `onActivity`. -/
def dispatch (t : Transport) (m : Message) : Transport :=
  match m with
  | .response id _ error _ =>
    readOn readNumber { t.resolveResponse id error with dispatched := t.dispatched ++ [m] }
  | _ => { t with dispatched := t.dispatched ++ [m], reading := .dispatching }

/-- `request`, up to its `onActivity`; the flag is whether it was rejected at once. -/
def request (t : Transport) (method : String) (timed : Bool) : Transport × Bool :=
  if t.ended then (t, true)
  else
    ({ t.push (.requestActivity t.nextId ⟨method, timed⟩) with
        nextId := t.nextId + 1
        issued := t.issued ++ [t.nextId]
        issuedAt := t.issuedAt ++ [(t.nextId, (messagesOf readNumber t.received).length)] }, false)

/-- The innermost call goes on. -/
def resume (t : Transport) (throws : Bool) : Transport :=
  match t.stack with
  | .requestActivity id request :: stack =>
    { t with
      stack := .requestWrite id :: stack
      opened := t.opened ++ [id]
      pending := t.pending.set id request
      written := t.written ++ [id] }
  | .requestWrite id :: stack =>
    if throws && !t.ended then { t with stack }.terminate.push (.requestTerminal id)
    else { t with stack }.requestTail id
  | .requestTerminal id :: stack => { t with stack }.requestTail id
  | .write :: stack =>
    if throws && !t.ended then { t with stack }.terminate.push .terminal else { t with stack }
  | .terminal :: stack => { t with stack }
  | [] =>
    match t.reading with
    | .idle => t
    | .announcing m => dispatch readNumber t m
    | .dispatching => readOn readNumber t

def step (t : Transport) (e : Event) : Transport × Bool :=
  match e with
  | .request method timed => request readNumber t method timed
  | .send => (if t.ended then t else t.push .write, false)
  | .data chunk =>
    (match t.stack, t.reading with
    | [], .idle =>
      readOn readNumber { t with stdoutBuffer := t.stdoutBuffer ++ chunk, received := t.received ++ chunk }
    | _, _ => t, false)
  | .timeout id =>
    (if (t.pending.get id).any (·.timed) then t.settle id (.rejected .timeout) else t, false)
  | .stdinError => (if t.ended then t else t.terminate.push .terminal, false)
  | .streamClose => (if t.ended then t else t.terminate.push .terminal, false)
  | .handleProcessExit =>
    (if t.exitError then t
    else { t.failPending with exitError := true, closed := true, life := t.life ++ [.exited] }, false)
  | .dispose =>
    (if t.closed then t else { t.failPending with closed := true, life := t.life ++ [.disposed] }, false)
  | .resume throws => (resume readNumber t throws, false)

end Step

end LlmGateway.Acp
