import LlmGateway.Lib.History
import LlmGateway.Lib.JsMap
import LlmGateway.Lib.Json
import LlmGateway.Lib.Run

/-!
# The ACP client

`acp/client.ts` over `acp/json-rpc-stdio.ts`: the requests of the agent that the host answers, and the requests of the client that
depend on what the agent advertised.

* `Setup` — what the client is made with, and the functions that it calls: the schemas, the redactor, the host's handlers;
* `Client` — the object with what its transport has pending, and the `log` of what has happened;
* `Event`, `step` — a frame of the agent, a handler that settles, a call, or a promise that an `await` waited for.

A handler, and a response, settles in one step, and the `await` that waits for it goes on in another.
-/

namespace LlmGateway.Acp

open LlmGateway.Lib

namespace Client

/-- A number has the text that `JSON.stringify` gives it; an infinite one has none. -/
inductive RequestId
  | number (digits : Option String)
  | text (s : String)
  deriving DecidableEq

/-- The value that the agent reads as this id. -/
def RequestId.value : RequestId → Option Json
  | .number digits => digits.map Json.num
  | .text s => some (.str s)

/-- `JSON.stringify`: an infinite number becomes `null`. -/
def RequestId.stringify (id : RequestId) : Json := id.value.getD .null

/-- What a handler rejects with: an `AcpError` made with a text, or anything else. -/
inductive HostError
  | acp (text : String)
  | other (text : String)

/-- How a handler settles; `none` is `undefined`. -/
inductive Outcome
  | resolved (value : Option Json)
  | rejected (error : HostError)

structure AgentRequest where
  id : RequestId
  method : String

inductive Op
  | initializeCall (readTextFile writeTextFile terminal : Bool)
  | newSession (cwd : String) (mcpServers : List Json)
  | loadSession (sessionId cwd : String) (mcpServers : List Json)
  | prompt (sessionId : String) (blocks : List Json)
  | cancel (sessionId : String)
  | resumeSession (sessionId cwd : String) (mcpServers : List Json)
  | listSessions (cursor : Option String)
  | closeSession (sessionId : String)
  | deleteSession (sessionId : String)
  | setSessionMode (sessionId modeId : String)
  | setSessionConfigOption (sessionId configId value : String)

/-- What has happened: `due` is that an `await` went on whose handler had settled while the transport was open. -/
inductive Entry
  | settled (serial : ℕ) (outcome : Outcome)
  | due (serial : ℕ) (request : AgentRequest)
  | answer (serial : ℕ) (request : AgentRequest) (frame : Json)
  | call (method : String) (frame : Json)
  | notify (frame : Json)
  | initializeResponse (response : Json)
  | sessionResponse (response : Json)
  | ended

structure Setup where
  allowMutatingSessionOps : Bool
  protocolVersion : String
  gatewayVersion : String
  /-- `hostServices` has a handler for the method -/
  supports : String → Bool
  parseRequest : String → Option Json → Bool
  parseResponse : String → Option Json → Option Json
  redactAcpMessage : String → String

/-! ## Methods -/

def BASELINE_ACP_METHODS : List String := ["session/new", "session/prompt", "session/cancel", "session/update"]

def subCapabilityPresent (value : Option Json) : Bool := value.any Json.isObject

def deriveAcpMethodAvailability (init : Json) : List String :=
  let caps := init.field "agentCapabilities"
  let sc := caps.bind (Json.field "sessionCapabilities")
  let present := fun name => subCapabilityPresent (sc.bind (Json.field name))
  BASELINE_ACP_METHODS ++
    (match caps.bind (Json.field "loadSession") with
      | some (.bool true) => ["session/load"]
      | _ => []) ++
    (if present "resume" then ["session/resume"] else []) ++ (if present "list" then ["session/list"] else []) ++
    (if present "close" then ["session/close"] else []) ++ (if present "delete" then ["session/delete"] else []) ++
    match init.field "authMethods" with
    | some (.arr (_ :: _)) => ["authenticate"]
    | _ => []

/-- `value !== null && value !== undefined` -/
def nonNull : Option Json → Bool
  | none | some .null => false
  | _ => true

def sessionResponseMethods (response : Json) : List String :=
  (if nonNull (response.field "modes") then ["session/set_mode"] else []) ++
    if nonNull (response.field "configOptions") then ["session/set_config_option"] else []

def MUTATING_METHODS : List String := ["session/delete", "session/set_mode", "session/set_config_option"]

/-- The methods that `assertMethodAvailable` is asked for. -/
def GATED_METHODS : List String := ["session/resume", "session/list", "session/close"] ++ MUTATING_METHODS

/-- The cases of `dispatchRequest`. -/
def HOST_METHODS : List String := ["fs/read_text_file", "fs/write_text_file", "session/request_permission"]

def Op.method : Op → String
  | .initializeCall .. => "initialize"
  | .newSession .. => "session/new"
  | .loadSession .. => "session/load"
  | .prompt .. => "session/prompt"
  | .cancel .. => "session/cancel"
  | .resumeSession .. => "session/resume"
  | .listSessions .. => "session/list"
  | .closeSession .. => "session/close"
  | .deleteSession .. => "session/delete"
  | .setSessionMode .. => "session/set_mode"
  | .setSessionConfigOption .. => "session/set_config_option"

/-- The response is one of those that `augmentSessionMethods` reads. -/
def Op.augments : Op → Bool
  | .newSession .. | .loadSession .. | .resumeSession .. => true
  | _ => false

def Op.params (setup : Setup) : Op → Json
  | .initializeCall readTextFile writeTextFile terminal =>
    .obj [("protocolVersion", .num setup.protocolVersion),
      ("clientInfo", .obj [("name", .str "llm-cli-gateway"), ("version", .str setup.gatewayVersion)]),
      ("clientCapabilities", .obj [("fs", .obj [("readTextFile", .bool readTextFile), ("writeTextFile", .bool writeTextFile)]),
        ("terminal", .bool terminal)])]
  | .newSession cwd mcpServers => .obj [("cwd", .str cwd), ("mcpServers", .arr mcpServers)]
  | .loadSession sessionId cwd mcpServers | .resumeSession sessionId cwd mcpServers =>
    .obj [("sessionId", .str sessionId), ("cwd", .str cwd), ("mcpServers", .arr mcpServers)]
  | .prompt sessionId blocks => .obj [("sessionId", .str sessionId), ("prompt", .arr blocks)]
  | .cancel sessionId | .closeSession sessionId | .deleteSession sessionId => .obj [("sessionId", .str sessionId)]
  | .listSessions cursor => .obj (cursor.elim [] fun cursor => [("cursor", .str cursor)])
  | .setSessionMode sessionId modeId => .obj [("sessionId", .str sessionId), ("modeId", .str modeId)]
  | .setSessionConfigOption sessionId configId value =>
    .obj [("sessionId", .str sessionId), ("configId", .str configId), ("value", .str value)]

/-! ## Frames -/

def requestFrame (id : ℕ) (method : String) (params : Json) : Json :=
  .obj [("jsonrpc", .str "2.0"), ("id", .num (toString id)), ("method", .str method), ("params", params)]

def notifyFrame (method : String) (params : Json) : Json :=
  .obj [("jsonrpc", .str "2.0"), ("method", .str method), ("params", params)]

/-- A member that is `undefined` is left out. -/
def resultFrame (id : RequestId) (result : Option Json) : Json :=
  .obj (("jsonrpc", .str "2.0") :: ("id", id.stringify) :: (result.elim [] fun result => [("result", result)]))

def errorObject (code message : String) : Json := .obj [("code", .num code), ("message", .str message)]

def errorFrame (id : RequestId) (code message : String) : Json :=
  .obj [("jsonrpc", .str "2.0"), ("id", id.stringify), ("error", errorObject code message)]

section Texts

variable (setup : Setup) (method : String)

def malformedMessage : String := setup.redactAcpMessage ("Malformed ACP " ++ method ++ " payload")

def unsupportedMessage : String := setup.redactAcpMessage ("Host does not support ACP " ++ method ++ ".")

def unexpectedMessage : String := setup.redactAcpMessage ("ACP request " ++ method ++ " failed unexpectedly.")

/-- The `userMessage` of what `normalizeError` makes of it. -/
def userMessage : HostError → String
  | .acp text => setup.redactAcpMessage text
  | .other _ => unexpectedMessage setup method

end Texts

end Client

open Client

/-! ## The object -/

structure Client where
  /-- the transport has ended: `exitError || closed` -/
  ended : Bool
  initialized : Bool
  initializeResult : Option Json
  methodAvailability : List String
  nextId : ℕ
  /-- the requests that wait for a response, and the responses that an `await` waited for -/
  pending : JsMap ℕ Op
  responses : JsMap ℕ (Op × Option Json)
  nextSerial : ℕ
  /-- the requests of the agent that are in a handler, and how it settled, and whether the transport was open then -/
  handling : JsMap ℕ (AgentRequest × Option (Outcome × Bool))
  log : List Entry

namespace Client

def init : Client where
  ended := false
  initialized := false
  initializeResult := none
  methodAvailability := []
  nextId := 1
  pending := Table.empty
  responses := Table.empty
  nextSerial := 0
  handling := Table.empty
  log := []

section Step

variable (setup : Setup) (c : Client)

def record (e : Entry) : Client := { c with log := c.log ++ [e] }

/-- A terminal event: every pending request is rejected. -/
def terminate : Client := if c.ended then c else { c with ended := true, pending := Table.empty }.record .ended

/-- `writeFrame`: the frame is given to `stdin.write`, which may throw. -/
def writeFrame (e : Entry) (throws : Bool) : Client := if throws then (c.record e).terminate else c.record e

/-- `respond` and `respondError` -/
def respond (serial : ℕ) (request : AgentRequest) (frame : Json) (throws : Bool) : Client :=
  if c.ended then c else c.writeFrame (.answer serial request frame) throws

/-- `transport.request` -/
def send (op : Op) (throws : Bool) : Client :=
  if c.ended then c
  else
    { c with nextId := c.nextId + 1, pending := c.pending.set c.nextId op }.writeFrame
      (.call op.method (requestFrame c.nextId op.method (op.params setup))) throws

def notify (op : Op) (throws : Bool) : Client :=
  if c.ended then c else c.writeFrame (.notify (notifyFrame op.method (op.params setup))) throws

def assertMethodAvailable (method : String) : Bool :=
  c.initialized && decide (method ∈ c.methodAvailability) && (decide (method ∉ MUTATING_METHODS) || setup.allowMutatingSessionOps)

def call (op : Op) (throws : Bool) : Client :=
  match op with
  | .initializeCall .. => if c.initialized && c.initializeResult.isSome then c else c.send setup op throws
  | .cancel .. => c.notify setup op throws
  | .newSession .. | .loadSession .. | .prompt .. => if c.initialized then c.send setup op throws else c
  | _ => if c.assertMethodAvailable setup op.method then c.send setup op throws else c

/-- Answer a request that reaches no handler. -/
def refuse (serial : ℕ) (request : AgentRequest) (code message : String) (throws : Bool) : Client :=
  if c.ended then c
  else (c.respond serial request (errorFrame request.id code message) throws).record (.due serial request)

/-- `dispatchRequest` up to its `await`. -/
def handleRequest (request : AgentRequest) (params : Option Json) (throws : Bool) : Client :=
  let serial := c.nextSerial
  let c := { c with nextSerial := serial + 1 }
  if request.method ∉ HOST_METHODS then c.refuse serial request "-32601" "Method not found" throws
  else if !setup.parseRequest request.method params then
    c.refuse serial request "-32000" (malformedMessage setup request.method) throws
  else if !setup.supports request.method then
    c.refuse serial request "-32000" (unsupportedMessage setup request.method) throws
  else { c with handling := c.handling.set serial (request, none) }

def settle (serial : ℕ) (outcome : Outcome) : Client :=
  match c.handling.get serial with
  | some (request, none) =>
    { c with handling := c.handling.set serial (request, some (outcome, !c.ended)) }.record (.settled serial outcome)
  | _ => c

/-- The frame that answers a request whose handler has settled. -/
def answerFrame (request : AgentRequest) : Outcome → Json
  | .resolved value => resultFrame request.id value
  | .rejected error => errorFrame request.id "-32000" (userMessage setup request.method error)

/-- `dispatchRequest` behind its `await`. -/
def resume (serial : ℕ) (throws : Bool) : Client :=
  match c.handling.get serial with
  | some (request, some (outcome, wasOpen)) =>
    let c' := { c with handling := c.handling.delete serial }.respond serial request (answerFrame setup request outcome) throws
    if wasOpen then c'.record (.due serial request) else c'
  | _ => c

/-- What the response tells of the agent's methods, if its schema accepts it. -/
def advertisement (op : Op) (result : Option Json) : Option Entry :=
  match op with
  | .initializeCall .. => (setup.parseResponse op.method result).map Entry.initializeResponse
  | _ => if op.augments then (setup.parseResponse op.method result).map Entry.sessionResponse else none

/-- `resolveResponse`, for a response without an error. -/
def respondTo (id : ℕ) (result : Option Json) : Client :=
  match c.pending.get id with
  | none => c
  | some op =>
    let c' := { c with pending := c.pending.delete id, responses := c.responses.set id (op, result) }
    match advertisement setup op result with
    | none => c'
    | some e => c'.record e

/-- A request that times out, or is answered with an error. -/
def fail (id : ℕ) : Client := { c with pending := c.pending.delete id }

/-- A call behind its `await`. -/
def proceed (id : ℕ) : Client :=
  match c.responses.get id with
  | none => c
  | some (op, result) =>
    let c' := { c with responses := c.responses.delete id }
    match advertisement setup op result with
    | some (.initializeResponse response) =>
      { c' with
        initialized := true
        initializeResult := some response
        methodAvailability := deriveAcpMethodAvailability response }
    | some (.sessionResponse response) => { c' with methodAvailability := c.methodAvailability ++ sessionResponseMethods response }
    | _ => c'

end Step

inductive Event
  | request (request : AgentRequest) (params : Option Json) (throws : Bool)
  | settle (serial : ℕ) (outcome : Outcome)
  | resume (serial : ℕ) (throws : Bool)
  | call (op : Op) (throws : Bool)
  | response (id : ℕ) (result : Option Json)
  | fail (id : ℕ)
  | proceed (id : ℕ)
  | terminal

def step (setup : Setup) (c : Client) : Event → Client × Unit
  | .request request params throws => (c.handleRequest setup request params throws, ())
  | .settle serial outcome => (c.settle serial outcome, ())
  | .resume serial throws => (c.resume setup serial throws, ())
  | .call op throws => (c.call setup op throws, ())
  | .response id result => (c.respondTo setup id result, ())
  | .fail id => (c.fail id, ())
  | .proceed id => (c.proceed setup id, ())
  | .terminal => (c.terminate, ())

end Client

end LlmGateway.Acp
