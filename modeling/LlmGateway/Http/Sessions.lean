import LlmGateway.Lib.Counting
import LlmGateway.Lib.Run

/-!
# The sessions of the HTTP gateway

`http-transport.ts`: the map of sessions, the reservations of `initialize` requests, and the requests that are counted on a session.

* `SessionEntry`, `Gateway` — the objects; an entry is named by the number of the `initialize` request that made it;
* `Phase` — where a request is: every phase but the last is an `await`;
* `Event`, `step` — an arriving request, an `await` that goes on, a callback of the SDK's transport, a tick of the reaper, the
  shutdown; the output is what was dispatched to a session and what was reaped.

The fields of an entry behind `inFlight`, and `releases`, only record what has happened.
-/

namespace LlmGateway.Http

open LlmGateway.Lib

structure SessionEntry where
  sessionId : Option ℕ
  lastActivityAt : ℤ
  inFlight : ℤ
  /-- the entry is no longer in the map -/
  removed : Bool
  /-- how often `closeSession` has closed the transport, and the server -/
  transportCloses : ℕ
  serverCloses : ℕ
  /-- when the last request that was matched to the session finished, and whether its body could not be read -/
  lastFinish : Option ℤ
  unread : Bool

namespace SessionEntry

variable (e : SessionEntry)

/-- `transport.close()` is called on a session that has left the map. -/
def close : SessionEntry := { e with removed := true, transportCloses := e.transportCloses + 1 }

def closeServer : SessionEntry := { e with serverCloses := e.serverCloses + 1 }

def leave : SessionEntry := { e with removed := true }

/-- A request is counted. -/
def begin (now : ℤ) : SessionEntry := { e with lastActivityAt := now, inFlight := e.inFlight + 1 }

def complete (now : ℤ) : SessionEntry :=
  { e with inFlight := max 0 (e.inFlight - 1), lastActivityAt := now, lastFinish := some now, unread := false }

/-- A request ends that was not counted. -/
def fail (now : ℤ) : SessionEntry := { e with lastFinish := some now, unread := true }

/-- The transport has reported its session id, and the `initialize` request is counted. -/
def initialized (sessionId : ℕ) (now : ℤ) : SessionEntry := { e.begin now with sessionId := some sessionId }

/-- The entry is made. -/
def create (now : ℤ) : SessionEntry := { e with lastActivityAt := now }

end SessionEntry

/-- Where a request is. -/
inductive Phase
  /-- matched to an entry, in `readBody` -/
  | reading (entry : ℕ)
  /-- counted, in `handleRequest` -/
  | serving (entry : ℕ)
  /-- without a session id, in `readBody` -/
  | readingFirst
  /-- with a reservation, in `createSession` -/
  | connecting (entry : ℕ)
  /-- in `handleRequest`; `reservationReleased` is set when the transport reports its session id -/
  | initializing (entry : ℕ) (released : Bool)

/-- The request has a reservation that is not released. -/
def Phase.holds : Phase → Bool
  | .connecting _ | .initializing _ false => true
  | _ => false

/-- The request is counted on the entry. -/
def Phase.serves (i : ℕ) : Phase → Bool
  | .serving j | .initializing j true => j == i
  | _ => false

/-- The request is for the entry. -/
def Phase.isFor (i : ℕ) : Phase → Bool
  | .reading j => j == i
  | p => p.serves i

structure Limits where
  maxSessions : ℕ
  sessionIdleTtlMs : ℤ

structure Gateway where
  sessions : JsMap ℕ ℕ
  entries : ℕ → SessionEntry
  pendingInitializes : ℤ
  requests : JsMap ℕ Phase
  nextRequest : ℕ
  nextSessionId : ℕ
  /-- the calls of `closeSession` that wait for `transport.close()` -/
  closings : JsMap ℕ ℕ
  nextClosing : ℕ
  reaping : Bool
  /-- how often a request has released its reservation, if it had one -/
  releases : ℕ → Option ℕ

namespace Gateway

def init : Gateway where
  sessions := Table.empty
  entries := fun _ => ⟨none, 0, 0, false, 0, 0, none, false⟩
  pendingInitializes := 0
  requests := Table.empty
  nextRequest := 0
  nextSessionId := 0
  closings := Table.empty
  nextClosing := 0
  reaping := true
  releases := fun _ => none

/-- What is dispatched to a session, and what is reaped. -/
inductive Act
  | dispatched (entry : ℕ)
  | reaped (entry : ℕ) (now : ℤ)

inductive Event
  | delete (sessionId : ℕ)
  | get (sessionId : ℕ) (now : ℤ)
  | post (sessionId : ℕ)
  /-- a POST without a session id -/
  | first
  /-- `readBody` returns or throws; the body is an `initialize` request; `createGatewayServer` returns -/
  | body (request : ℕ) (read isInitialize created : Bool) (now : ℤ)
  | connected (request : ℕ) (ok : Bool)
  | sessionInitialized (request : ℕ) (now : ℤ)
  /-- `handleRequest` returns or throws -/
  | handled (request : ℕ) (now : ℤ)
  /-- the transport closes itself -/
  | onclose (entry : ℕ)
  | tick (now : ℤ)
  | shutdown
  /-- `transport.close()` returns or throws in a call of `closeSession` -/
  | transportClosed (closing : ℕ)

section Step

variable (limits : Limits) (g : Gateway)

def modify (i : ℕ) (f : SessionEntry → SessionEntry) : Gateway :=
  { g with entries := Function.update g.entries i (f (g.entries i)) }

/-- `closeSession` up to its first `await`. -/
def closeSession (sessionId : ℕ) : Gateway :=
  match g.sessions.get sessionId with
  | none => g
  | some i =>
    { g.modify i SessionEntry.close with
      sessions := g.sessions.delete sessionId
      closings := g.closings.set g.nextClosing i
      nextClosing := g.nextClosing + 1 }

/-- `closeSession` behind it. -/
def closeServer (closing : ℕ) : Gateway :=
  match g.closings.get closing with
  | none => g
  | some i =>
    { g.modify i SessionEntry.closeServer with closings := g.closings.delete closing }

def touchSessionComplete (i : ℕ) (now : ℤ) : Gateway := g.modify i (·.complete now)

def releaseInitializeReservation (request : ℕ) (released : Bool) : Gateway :=
  if released then g
  else
    { g with
      pendingInitializes := max 0 (g.pendingInitializes - 1)
      releases := Function.update g.releases request ((g.releases request).map (· + 1)) }

/-- The request is counted, and dispatched. -/
def serve (request i : ℕ) (now : ℤ) : Gateway :=
  { g.modify i (·.begin now) with requests := g.requests.set request (.serving i) }

/-- `readBody` throws: nothing is counted. -/
def failBody (request i : ℕ) (now : ℤ) : Gateway :=
  { g.modify i (·.fail now) with requests := g.requests.delete request }

/-- A first request whose body was read. -/
def reserve (request : ℕ) (isInitialize created : Bool) (now : ℤ) : Gateway :=
  if !isInitialize || decide ((limits.maxSessions : ℤ) ≤ g.sessions.size + g.pendingInitializes) then
    { g with requests := g.requests.delete request }
  else
    let g' : Gateway :=
      { g with
        pendingInitializes := g.pendingInitializes + 1
        releases := Function.update g.releases request (some 0) }
    if created then
      { g'.modify request (·.create now) with requests := g.requests.set request (.connecting request) }
    else { g'.releaseInitializeReservation request false with requests := g.requests.delete request }

def body (request : ℕ) (read isInitialize created : Bool) (now : ℤ) : Gateway × List Act :=
  match g.requests.get request with
  | some (.reading i) => if read then (g.serve request i now, [.dispatched i]) else (g.failBody request i now, [])
  | some .readingFirst =>
    if read then (g.reserve limits request isInitialize created now, [])
    else ({ g with requests := g.requests.delete request }, [])
  | _ => (g, [])

def connected (request : ℕ) (ok : Bool) : Gateway × List Act :=
  match g.requests.get request with
  | some (.connecting i) =>
    if ok then ({ g with requests := g.requests.set request (.initializing i false) }, [.dispatched i])
    else ({ g.releaseInitializeReservation request false with requests := g.requests.delete request }, [])
  | _ => (g, [])

/-- The transport has one session id. -/
def onSessionInitialized (request : ℕ) (now : ℤ) : Gateway :=
  match g.requests.get request with
  | some (.initializing i false) =>
    let g' := g.releaseInitializeReservation request false
    { g'.modify i (·.initialized g.nextSessionId now) with
      sessions := g.sessions.set g.nextSessionId i
      nextSessionId := g.nextSessionId + 1
      requests := g.requests.set request (.initializing i true) }
  | _ => g

/-- The entry is the one of the map under its session id. -/
def isOpen (i : ℕ) : Bool := (g.entries i).sessionId.any fun sessionId => g.sessions.get sessionId == some i

/-- The `finally` of the two calls of `handleRequest`. -/
def handled (request : ℕ) (now : ℤ) : Gateway :=
  match g.requests.get request with
  | some (.serving i) => { g.touchSessionComplete i now with requests := g.requests.delete request }
  | some (.initializing i released) =>
    let g' := g.releaseInitializeReservation request released
    let g' := if g.isOpen i && decide (0 < (g.entries i).inFlight) then g'.touchSessionComplete i now else g'
    { g' with requests := g.requests.delete request }
  | _ => g

def onclose (i : ℕ) : Gateway :=
  match (g.entries i).sessionId with
  | none => g
  | some sessionId =>
    match g.sessions.get sessionId with
    | none => g
    | some j => { g.modify j SessionEntry.leave with sessions := g.sessions.delete sessionId }

/-- The reaper closes the session. -/
def idle (now : ℤ) (i : ℕ) : Bool :=
  decide ((g.entries i).inFlight ≤ 0) && decide (limits.sessionIdleTtlMs ≤ now - (g.entries i).lastActivityAt)

/-- The loops of the reaper and of the shutdown, over the ids of sessions. -/
def closeSessions (sessionIds : List ℕ) : Gateway := sessionIds.foldl closeSession g

def idleSessions (now : ℤ) : List (ℕ × ℕ) := g.sessions.rows.filter fun e => g.idle limits now e.2

def step : Event → Gateway × List Act
  | .delete sessionId => ({ g.closeSession sessionId with nextRequest := g.nextRequest + 1 }, [])
  | .get sessionId now =>
    match g.sessions.get sessionId with
    | none => ({ g with nextRequest := g.nextRequest + 1 }, [])
    | some i => ({ g.serve g.nextRequest i now with nextRequest := g.nextRequest + 1 }, [.dispatched i])
  | .post sessionId =>
    match g.sessions.get sessionId with
    | none => ({ g with nextRequest := g.nextRequest + 1 }, [])
    | some i =>
      ({ g with requests := g.requests.set g.nextRequest (.reading i), nextRequest := g.nextRequest + 1 }, [])
  | .first => ({ g with requests := g.requests.set g.nextRequest .readingFirst, nextRequest := g.nextRequest + 1 }, [])
  | .body request read isInitialize created now => g.body limits request read isInitialize created now
  | .connected request ok => g.connected request ok
  | .sessionInitialized request now => (g.onSessionInitialized request now, [])
  | .handled request now => (g.handled request now, [])
  | .onclose i => (g.onclose i, [])
  | .tick now =>
    if g.reaping then
      (g.closeSessions ((g.idleSessions limits now).map Prod.fst), (g.idleSessions limits now).map fun e => .reaped e.2 now)
    else (g, [])
  | .shutdown => ({ g with reaping := false }.closeSessions (g.sessions.rows.map Prod.fst), [])
  | .transportClosed closing => (g.closeServer closing, [])

end Step

end Gateway

end LlmGateway.Http
