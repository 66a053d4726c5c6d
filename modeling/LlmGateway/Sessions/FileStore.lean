import LlmGateway.Sessions.Rows

/-!
# The file session store

`FileSessionManager` of `session-manager.ts`.  Every public operation takes the storage lock, reads the file again and
then works on what it read; the operations are therefore atomic, and each of them is here a function of the storage that
was read.

* `Hold` — what an operation works on: the storage in memory, and what it last wrote with `saveStorage`;
* `normaliseStorage`, `Manager`, `step` — reading the file, and one operation on the file and the memory of a manager.

An operation reads the clock once.  A row without a generation is given one when the manager opens the file; the model
begins there.  Cleanup hooks and removal observers are left out.
-/

namespace LlmGateway.Sessions.FileStore

open LlmGateway.Lib Utf16 Sessions.Kit IsoTime

/-! ## What an operation works on -/

/-- The storage in memory, and the storage last written. -/
structure Hold (α : Type) where
  storage : Storage α
  saved : Option (Storage α)

inductive Reply (α : Type) where
  | threw
  | done
  | bool (value : Bool)
  | session (value : Option (Session α))
  | sessions (value : List (Session α))
  | count (value : ℕ)
  | texts (value : List Text)

section Hold

variable {α : Type}

def Reply.isTrue : Reply α → Bool
  | bool true => true
  | _ => false

def Hold.put (h : Hold α) (s : Storage α) : Hold α := { h with storage := s }

def Hold.saveStorage (h : Hold α) : Hold α := { h with saved := some h.storage }

end Hold

section Expiry

variable {α : Type} (cfg : Config) (q : Request)

def isExpired (s : Storage α) (session : Session α) : Bool :=
  if session.isPendingWorktreeDeletion then false
  else if (getKitSessionBinding cfg session).any (fun b => b.attempt.isSome || b.resumeEligible) ||
      s.hasActiveKitPointer session.id then false
  else
    match cfg.dateParse session.lastUsedAt with
    | none => true
    | some ts => decide (cfg.sessionTtlMs < q.now - ts)

/-- The loop of `evictExpiredSessions`: the storage it leaves, and what it removed. -/
def evictLoop : List (Session α) → Storage α → Storage α × List (Session α)
  | [], s => (s, [])
  | session :: rest, s =>
    if isExpired cfg q s session then
      let out := evictLoop rest (s.removeOrStage session)
      (out.1, session :: out.2)
    else evictLoop rest s

def evictExpiredSessions (h : Hold α) : Hold α :=
  let out := evictLoop cfg q h.storage.sessions.rows h.storage
  if out.2.isEmpty then h else (h.put out.1).saveStorage

/-- An eviction has no `caller`. -/
def removeSessionRow (sessionId : Text) (caller : Option Text) (h : Hold α) : Bool × Hold α :=
  match h.storage.sessions.get sessionId with
  | none => (false, h)
  | some session =>
    if session.isPendingWorktreeDeletion then (false, h)
    else if caller.any fun c => !principalCanAccess session.ownerPrincipal c then (false, h)
    else if (getKitSessionBinding cfg session).any fun b => b.attempt.isSome then (false, h)
    else (true, (h.put (h.storage.removeOrStage session)).saveStorage)

def evictSessionRow (sessionId : Text) (h : Hold α) : Hold α := (removeSessionRow cfg sessionId none h).2

end Expiry

/-! ## Creating sessions -/

section Create

variable {α : Type} (cfg : Config) (q : Request)

/-- The row `createSession` writes. -/
def newSession (cli : Text) (description sessionId : Option Text) (metadata : Option (Metadata α)) : Session α where
  id := (truthy sessionId).getD q.id
  cli := cli
  createdAt := text (isoText q.now)
  lastUsedAt := text (isoText q.now)
  description := some (description.getD (defaultSessionDescription cfg cli))
  metadata := metadata
  ownerPrincipal := some q.principal
  generation := q.generation

def createSession (cli : Text) (description sessionId : Option Text) (kitBinding : Option KitSessionBinding)
    (initialMetadata : Option (Metadata α)) (h : Hold α) : Reply α × Hold α :=
  if initialMetadata.any fun metadata => (metadata.get kitKey).isSome then (.threw, h)
  else if kitBinding.isSome && initialMetadata.isSome then (.threw, h)
  else
    let h := evictExpiredSessions cfg q h
    if (h.storage.sessions.get ((truthy sessionId).getD q.id)).isSome then (.threw, h)
    else
      match kitBinding with
      | some binding =>
        match cloneKitSessionBinding cfg.dateParse binding with
        | none => (.threw, h)
        | some cloned =>
          let session := newSession cfg q cli description sessionId (some (JsMap.set Table.empty kitKey (.binding cloned)))
          let h := h.put (h.storage.setSession session)
          match kitActiveSessionKey cloned.execution.scopeRoot cloned.execution q.principal with
          | none => (.threw, h)
          | some scope =>
            let h :=
              if (truthy (h.storage.kitPointer cli scope)).isSome then h
              else h.put (h.storage.setKitPointer cli scope session.id)
            (.session (some session), h.saveStorage)
      | none =>
        let session := newSession cfg q cli description sessionId initialMetadata
        let h := h.put (h.storage.setSession session)
        let h :=
          if (truthy (h.storage.active cli)).isSome then h
          else h.put (h.storage.setActive cli (some session.id))
        (.session (some session), h.saveStorage)

def createSessionWithMetadata (cli : Text) (description : Option Text) (sessionId : Text) (metadata : Metadata α)
    (h : Hold α) : Reply α × Hold α :=
  createSession cfg q cli description (some sessionId) none (some metadata) h

def createKitSession (cli : Text) (binding : KitSessionBinding) (description sessionId : Option Text) (h : Hold α) :
    Reply α × Hold α :=
  createSession cfg q cli description sessionId (some binding) none h

/-- The row a Kit pointer leads to, when the request may have it; `none` is a TypeError. -/
def reusable (cli : Text) (requested : KitSessionBinding) (s : Storage α) (activeSessionId : Text) :
    Option (Option (Session α)) :=
  match s.sessions.get activeSessionId with
  | none => some none
  | some active =>
    if active.isPendingWorktreeDeletion ∨ isExpired cfg q s active then some none
    else (sessionMatchesKitBinding cfg active cli requested q.principal).map fun b => if b then some active else none

/-- `getOrCreateKitSession`, after the pointer has been looked at. -/
def adoptOrCreate (cli : Text) (requested : KitSessionBinding) (scope : Text)
    (description sessionId : Option Text) (h : Hold α) : Reply α × Hold α :=
  match (truthy sessionId).bind h.storage.sessions.get with
  | some identified =>
    if identified.isPendingWorktreeDeletion then (.threw, h)
    else if sessionMatchesKitBinding cfg identified cli requested q.principal = some true then
      (.session (some identified), (h.put (h.storage.setKitPointer cli scope identified.id)).saveStorage)
    else (.threw, h)
  | none => createSession cfg q cli description sessionId (some requested) none h

def getOrCreateKitSession (cli : Text) (binding : KitSessionBinding) (description sessionId : Option Text)
    (h : Hold α) : Reply α × Hold α :=
  match cloneKitSessionBinding cfg.dateParse binding with
  | none => (.threw, h)
  | some requested =>
    let h := evictExpiredSessions cfg q h
    match kitActiveSessionKey requested.execution.scopeRoot requested.execution q.principal with
    | none => (.threw, h)
    | some scope =>
      match truthy (h.storage.kitPointer cli scope) with
      | none => adoptOrCreate cfg q cli requested scope description sessionId h
      | some activeSessionId =>
        match reusable cfg q cli requested h.storage activeSessionId with
        | none => (.threw, h)
        | some (some active) => (.session (some active), h)
        | some none =>
          adoptOrCreate cfg q cli requested scope description sessionId
            (h.put (h.storage.dropKitPointer cli scope)).saveStorage

end Create

/-! ## Attempts -/

section Attempts

variable {α : Type} (cfg : Config) (q : Request)

/-- `none` is a TypeError. -/
def getExactKitSession (cli : Text) (scopeRoot : Option Text) (execution : KitExecutionRef) (sessionId : Text)
    (h : Hold α) : Option (Option (Session α × KitSessionBinding)) × Hold α :=
  if execution.scopeRoot ≠ scopeRoot then (some none, h)
  else
    match h.storage.sessions.get sessionId with
    | none => (some none, h)
    | some session =>
      if session.isPendingWorktreeDeletion then (some none, h)
      else if isExpired cfg q h.storage session then (some none, evictSessionRow cfg sessionId h)
      else
        match getKitSessionBinding cfg session with
        | none => (some none, h)
        | some binding =>
          if session.cli ≠ cli ∨ !principalCanAccess session.ownerPrincipal q.principal then (some none, h)
          else
            ((sameKitExecutionRef binding.execution execution).map fun same =>
              if same then some (session, binding) else none, h)

/-- Write a binding into a session of the storage. -/
def Hold.saveKit (h : Hold α) (session : Session α) (binding : KitSessionBinding) : Hold α :=
  (h.put (h.storage.setSession (session.setKit binding))).saveStorage

def claimKitSessionAttempt (cli : Text) (scopeRoot : Option Text) (execution : KitExecutionRef) (sessionId : Text)
    (attempt : KitSessionAttempt) (h : Hold α) : Reply α × Hold α :=
  if execution.scopeRoot ≠ scopeRoot then (.bool false, h)
  else
    match cloneKitSessionAttempt cfg.dateParse attempt with
    | none => (.threw, h)
    | some nextAttempt =>
      if !isKitSessionAttemptActive cfg.dateParse nextAttempt q.now then (.bool false, h)
      else
        match getExactKitSession cfg q cli scopeRoot execution sessionId h with
        | (none, h) => (.threw, h)
        | (some none, h) => (.bool false, h)
        | (some (some (session, binding)), h) =>
          if binding.attempt.isSome then (.bool false, h)
          else if binding.nativeSessionId ≠ nextAttempt.expectedNativeSessionId then (.bool false, h)
          else (.bool true, h.saveKit session { binding with attempt := some nextAttempt })

/-- `Date.parse(left) <= Date.parse(right)`, of two times that parse. -/
def parsesAtMost (left right : Text) : Bool :=
  match cfg.dateParse left, cfg.dateParse right with
  | some l, some r => decide (l ≤ r)
  | _, _ => false

def renewKitSessionAttempt (cli : Text) (scopeRoot : Option Text) (execution : KitExecutionRef)
    (sessionId attemptId expiresAt : Text) (h : Hold α) : Reply α × Hold α :=
  if execution.scopeRoot ≠ scopeRoot ∨ !isNonEmptyString attemptId then (.bool false, h)
  else
    match getExactKitSession cfg q cli scopeRoot execution sessionId h with
    | (none, h) => (.threw, h)
    | (some none, h) => (.bool false, h)
    | (some (some (session, binding)), h) =>
      match binding.attempt with
      | none => (.bool false, h)
      | some currentAttempt =>
        if currentAttempt.id ≠ attemptId then (.bool false, h)
        else
          match cloneKitSessionAttempt cfg.dateParse { currentAttempt with expiresAt := expiresAt } with
          | none => (.threw, h)
          | some renewedAttempt =>
            if !isKitSessionAttemptActive cfg.dateParse renewedAttempt q.now ||
                parsesAtMost cfg renewedAttempt.expiresAt currentAttempt.expiresAt then (.bool false, h)
            else (.bool true, h.saveKit session { binding with attempt := some renewedAttempt })

def releaseKitSessionAttempt (cli : Text) (scopeRoot : Option Text) (execution : KitExecutionRef)
    (sessionId attemptId : Text) (h : Hold α) : Reply α × Hold α :=
  if execution.scopeRoot ≠ scopeRoot ∨ !isNonEmptyString attemptId then (.bool false, h)
  else
    match getExactKitSession cfg q cli scopeRoot execution sessionId h with
    | (none, h) => (.threw, h)
    | (some none, h) => (.bool false, h)
    | (some (some (session, binding)), h) =>
      if binding.attempt.any fun a => a.id = attemptId then
        (.bool true, h.saveKit session { binding with attempt := none })
      else (.bool false, h)

def updateKitSessionBinding (sessionId : Text) (binding : KitSessionBinding) (expectedAttemptId : Option Text)
    (h : Hold α) : Reply α × Hold α :=
  match h.storage.sessions.get sessionId with
  | none => (.bool false, h)
  | some session =>
    if session.isPendingWorktreeDeletion then (.bool false, h)
    else if isExpired cfg q h.storage session then (.bool false, evictSessionRow cfg sessionId h)
    else
      match cloneKitSessionBinding cfg.dateParse binding with
      | none => (.threw, h)
      | some next =>
        match getKitSessionBinding cfg session with
        | none => (.bool false, h)
        | some existing =>
          match sameKitExecutionRef existing.execution next.execution with
          | none => (.threw, h)
          | some false => (.bool false, h)
          | some true =>
            match expectedAttemptId with
            | none => if existing.attempt.isSome then (.bool false, h) else (.bool true, h.saveKit session next)
            | some expected =>
              if !isNonEmptyString expected || !principalCanAccess session.ownerPrincipal q.principal ||
                  !existing.attempt.any (fun a => a.id = expected ∧ existing.nativeSessionId = a.expectedNativeSessionId)
              then (.bool false, h)
              else (.bool true, h.saveKit session next)

end Attempts

/-! ## Reads, pointers and removal -/

section Rest

variable {α : Type} (cfg : Config) (q : Request)

def getSession (sessionId : Text) (h : Hold α) : Reply α × Hold α :=
  match h.storage.sessions.get sessionId with
  | none => (.session none, h)
  | some session =>
    if session.isPendingWorktreeDeletion then (.session none, h)
    else if isExpired cfg q h.storage session then (.session none, evictSessionRow cfg sessionId h)
    else (.session (some session), h)

/-- The sessions a listing shows. -/
def Storage.listed (s : Storage α) (cli : Option Text) : List (Session α) :=
  s.sessions.rows.filter fun session => !session.isPendingWorktreeDeletion && (truthy cli).all (session.cli = ·)

def listSessions (cli : Option Text) (h : Hold α) : Reply α × Hold α :=
  let h := evictExpiredSessions cfg q h
  (.sessions (h.storage.listed cli), h)

/-- The hidden rows of one host, or of all. -/
def Storage.pending (s : Storage α) (ownerHostname : Option Text) : List (Session α) :=
  s.sessions.rows.filter fun session => session.isPendingWorktreeDeletion && ownerHostname.all fun hostname =>
    match session.metadata.bind fun metadata => metadata.get (text "worktreeOwnerHostname") with
    | some (.text t) => t = hostname
    | _ => false

def listPendingWorktreeCleanupSessions (ownerHostname : Option Text) (h : Hold α) : Reply α × Hold α :=
  (.sessions (h.storage.pending ownerHostname), h)

def deleteSession (sessionId : Text) (h : Hold α) : Reply α × Hold α :=
  let out := removeSessionRow cfg sessionId (some q.principal) h
  (.bool out.1, out.2)

def setActiveSession (cli : Text) (sessionId : Option Text) (h : Hold α) : Reply α × Hold α :=
  match sessionId with
  | none => (.bool true, (h.put (h.storage.setActive cli none)).saveStorage)
  | some id =>
    match h.storage.sessions.get id with
    | none => (.bool false, h)
    | some session =>
      if session.isPendingWorktreeDeletion then (.bool false, h)
      else if isExpired cfg q h.storage session then (.bool false, evictSessionRow cfg id h)
      else if session.cli ≠ cli ∨ !principalCanAccess session.ownerPrincipal q.principal then (.bool false, h)
      else (.bool true, (h.put (h.storage.setActive cli (some id))).saveStorage)

def getActiveSession (cli : Text) (h : Hold α) : Reply α × Hold α :=
  match truthy (h.storage.active cli) with
  | none => (.session none, h)
  | some sessionId =>
    match h.storage.sessions.get sessionId with
    | none => (.session none, (h.put (h.storage.setActive cli none)).saveStorage)
    | some session =>
      if session.isPendingWorktreeDeletion then (.session none, (h.put (h.storage.setActive cli none)).saveStorage)
      else if isExpired cfg q h.storage session then
        (.session none, (h.put ((h.storage.setActive cli none).removeOrStage session)).saveStorage)
      else (.session (some session), h)

/-- `setActiveKitSessionId` and the reply of `setActiveKitSession`. -/
def pointKit (cli : Text) (scopeRoot sessionId : Option Text) (execution : KitExecutionRef) (ownerPrincipal : Text)
    (h : Hold α) : Reply α × Hold α :=
  match kitActiveSessionKey scopeRoot execution ownerPrincipal with
  | none => (.threw, h)
  | some scope =>
    let s :=
      match sessionId with
      | none => h.storage.dropKitPointer cli scope
      | some id => h.storage.setKitPointer cli scope id
    (.bool true, (h.put s).saveStorage)

def setActiveKitSession (cli : Text) (scopeRoot sessionId : Option Text) (expectedExecution : Option KitExecutionRef)
    (h : Hold α) : Reply α × Hold α :=
  if expectedExecution.any fun e => e.scopeRoot ≠ scopeRoot then (.bool false, h)
  else
    match sessionId with
    | none =>
      match expectedExecution with
      | none => (.bool false, h)
      | some execution => pointKit cli scopeRoot none execution q.principal h
    | some id =>
      match h.storage.sessions.get id with
      | none => (.bool false, h)
      | some session =>
        if session.isPendingWorktreeDeletion then (.bool false, h)
        else if isExpired cfg q h.storage session then (.bool false, evictSessionRow cfg id h)
        else
          match getKitSessionBinding cfg session with
          | none => (.bool false, h)
          | some binding =>
            if session.cli ≠ cli ∨ binding.execution.scopeRoot ≠ scopeRoot then (.bool false, h)
            else
              match expectedExecution.elim (some true) (sameKitExecutionRef binding.execution) with
              | none => (.threw, h)
              | some false => (.bool false, h)
              | some true =>
                if !principalCanAccess session.ownerPrincipal q.principal then (.bool false, h)
                else pointKit cli scopeRoot (some id) binding.execution (session.ownerPrincipal.getD q.principal) h

/-- `getActiveKitSession`, of a pointer to a row that is not, or no longer, a session of the execution. -/
def dropStaleKit (cli scope : Text) (expired : Option (Session α)) (h : Hold α) : Reply α × Hold α :=
  let s := h.storage.dropKitPointer cli scope
  (.session none, (h.put (expired.elim s s.removeOrStage)).saveStorage)

def getActiveKitSession (cli : Text) (scopeRoot : Option Text) (expectedExecution : Option KitExecutionRef)
    (h : Hold α) : Reply α × Hold α :=
  match expectedExecution.filter fun e => e.scopeRoot = scopeRoot with
  | none => (.session none, h)
  | some execution =>
    match kitActiveSessionKey scopeRoot execution q.principal with
    | none => (.threw, h)
    | some scope =>
      match truthy (h.storage.kitPointer cli scope) with
      | none => (.session none, h)
      | some sessionId =>
        match h.storage.sessions.get sessionId with
        | none => dropStaleKit cli scope none h
        | some session =>
          let binding := getKitSessionBinding cfg session
          let current := binding.any fun b => session.cli = cli ∧ b.execution.scopeRoot = scopeRoot
          match (binding.filter fun _ => current).elim (some true) fun b => sameKitExecutionRef b.execution execution with
          | none => (.threw, h)
          | some false => (.session none, h)
          | some true =>
            if session.isPendingWorktreeDeletion then dropStaleKit cli scope none h
            -- the pointer goes first, so that the session is looked at again without it
            else if isExpired cfg q h.storage session || !current then
              dropStaleKit cli scope
                (if isExpired cfg q (h.storage.dropKitPointer cli scope) session then some session else none) h
            else if !principalCanAccess session.ownerPrincipal q.principal then (.session none, h)
            else (.session (some session), h)

def clearActiveKitSessionIfCurrent (cli : Text) (scopeRoot : Option Text) (execution : KitExecutionRef)
    (sessionId : Text) (h : Hold α) : Reply α × Hold α :=
  if execution.scopeRoot ≠ scopeRoot then (.bool false, h)
  else
    let h := evictExpiredSessions cfg q h
    match kitActiveSessionKey scopeRoot execution q.principal with
    | none => (.threw, h)
    | some scope =>
      if h.storage.kitPointer cli scope ≠ some sessionId then (.bool false, h)
      else
        match h.storage.sessions.get sessionId with
        | none => (.bool false, h)
        | some session =>
          if session.isPendingWorktreeDeletion then (.bool false, h)
          else if session.cli ≠ cli ∨ !principalCanAccess session.ownerPrincipal q.principal then (.bool false, h)
          else
            match getKitSessionBinding cfg session with
            | none => (.bool false, h)
            | some binding =>
              match sameKitExecutionRef binding.execution execution with
              | none => (.threw, h)
              | some false => (.bool false, h)
              | some true => (.bool true, (h.put (h.storage.dropKitPointer cli scope)).saveStorage)

def clearAllSessions (cli : Option Text) (h : Hold α) : Reply α × Hold α :=
  let sessionsToDelete := h.storage.sessions.rows.filter fun session =>
    (truthy cli).all (session.cli = ·) && !session.isPendingWorktreeDeletion &&
      !(getKitSessionBinding cfg session).any fun b => b.attempt.isSome
  (.count sessionsToDelete.length, (h.put (sessionsToDelete.foldl Storage.removeOrStage h.storage)).saveStorage)

def getPinnedKitReleaseIds (h : Hold α) : Reply α × Hold α :=
  let h := evictExpiredSessions cfg q h
  let pins := h.storage.sessions.rows.filterMap fun session =>
    ((getKitSessionBinding cfg session).filter fun b => b.resumeEligible || b.attempt.isSome).map fun b =>
      b.execution.releaseId
  (.texts (pins.dedup.mergeSort fun a b => decide (a ≤ b)), h)

/-! ## Usage and metadata -/

def updateSessionUsage (sessionId : Text) (h : Hold α) : Reply α × Hold α :=
  match h.storage.sessions.get sessionId with
  | none => (.bool false, h)
  | some session =>
    if session.isPendingWorktreeDeletion then (.bool false, h)
    else
      (.bool true,
        (h.put (h.storage.setSession { session with lastUsedAt := text (isoText q.now) })).saveStorage)

def updateSessionMetadata (sessionId : Text) (metadata : Metadata α) (h : Hold α) : Reply α × Hold α :=
  if (metadata.get kitKey).isSome then (.bool false, h)
  else
    match h.storage.sessions.get sessionId with
    | none => (.bool false, h)
    | some session =>
      if session.isPendingWorktreeDeletion then (.bool false, h)
      else
        let session := { session with metadata := some ((session.metadata.getD Table.empty).assign metadata) }
        let session :=
          if isExpired cfg q h.storage session then { session with lastUsedAt := text (isoText q.now) } else session
        (.bool true, (h.put (h.storage.setSession session)).saveStorage)

variable [DecidableEq α]

/-- `isDeepStrictEqual` of two metadata objects, an absent one being empty. -/
def sameMetadata (left right : Option (Metadata α)) : Bool := (left.getD Table.empty).agree (right.getD Table.empty)

/-- The row is the generation of the identity, with the expected metadata. -/
def Session.isGeneration (session : Session α) (identity : SessionGenerationIdentity)
    (expectedMetadata : Option (Metadata α)) : Bool :=
  session.cli = identity.cli && session.ownerPrincipal = identity.ownerPrincipal &&
    session.createdAt = identity.createdAt && session.generation = identity.generation &&
    sameMetadata session.metadata expectedMetadata

def compareAndSetSession (identity : SessionGenerationIdentity) (mutation : SessionCompareAndSetMutation α)
    (h : Hold α) : Reply α × Hold α :=
  match h.storage.sessions.get identity.id with
  | none => (.bool false, h)
  | some session =>
    if session.isPendingWorktreeDeletion then (.bool false, h)
    else
      match mutation with
      | .replaceMetadata expectedMetadata metadata =>
        let kit := metadata.bind fun metadata => metadata.get kitKey
        if !session.isGeneration identity expectedMetadata then (.bool false, h)
        else if session.kit ≠ kit ∨ !kit.all (Value.isKitSessionBinding cfg) then (.bool false, h)
        else (.bool true, (h.put (h.storage.setSession { session with metadata := metadata })).saveStorage)
      | .delete expectedMetadata =>
        if !session.isGeneration identity expectedMetadata then (.bool false, h)
        else if (getKitSessionBinding cfg session).any fun b => b.attempt.isSome then (.bool false, h)
        else (.bool true, (h.put (h.storage.removeOrStage session)).saveStorage)

def finalizePendingWorktreeCleanup (session : Session α) (h : Hold α) : Reply α × Hold α :=
  match h.storage.sessions.get session.id with
  | none => (.bool false, h)
  | some current =>
    if !current.isPendingWorktreeDeletion ∨ current.generation ≠ session.generation ∨
        !sameMetadata current.metadata session.metadata then (.bool false, h)
    else (.bool true, (h.put (h.storage.deleteSession session.id)).saveStorage)

end Rest

/-! ## Reading the file -/

section Read

variable {α : Type} (cfg : Config)

def acceptsSession (session : Session α) : Bool :=
  isNonEmptyString session.id && isNonEmptyString session.cli && isNonEmptyString session.createdAt &&
    isNonEmptyString session.lastUsedAt && session.ownerPrincipal.all isNonEmptyString &&
    isNonEmptyString session.generation && session.kit.all (Value.isKitSessionBinding cfg)

/-- A row that is accepted, its binding replaced by the canonical copy. -/
def canonicalSession (session : Session α) : Session α := (getKitSessionBinding cfg session).elim session session.setKit

theorem canonicalSession_id (session : Session α) : (canonicalSession cfg session).id = session.id := by
  unfold canonicalSession
  cases getKitSessionBinding cfg session <;> rfl

def readOwner (session : Session α) : Text := (session.ownerPrincipal.filter isNonEmptyString).getD (text "local")

/-- One pointer of a provider, added to those before it. -/
def normalisePointer (s : Storage α) (cli : Text) (pointers : JsMap Text Text) (e : Text × Text) :
    Option (JsMap Text Text) := do
  let session ← (s.sessions.get e.2).filter fun session => isNonEmptyString e.2 ∧ session.cli = cli
  let binding ← getKitSessionBinding cfg session
  let canonical ← canonicalizeKitActiveSessionPointerKey e.1 binding.execution (readOwner session)
  if (pointers.get canonical).all (· = e.2) then some (pointers.set canonical e.2) else none

/-- The pointers of one provider, added to those before them. -/
def normalisePointers (s : Storage α) (kit : JsMap Text (JsMap Text Text)) (e : Text × JsMap Text Text) :
    Option (JsMap Text (JsMap Text Text)) :=
  if isNonEmptyString e.1 then (e.2.rows.foldlM (normalisePointer cfg s e.1) Table.empty).map (kit.set e.1) else none

/-- `none` where the reader throws. -/
def normaliseStorage (s : Storage α) : Option (Storage α) :=
  if s.sessions.rows.all (acceptsSession cfg) &&
      s.activeSession.rows.all fun e => isNonEmptyString e.1 && e.2.all isNonEmptyString then
    (s.activeKitSession.rows.foldlM (normalisePointers cfg s) Table.empty).map fun kit => {
      sessions := s.sessions.update (fun _ => true) (canonicalSession cfg) (canonicalSession_id cfg)
      activeSession := createEmptyActiveSessions.assign s.activeSession
      activeKitSession := kit }
  else none

end Read

/-! ## Managers -/

section Manager

variable {α : Type} (cfg : Config)

/-- The public operations, with their arguments. -/
inductive Call (α : Type) where
  | createSession (cli : Text) (description sessionId : Option Text) (kitBinding : Option KitSessionBinding)
      (initialMetadata : Option (Metadata α))
  | createSessionWithMetadata (cli : Text) (description : Option Text) (sessionId : Text) (metadata : Metadata α)
  | createKitSession (cli : Text) (binding : KitSessionBinding) (description sessionId : Option Text)
  | getOrCreateKitSession (cli : Text) (binding : KitSessionBinding) (description sessionId : Option Text)
  | clearActiveKitSessionIfCurrent (cli : Text) (scopeRoot : Option Text) (execution : KitExecutionRef) (sessionId : Text)
  | claimKitSessionAttempt (cli : Text) (scopeRoot : Option Text) (execution : KitExecutionRef) (sessionId : Text)
      (attempt : KitSessionAttempt)
  | renewKitSessionAttempt (cli : Text) (scopeRoot : Option Text) (execution : KitExecutionRef)
      (sessionId attemptId expiresAt : Text)
  | releaseKitSessionAttempt (cli : Text) (scopeRoot : Option Text) (execution : KitExecutionRef)
      (sessionId attemptId : Text)
  | updateKitSessionBinding (sessionId : Text) (binding : KitSessionBinding) (expectedAttemptId : Option Text)
  | getSession (sessionId : Text)
  | listSessions (cli : Option Text)
  | deleteSession (sessionId : Text)
  | setActiveSession (cli : Text) (sessionId : Option Text)
  | getActiveSession (cli : Text)
  | setActiveKitSession (cli : Text) (scopeRoot sessionId : Option Text) (expectedExecution : Option KitExecutionRef)
  | getActiveKitSession (cli : Text) (scopeRoot : Option Text) (expectedExecution : Option KitExecutionRef)
  | updateSessionUsage (sessionId : Text)
  | updateSessionMetadata (sessionId : Text) (metadata : Metadata α)
  | compareAndSetSession (identity : SessionGenerationIdentity) (mutation : SessionCompareAndSetMutation α)
  | clearAllSessions (cli : Option Text)
  | getPinnedKitReleaseIds
  | assertKitStorageHealthy
  | listPendingWorktreeCleanupSessions (ownerHostname : Option Text)
  | finalizePendingWorktreeCleanup (session : Session α)

variable [DecidableEq α]

/-- An operation, with the storage that was read. -/
def run (q : Request) : Call α → Hold α → Reply α × Hold α
  | .createSession cli d id b m, h => createSession cfg q cli d id b m h
  | .createSessionWithMetadata cli d id m, h => createSessionWithMetadata cfg q cli d id m h
  | .createKitSession cli b d id, h => createKitSession cfg q cli b d id h
  | .getOrCreateKitSession cli b d id, h => getOrCreateKitSession cfg q cli b d id h
  | .clearActiveKitSessionIfCurrent cli r e id, h => clearActiveKitSessionIfCurrent cfg q cli r e id h
  | .claimKitSessionAttempt cli r e id a, h => claimKitSessionAttempt cfg q cli r e id a h
  | .renewKitSessionAttempt cli r e id a t, h => renewKitSessionAttempt cfg q cli r e id a t h
  | .releaseKitSessionAttempt cli r e id a, h => releaseKitSessionAttempt cfg q cli r e id a h
  | .updateKitSessionBinding id b a, h => updateKitSessionBinding cfg q id b a h
  | .getSession id, h => getSession cfg q id h
  | .listSessions cli, h => listSessions cfg q cli h
  | .deleteSession id, h => deleteSession cfg q id h
  | .setActiveSession cli id, h => setActiveSession cfg q cli id h
  | .getActiveSession cli, h => getActiveSession cfg q cli h
  | .setActiveKitSession cli r id e, h => setActiveKitSession cfg q cli r id e h
  | .getActiveKitSession cli r e, h => getActiveKitSession cfg q cli r e h
  | .updateSessionUsage id, h => updateSessionUsage q id h
  | .updateSessionMetadata id m, h => updateSessionMetadata cfg q id m h
  | .compareAndSetSession i m, h => compareAndSetSession cfg i m h
  | .clearAllSessions cli, h => clearAllSessions cfg cli h
  | .getPinnedKitReleaseIds, h => getPinnedKitReleaseIds cfg q h
  | .assertKitStorageHealthy, h => (.done, h)
  | .listPendingWorktreeCleanupSessions host, h => listPendingWorktreeCleanupSessions host h
  | .finalizePendingWorktreeCleanup session, h => finalizePendingWorktreeCleanup session h

/-- The row a read may show while the file cannot be read. -/
def snapshotRow (q : Request) (s : Storage α) (sessionId : Text) : Option (Session α) :=
  (s.sessions.get sessionId).filter fun session => !session.isPendingWorktreeDeletion && !isExpired cfg q s session

/-- An operation while the file cannot be read: four reads answer from the last storage, all others throw. -/
def runFaulted (q : Request) (s : Storage α) : Call α → Reply α
  | .getSession id => .session (snapshotRow cfg q s id)
  | .listSessions cli => .sessions (s.listed cli)
  | .getActiveSession cli => .session ((truthy (s.active cli)).bind (snapshotRow cfg q s))
  | .listPendingWorktreeCleanupSessions host => .sessions (s.pending host)
  | _ => .threw

/-- The file, `none` while there is none, and the memory of the manager. -/
structure Manager (α : Type) where
  disk : Option (Storage α)
  storage : Storage α

/-- What `loadStorage` makes of the file; `none` is a storage fault. -/
def Manager.loadStorage (m : Manager α) : Option (Storage α) :=
  m.disk.elim (some createEmptySessionStorage) (normaliseStorage cfg)

def step (m : Manager α) (i : Request × Call α) : Manager α × Reply α :=
  match m.loadStorage cfg with
  | none => (m, runFaulted cfg i.1 m.storage i.2)
  | some s =>
    let out := run cfg i.1 i.2 ⟨s, none⟩
    (⟨out.2.saved.or m.disk, out.2.storage⟩, out.1)

/-- A manager of a file that is absent. -/
def Manager.init : Manager α := ⟨none, createEmptySessionStorage⟩

end Manager

/-! ## A small setting -/

/-- `Date.parse`, of the texts that `toISOString` writes. -/
def isoParse (t : Text) : Option ℤ := readIso (String.ofList (t.map fun u => Char.ofNat u.toNat))

def dayConfig : Config := ⟨isoParse, 86400000, fun _ => none⟩

/-- The request number `n` of the principal, in the year 2026. -/
def requestOf (principal : Text) (n : UInt16) : Request where
  now := 1767225600000
  principal := principal
  id := ⟨[105, n], rfl⟩
  generation := ⟨[103, n], rfl⟩

def someExecution : KitExecutionRef := ⟨text "release", text "stamp", none, none, text "context"⟩

def someBinding : KitSessionBinding := ⟨someExecution, none, false, none⟩

def someAttempt : KitSessionAttempt :=
  ⟨text "attempt", .direct, text "2026-01-01T00:00:00.000Z", text "2026-01-01T01:00:00.000Z", none⟩

end LlmGateway.Sessions.FileStore
