import LlmGateway.Lib.IsoTime
import LlmGateway.Lib.JsMap
import LlmGateway.Sessions.Kit

/-!
# Sessions, pointers and expiry

The records of `session-manager.ts`: what a session store holds, and what one row says about itself.

* `Session`, `Storage` — the rows and the pointers; all their texts are UTF-16;
* `getKitSessionBinding` — the valid Kit binding of a row; `isPendingWorktreeDeletion` — a row that is deleted but for
  its worktree.

The objects that hold sessions and pointers are maps here: property names that every object inherits are not told apart
from others.
-/

namespace LlmGateway.Sessions.FileStore

open LlmGateway.Lib Utf16 Sessions.Kit IsoTime

/-! ## Rows and pointers -/

/-- A value of the metadata; `α` stands for the values no operation looks at. -/
inductive Value (α : Type) where
  | binding (binding : KitSessionBinding)
  | text (text : Text)
  | bool (bool : Bool)
  | other (value : α)
deriving DecidableEq

abbrev Metadata (α : Type) := JsMap Text (Value α)

structure Session (α : Type) where
  id : Text
  cli : Text
  createdAt : Text
  lastUsedAt : Text
  description : Option Text
  metadata : Option (Metadata α)
  ownerPrincipal : Option Text
  generation : Text

structure SessionGenerationIdentity where
  id : Text
  cli : Text
  ownerPrincipal : Option Text
  createdAt : Text
  generation : Text
deriving DecidableEq

inductive SessionCompareAndSetMutation (α : Type) where
  | replaceMetadata (expectedMetadata metadata : Option (Metadata α))
  | delete (expectedMetadata : Option (Metadata α))

structure Storage (α : Type) where
  sessions : Table (Session.id : Session α → Text)
  activeSession : JsMap Text (Option Text)
  activeKitSession : JsMap Text (JsMap Text Text)

def PROVIDER_TYPES : List Text :=
  ["claude", "codex", "gemini", "grok", "mistral", "devin", "cursor", "grok-api"].map text

def createEmptyActiveSessions : JsMap Text (Option Text) := ⟨PROVIDER_TYPES.map fun p => (p, none), by decide +kernel⟩

def createEmptySessionStorage {α : Type} : Storage α := ⟨Table.empty, createEmptyActiveSessions, Table.empty⟩

def kitKey : Text := text "kit"

def WORKTREE_CLEANUP_TOMBSTONE_KEY : Text := text "worktreeCleanupPendingDeletion"

/-- The text, unless it is absent or empty. -/
def truthy (value : Option Text) : Option Text := value.filter fun t => !t.isEmpty

/-- What an operation finds around it: the time, the principal of the request context, the next two `randomUUID()`s. -/
structure Request where
  now : ℤ
  principal : Text
  id : { id : Text // isNonEmptyString id = true }
  generation : { generation : Text // isNonEmptyString generation = true }

structure Config where
  dateParse : Text → Option ℤ
  sessionTtlMs : ℤ
  /-- The labels of the provider registry. -/
  sessionLabel : Text → Option Text

section Rows

variable {α : Type} (cfg : Config)

def Metadata.isPendingDeletion (metadata : Metadata α) : Bool :=
  match metadata.get WORKTREE_CLEANUP_TOMBSTONE_KEY with
  | some (.bool true) => true
  | _ => false

def Session.isPendingWorktreeDeletion (session : Session α) : Bool := session.metadata.any Metadata.isPendingDeletion

/-- `metadata?.kit` -/
def Session.kit (session : Session α) : Option (Value α) := session.metadata.bind fun metadata => metadata.get kitKey

def Value.isKitSessionBinding : Value α → Bool
  | binding b => Kit.isKitSessionBinding cfg.dateParse b
  | _ => false

def getKitSessionBinding (session : Session α) : Option KitSessionBinding :=
  match session.kit with
  | some (.binding b) => cloneKitSessionBinding cfg.dateParse b
  | _ => none

def Metadata.isText (metadata : Metadata α) (key : String) : Bool :=
  match metadata.get (Utf16.text key) with
  | some (.text _) => true
  | _ => false

def Session.hasDurablyOwnedWorktree (session : Session α) : Bool :=
  session.metadata.any fun metadata =>
    metadata.isText "worktreePath" && metadata.isText "worktreeName" && metadata.isText "worktreeOwnerHostname" &&
      metadata.isText "worktreeOwnerInstanceId"

def principalCanAccess (rowOwner : Option Text) (caller : Text) : Bool :=
  rowOwner = some caller || (rowOwner = none && caller = text "local")

/-- `none` is a TypeError. -/
def sessionMatchesKitBinding (session : Session α) (cli : Text) (binding : KitSessionBinding) (ownerPrincipal : Text) :
    Option Bool :=
  if session.cli ≠ cli ∨ !principalCanAccess session.ownerPrincipal ownerPrincipal then some false
  else
    match getKitSessionBinding cfg session with
    | none => some false
    | some b => sameKitExecutionRef b.execution binding.execution

def defaultSessionDescription (provider : Text) : Text :=
  (cfg.sessionLabel provider).getD (provider ++ text " Session")

/-- The session with the binding in its metadata. -/
def Session.setKit (session : Session α) (binding : KitSessionBinding) : Session α :=
  { session with metadata := some ((session.metadata.getD Table.empty).set kitKey (.binding binding)) }

/-- The session, hidden until its worktree is gone. -/
def Session.stage (session : Session α) : Session α :=
  { session with
    metadata := some (((session.metadata.getD Table.empty).set (text "worktreeCleanupPending") (.bool true)).set
      WORKTREE_CLEANUP_TOMBSTONE_KEY (.bool true)) }

end Rows

section Pointers

variable {α : Type}

/-- A row object is changed in place. -/
def Storage.setSession (s : Storage α) (session : Session α) : Storage α :=
  { s with sessions := s.sessions.set session }

def Storage.deleteSession (s : Storage α) (id : Text) : Storage α :=
  { s with sessions := s.sessions.delete fun r => r.id == id }

def Storage.setActive (s : Storage α) (cli : Text) (sessionId : Option Text) : Storage α :=
  { s with activeSession := s.activeSession.set cli sessionId }

def Storage.active (s : Storage α) (cli : Text) : Option Text := (s.activeSession.get cli).join

def Storage.clearActiveKitPointersForSession (s : Storage α) (sessionId : Text) : Storage α :=
  { s with activeKitSession := s.activeKitSession.updateWhere (fun _ => true) fun ps => ps.deleteWhere (· == sessionId) }

def Storage.hasActiveKitPointer (s : Storage α) (sessionId : Text) : Bool :=
  s.activeKitSession.values.any fun ps => ps.values.any (· == sessionId)

/-- `activeKitSession[cli]?.[scope]` -/
def Storage.kitPointer (s : Storage α) (cli scope : Text) : Option Text :=
  (s.activeKitSession.get cli).bind fun ps => ps.get scope

def Storage.setKitPointer (s : Storage α) (cli scope sessionId : Text) : Storage α :=
  { s with
    activeKitSession := s.activeKitSession.set cli (((s.activeKitSession.get cli).getD Table.empty).set scope sessionId) }

def Storage.dropKitPointer (s : Storage α) (cli scope : Text) : Storage α :=
  match s.activeKitSession.get cli with
  | none => s
  | some ps => { s with activeKitSession := s.activeKitSession.set cli (ps.delete scope) }

/-- `removeOrStageSession` -/
def Storage.removeOrStage (s : Storage α) (session : Session α) : Storage α :=
  let s := if s.active session.cli = some session.id then s.setActive session.cli none else s
  let s := s.clearActiveKitPointersForSession session.id
  if session.hasDurablyOwnedWorktree then s.setSession session.stage else s.deleteSession session.id

end Pointers

/-! ## What the changes do to a row -/

section RowLemmas

variable {α : Type} {cfg : Config} {session : Session α} {binding b : KitSessionBinding}

theorem getKitSessionBinding_eq_some (h : getKitSessionBinding cfg session = some b) :
    Canonical cfg.dateParse b ∧
      ∃ stored, session.kit = some (.binding stored) ∧ cloneKitSessionBinding cfg.dateParse stored = some b := by
  unfold getKitSessionBinding at h
  split at h
  · rename_i stored hstored
    exact ⟨(canonical_clone h).1, stored, hstored, h⟩
  · cases h

/-- The binding of a row depends on its `kit` only. -/
theorem getKitSessionBinding_congr {session' : Session α} (h : session'.kit = session.kit) :
    getKitSessionBinding cfg session' = getKitSessionBinding cfg session := by
  unfold getKitSessionBinding
  rw [h]

theorem kit_setKit : (session.setKit binding).kit = some (.binding binding) := by
  simp [Session.kit, Session.setKit, JsMap.get_set]

theorem getKitSessionBinding_setKit (h : Canonical cfg.dateParse binding) :
    getKitSessionBinding cfg (session.setKit binding) = some binding := by
  unfold getKitSessionBinding
  rw [kit_setKit]
  exact h.clone

theorem kit_stage : session.stage.kit = session.kit := by
  have hpending : text "worktreeCleanupPending" ≠ kitKey := by decide
  have hdeletion : WORKTREE_CLEANUP_TOMBSTONE_KEY ≠ kitKey := by decide
  cases h : session.metadata with
  | none | some metadata => simp [Session.kit, Session.stage, h, JsMap.get_set, hpending, hdeletion]

theorem isPendingWorktreeDeletion_setKit :
    (session.setKit binding).isPendingWorktreeDeletion = session.isPendingWorktreeDeletion := by
  have hkit : kitKey ≠ WORKTREE_CLEANUP_TOMBSTONE_KEY := by decide
  cases h : session.metadata with
  | none | some metadata =>
    simp [Session.isPendingWorktreeDeletion, Session.setKit, Metadata.isPendingDeletion, h, JsMap.get_set, hkit]

/-- Who may use a row without an owner is the local principal. -/
theorem owner_of_principalCanAccess {owner : Option Text} {caller : Text} (h : principalCanAccess owner caller = true) :
    owner.getD (text "local") = caller := by
  unfold principalCanAccess at h
  cases owner with
  | none => exact (by simpa using h : caller = text "local").symm
  | some o => simpa using h

end RowLemmas

/-! ## What the changes do to the storage -/

section StorageLemmas

variable {α : Type} {s : Storage α} {session : Session α} {cli scope id k : Text} {p : Option Text}

@[simp] theorem sessions_setActive : (s.setActive cli p).sessions = s.sessions := rfl

@[simp] theorem activeKitSession_setActive : (s.setActive cli p).activeKitSession = s.activeKitSession := rfl

@[simp] theorem sessions_setKitPointer : (s.setKitPointer cli scope id).sessions = s.sessions := rfl

@[simp] theorem activeSession_setKitPointer : (s.setKitPointer cli scope id).activeSession = s.activeSession := rfl

@[simp] theorem activeSession_setSession : (s.setSession session).activeSession = s.activeSession := rfl

@[simp] theorem activeKitSession_setSession : (s.setSession session).activeKitSession = s.activeKitSession := rfl

@[simp] theorem activeSession_deleteSession : (s.deleteSession id).activeSession = s.activeSession := rfl

@[simp] theorem activeKitSession_deleteSession : (s.deleteSession id).activeKitSession = s.activeKitSession := rfl

@[simp] theorem sessions_dropKitPointer : (s.dropKitPointer cli scope).sessions = s.sessions := by
  unfold Storage.dropKitPointer
  split <;> rfl

@[simp] theorem activeSession_dropKitPointer : (s.dropKitPointer cli scope).activeSession = s.activeSession := by
  unfold Storage.dropKitPointer
  split <;> rfl

theorem get_setSession : (s.setSession session).sessions.get k = if session.id = k then some session else s.sessions.get k :=
  Table.get_set k

theorem get_deleteSession : (s.deleteSession id).sessions.get k = if id = k then none else s.sessions.get k := by
  rw [Storage.deleteSession, Table.get_delete]
  cases h : s.sessions.get k with
  | none => simp
  | some r =>
    have hk : r.id = k := Table.key_of_get h
    by_cases hid : id = k
    · simp [Option.filter, hk, hid]
    · simp [Option.filter, hk, hid, Ne.symm hid]

theorem isSome_of_active (h : truthy (s.active cli) = some id) :
    (s.activeSession.get cli).isSome = true := by
  have hactive := (Option.filter_eq_some_iff.1 h).1
  unfold Storage.active at hactive
  cases hp : s.activeSession.get cli with
  | some p => rfl
  | none => simp [hp] at hactive

/-- A removed row is gone or staged; no other row changes. -/
theorem get_removeOrStage :
    (s.removeOrStage session).sessions.get k =
      if session.id = k then (if session.hasDurablyOwnedWorktree then some session.stage else none)
      else s.sessions.get k := by
  have hcleared : ∀ s' : Storage α, (s'.clearActiveKitPointersForSession session.id).sessions = s'.sessions :=
    fun _ => rfl
  have hactive : (if s.active session.cli = some session.id then s.setActive session.cli none else s).sessions =
      s.sessions := by
    split <;> rfl
  unfold Storage.removeOrStage
  by_cases hw : session.hasDurablyOwnedWorktree = true
  · rw [if_pos hw, if_pos hw, get_setSession, hcleared, hactive]
    rfl
  · rw [if_neg hw, if_neg hw, get_deleteSession, hcleared, hactive]

end StorageLemmas

end LlmGateway.Sessions.FileStore
