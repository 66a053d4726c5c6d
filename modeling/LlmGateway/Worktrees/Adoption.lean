import Mathlib.Logic.Function.Basic
import LlmGateway.Lib.Json
import LlmGateway.Lib.Run
import LlmGateway.Lib.Utf16

/-!
# The identity of a worktree

`adoptLegacyWorktreeIdentity`, `settleFailedAdoptionMarker` and `reconcileWorktreeIdentity` (worktree-manager.ts) with their
caller `adoptWorktreeIdentityForSession` (index.ts), for one registered worktree and one session.  A step is one read or write of
the marker file or one compare-and-set of the record, by any of the calls under way.

* `step` — any order of the steps of all calls, with crashes, adoptions by other sessions and replacements of the worktree;
* `Spares`, `Recoverable` — no identity is stolen, and none is stranded;
* `Unraced` — each write of the marker finds it as it was when the write was decided on.
-/

namespace LlmGateway.Worktrees

open LlmGateway.Lib

/-! ### The marker -/

/-- The marker file: absent, or its text as `JSON.parse` has it, `none` for one that does not parse. -/
abbrev MarkerFile := Option (Option Json)

inductive MarkerReading where
  | token (token : String) (adoptedBy : Option String)
  | none
  | unreadable
deriving DecidableEq

def textField (name : String) (parsed : Json) : Option String :=
  match parsed.field name with
  | some (.str s) => some s
  | _ => none

def readAdminMarker : MarkerFile → MarkerReading
  | none => .none
  | some none => .unreadable
  | some (some parsed) =>
    match textField "token" parsed with
    | some token => if token = "" then .unreadable else .token token (textField "adoptedBy" parsed)
    | none => .unreadable

/-- What an adoption or a repair writes. -/
def stamp (token adoptedBy : String) : MarkerFile :=
  some (some (.obj [("token", .str token), ("adoptedBy", .str adoptedBy)]))

/-- What `createWorktree` writes. -/
def creationMarker (token : String) : MarkerFile := some (some (.obj [("token", .str token)]))

theorem readAdminMarker_stamp {token : String} (h : token ≠ "") (adoptedBy : String) :
    readAdminMarker (stamp token adoptedBy) = .token token (some adoptedBy) := by
  simp [readAdminMarker, stamp, textField, Json.field, h]

theorem readAdminMarker_creationMarker {token : String} (h : token ≠ "") :
    readAdminMarker (creationMarker token) = .token token none := by
  simp [readAdminMarker, creationMarker, textField, Json.field, h]

/-- A marker that cannot be read has no owner either. -/
def readWorktreeOwnerToken : MarkerReading → Option String
  | .token token _ => some token
  | _ => none

/-- The session whose adoption wrote the marker. -/
def adopter : MarkerReading → Option String
  | .token _ adoptedBy => adoptedBy
  | _ => none

theorem adopter_eq_some {m : MarkerReading} {id : String} : adopter m = some id ↔ ∃ token, m = .token token (some id) := by
  cases m with
  | token t b | none | unreadable => simp [adopter]

/-! ### The calls -/

/-- What an adoption reads of its session. -/
structure SessionMetadata where
  worktreePath : Option String
  worktreeToken : Option String
  worktreeCleanupPendingDeletion : Bool
  worktreeCleanupPending : Bool

/-- The checks before the marker is read; `live` when the path exists, `resolved` when git names its administrative directory. -/
def adoptable (session : SessionMetadata) (claimantsForPath : ℕ) (live resolved : Bool) : Bool :=
  session.worktreePath.isSome && session.worktreeToken.isNone &&
    !(session.worktreeCleanupPendingDeletion || session.worktreeCleanupPending) && claimantsForPath == 1 && live && resolved

/-- Whether the session `id` adopts under a marker, and the token of the marker it then writes over. -/
def priorMarker (id : String) (recorded : List String) : MarkerReading → Option (Option String)
  | .unreadable => none
  | .none => some none
  | .token token adoptedBy => if adoptedBy = some id ∧ token ∉ recorded then some (some token) else none

/-- Where `adoptWorktreeIdentityForSession` stands. -/
inductive Adoption where
  /-- it has listed the recorded tokens -/
  | reading (recorded : List String)
  | writing (prior : Option String)
  | confirming (token : String) (prior : Option String)
  | recording (token : String) (prior : Option String)
  /-- in `settleFailedAdoptionMarker` -/
  | settling (token : String) (prior : Option String)
  | undoing (token : String) (prior : Option String)
deriving DecidableEq

/-- Where `reconcileWorktreeIdentity` stands. -/
inductive Repair where
  | reading (recordedToken : String)
  | rewriting (recordedToken : String)
  | confirming (recordedToken : String)
deriving DecidableEq

def Repair.recordedToken : Repair → String
  | .reading token | .rewriting token | .confirming token => token

/-- How `compareAndSetSession` ends; `lost` when it rejects although it has recorded. -/
inductive Recorded where
  | granted
  | refused
  | lost
deriving DecidableEq

structure State where
  marker : MarkerFile
  /-- `worktreeToken` of the session's row -/
  record : Option String
  /-- the tokens drawn by adoptions of the session -/
  mine : List String
  /-- those of creations and of other sessions -/
  theirs : List String
  adoptions : ℕ → Option Adoption
  repairs : ℕ → Option Repair
  /-- the worktree has been removed, and one of its name added -/
  replaced : Bool

/-- A worktree without a marker, of a session without an identity. -/
def init : State := ⟨none, none, [], [], fun _ => none, fun _ => none, false⟩

inductive Event where
  | adopt (i : ℕ) (session : SessionMetadata) (claimantsForPath : ℕ) (live resolved : Bool) (others : List String)
  | read (i : ℕ) (ok : Bool)
  | write (i : ℕ) (token : String) (ok : Bool)
  | readBack (i : ℕ) (ok : Bool)
  | record (i : ℕ) (outcome : Recorded)
  | settle (i : ℕ) (ok : Bool)
  | undo (i : ℕ) (ok : Bool)
  | reconcile (j : ℕ) (recordedToken : Option String) (resolved : Bool)
  | inspect (j : ℕ) (ok : Bool)
  | rewrite (j : ℕ) (ok : Bool)
  | confirm (j : ℕ) (ok : Bool)
  | crashAdoption (i : ℕ)
  | crashRepair (j : ℕ)
  /-- git removes the worktree and `createWorktree` adds another -/
  | replace
  /-- `createWorktree` writes its marker -/
  | create (token : String)
  /-- an adoption by another session writes, restores or deletes a marker -/
  | foreign (id : String) (token : Option String)

namespace State

/-- What a reader sees; with `ok` false the read fails. -/
def look (s : State) (ok : Bool) : MarkerReading := if ok then readAdminMarker s.marker else .unreadable

def setAdoption (s : State) (i : ℕ) (a : Option Adoption) : State :=
  { s with adoptions := Function.update s.adoptions i a }

def setRepair (s : State) (j : ℕ) (r : Option Repair) : State := { s with repairs := Function.update s.repairs j r }

end State

/-- One step, and what `reconcileWorktreeIdentity` answers in it; `id` is the session's. -/
def step (id : String) (s : State) : Event → State × Option Bool
  | .adopt i session claimantsForPath live resolved others =>
    if s.adoptions i = none ∧ adoptable session claimantsForPath live resolved ∧ ∀ t ∈ others, t ∈ s.theirs then
      (s.setAdoption i (some (.reading (s.record.toList ++ others))), none)
    else (s, none)
  | .read i ok =>
    match s.adoptions i with
    | some (.reading recorded) => (s.setAdoption i ((priorMarker id recorded (s.look ok)).map .writing), none)
    | _ => (s, none)
  | .write i token ok =>
    match s.adoptions i with
    | some (.writing prior) =>
      if token ≠ "" ∧ token ∉ s.mine ∧ token ∉ s.theirs then
        -- without a prior marker the file is opened exclusively
        if ok ∧ (prior = none → s.marker = none) then
          (({ s with mine := token :: s.mine, marker := stamp token id }).setAdoption i (some (.confirming token prior)), none)
        else (({ s with mine := token :: s.mine }).setAdoption i (some (.settling token prior)), none)
      else (s, none)
    | _ => (s, none)
  | .readBack i ok =>
    match s.adoptions i with
    | some (.confirming token prior) =>
      if readWorktreeOwnerToken (s.look ok) = some token then (s.setAdoption i (some (.recording token prior)), none)
      else (s.setAdoption i (some (.settling token prior)), none)
    | _ => (s, none)
  | .record i outcome =>
    match s.adoptions i with
    | some (.recording token prior) =>
      if outcome = .granted ∧ s.record = none then (({ s with record := some token }).setAdoption i none, none)
      else if outcome = .lost ∧ s.record = none then
        (({ s with record := some token }).setAdoption i (some (.settling token prior)), none)
      else (s.setAdoption i (some (.settling token prior)), none)
    | _ => (s, none)
  | .settle i ok =>
    match s.adoptions i with
    | some (.settling token prior) =>
      if readWorktreeOwnerToken (s.look ok) = some token then (s.setAdoption i (some (.undoing token prior)), none)
      else (s.setAdoption i none, none)
    | _ => (s, none)
  | .undo i ok =>
    match s.adoptions i with
    | some (.undoing _ prior) =>
      if ok then (({ s with marker := prior.bind (stamp · id) }).setAdoption i none, none)
      else (s.setAdoption i none, none)
    | _ => (s, none)
  | .reconcile j recordedToken resolved =>
    if s.repairs j = none then
      match recordedToken with
      | some token =>
        if s.record = some token ∧ resolved then (s.setRepair j (some (.reading token)), none) else (s, some false)
      | none => (s, some false)
    else (s, none)
  | .inspect j ok =>
    match s.repairs j with
    | some (.reading recordedToken) =>
      match s.look ok with
      | .token token adoptedBy =>
        if token = recordedToken then (s.setRepair j none, some true)
        else if adoptedBy = some id then (s.setRepair j (some (.rewriting recordedToken)), none)
        else (s.setRepair j none, some false)
      | _ => (s.setRepair j none, some false)
    | _ => (s, none)
  | .rewrite j ok =>
    match s.repairs j with
    | some (.rewriting recordedToken) =>
      if ok then (({ s with marker := stamp recordedToken id }).setRepair j (some (.confirming recordedToken)), none)
      else (s.setRepair j none, some false)
    | _ => (s, none)
  | .confirm j ok =>
    match s.repairs j with
    | some (.confirming recordedToken) => (s.setRepair j none, some (readWorktreeOwnerToken (s.look ok) = some recordedToken))
    | _ => (s, none)
  | .crashAdoption i => (s.setAdoption i none, none)
  | .crashRepair j => (s.setRepair j none, none)
  | .replace => ({ s with marker := none, replaced := true }, none)
  | .create token =>
    if s.replaced ∧ token ≠ "" ∧ token ∉ s.mine then
      ({ s with marker := creationMarker token, theirs := token :: s.theirs }, none)
    else (s, none)
  | .foreign other token =>
    if other ≠ id ∧ ∀ t ∈ token, t ≠ "" ∧ t ∉ s.mine then
      ({ s with marker := token.bind (stamp · other), theirs := token.toList ++ s.theirs }, none)
    else (s, none)

/-! ### No identity is stolen, and none is stranded -/

/-- A marker of a creation or of another session. -/
def Foreign (id : String) : MarkerReading → Prop
  | .token _ adoptedBy => adoptedBy ≠ some id
  | _ => False

/-- A step of one of the session's own calls. -/
def Event.Own : Event → Prop
  | .replace | .create _ | .foreign _ _ => False
  | _ => True

/-- The session's calls leave the marker of another creation or session alone, and its recorded token is for good. -/
structure Spares (id : String) (s : State) (e : Event) : Prop where
  marker : e.Own → Foreign id (readAdminMarker s.marker) → (step id s e).1.marker = s.marker
  record : ∀ token, s.record = some token → (step id s e).1.record = some token

/-- `reconcileWorktreeIdentity`, undisturbed. -/
def reconciling (j : ℕ) (token : String) : List Event :=
  [.reconcile j (some token) true, .inspect j true, .rewrite j true, .confirm j true]

/-- An adoption and the record of its token, undisturbed. -/
def adopting (i : ℕ) (session : SessionMetadata) (others : List String) (token : String) : List Event :=
  [.adopt i session 1 true true others, .read i true, .write i token true, .readBack i true, .record i .granted]

/-- The marker and the record name one token. -/
def Agree (id : String) (s : State) (token : String) : Prop :=
  s.record = some token ∧ readAdminMarker s.marker = .token token (some id)

/-- What the next reuse of the session makes of the state: with a recorded token a repair, without one an adoption. -/
def Recovers (id : String) (s : State) : Prop :=
  match s.record with
  | some token => ∀ j, s.repairs j = none →
      (Run.outputs (step id) s (reconciling j token)).reduceOption = [true] ∧
        Agree id (Run.final (step id) s (reconciling j token)) token
  | none => ∀ i session others token, adoptable session 1 true true → (∀ t ∈ others, t ∈ s.theirs) →
      token ≠ "" → token ∉ s.mine → token ∉ s.theirs →
        Agree id (Run.final (step id) s (adopting i session others token)) token

/-- Once all adoptions have ended, and the marker is the session's or absent, marker and record can be brought together.  An
absent marker where the worktree was replaced is that of a creation which has yet to write it. -/
def Recoverable (id : String) (s : State) : Prop :=
  (∀ i, s.adoptions i = none) →
    (adopter (readAdminMarker s.marker) = some id ∨ s.marker = none ∧ (s.replaced → s.record = none)) → Recovers id s

/-! ### When it is so -/

/-- Each write over a marker, and each deletion, finds the marker by which it was decided; a compare-and-set that has recorded
does not reject. -/
def Unraced (id : String) (s : State) : Event → Prop
  | .write i _ ok =>
    match s.adoptions i with
    | some (.writing (some prior)) => ok → readAdminMarker s.marker = .token prior (some id)
    | _ => True
  | .undo i ok =>
    match s.adoptions i with
    | some (.undoing token _) => ok → readAdminMarker s.marker = .token token (some id)
    | _ => True
  | .rewrite j ok =>
    match s.repairs j with
    | some (.rewriting _) => ok → adopter (readAdminMarker s.marker) = some id
    | _ => True
  | .record i .lost =>
    match s.adoptions i with
    | some (.recording _ _) => s.record ≠ none
    | _ => True
  | .foreign _ _ => adopter (readAdminMarker s.marker) ≠ some id
  | _ => True

instance (id : String) (s : State) (e : Event) : Decidable (Unraced id s e) := by
  unfold Unraced
  split
  all_goals try split
  all_goals infer_instance

end LlmGateway.Worktrees
