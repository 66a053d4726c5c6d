import Mathlib.Data.Rat.Floor
import LlmGateway.Lib.IsoTime
import LlmGateway.Lib.Run

/-!
# Freshness of the Personal Config Kit

The state file and the release pointer (personal-config.ts), which `syncPersonalConfig`, `rollbackPersonalConfig` and
`acknowledgeKitStale` write one after the other, each under the Kit lock.

* `PersonalConfigState`, `readPersonalConfigState` — the state file, and what is read back of it;
* `Event`, `step` — the operations in any order, with their outcomes, and the clock;
* `kit_freshness` — what a fresh check and a granted acknowledgement rest on, in every run.
-/

namespace LlmGateway.Kit.Freshness

open LlmGateway.Lib LlmGateway.Lib.IsoTime

/-- `RELEASE_ID_PATTERN` -/
def isReleaseId (s : String) : Bool :=
  (s.length = 40 || s.length = 64) && s.toList.all fun c => c.isDigit || decide ('a' ≤ c ∧ c ≤ 'f')

structure PersonalConfigState where
  currentReleaseId : Option String
  lastSuccessAt : Option String
  lastSyncError : Option String
  staleAckUntil : Option String
  staleAckReleaseId : Option String
  staleAckUsedForReleaseId : Option String
  staleAckUsedForReleaseIds : List String
  staleAckHistoryComplete : Bool
deriving DecidableEq

def PERSONAL_CONFIG_SYNC_ERROR_WITHHELD : String := 
  "upstream synchronization failed; retained the current verified release"

/-- Without a state file. -/
def noState : PersonalConfigState := ⟨none, none, none, none, none, none, [], true⟩

def stringOrNull (value : Option String) : Option String := value.filter fun s => s ≠ ""

/-- The release ids of the history, with that of the field it has replaced. -/
def readHistory (parsed : PersonalConfigState) : List String :=
  let ids := (parsed.staleAckUsedForReleaseIds.filter fun id => isReleaseId id).eraseDups
  match stringOrNull parsed.staleAckUsedForReleaseId with
  | some legacy => if isReleaseId legacy ∧ legacy ∉ ids then ids ++ [legacy] else ids
  | none => ids

/-- What is read of a state file that the gateway has written. -/
def readPersonalConfigState : Option PersonalConfigState → PersonalConfigState
  | none => noState
  | some parsed =>
    { currentReleaseId := stringOrNull parsed.currentReleaseId
      lastSuccessAt := stringOrNull parsed.lastSuccessAt
      lastSyncError := (stringOrNull parsed.lastSyncError).map fun _ => PERSONAL_CONFIG_SYNC_ERROR_WITHHELD
      staleAckUntil := stringOrNull parsed.staleAckUntil
      staleAckReleaseId := stringOrNull parsed.staleAckReleaseId
      staleAckUsedForReleaseId := stringOrNull parsed.staleAckUsedForReleaseId
      staleAckUsedForReleaseIds := readHistory parsed
      staleAckHistoryComplete := parsed.staleAckHistoryComplete }

structure State where
  file : Option PersonalConfigState
  /-- the release id in the pointer file -/
  pointer : Option String
  /-- the releases that are retained and verified -/
  releases : List String
  now : ℕ

namespace State

def read (s : State) : PersonalConfigState := readPersonalConfigState s.file

def write (s : State) (state : PersonalConfigState) : State := { s with file := some state }

end State

/-- The id of the active release. -/
def getCurrentPersonalConfigRelease (s : State) : Option String :=
  ((s.pointer.filter fun id => isReleaseId id).or (s.read.currentReleaseId.filter fun id => isReleaseId id)).filter
    fun id => id ∈ s.releases

def hourMs : ℕ := 60 * 60 * 1000

section Operations

variable (dp : DateParse)

def isKitStale (state : PersonalConfigState) (maxStaleHours : ℚ) (now : ℕ) (activeReleaseId : Option String) : Bool :=
  match state.lastSuccessAt.bind dp.parse with
  | none => true
  | some lastSuccessMs =>
    if activeReleaseId ≠ none ∧ state.staleAckReleaseId = activeReleaseId ∧
        ((state.staleAckUntil.bind dp.parse).any fun ackMs => (now : ℤ) < ackMs) = true then false
    else decide ((lastSuccessMs : ℚ) + maxStaleHours * hourMs < now)

/-- An operation stops at a crash, or where a step of it throws. -/
inductive Stop where
  | beforeRelease
  | beforePointer
  | beforeState
  | completed
deriving DecidableEq

inductive SyncOutcome where
  /-- it throws, and nothing has been written -/
  | refused
  /-- the fetch fails, or times out -/
  | fetchFailed
  /-- the baseline is at a commit of its upstream -/
  | verified (commit : String) (stop : Stop)
deriving DecidableEq

inductive Event where
  | sync (outcome : SyncOutcome)
  | rollback (releaseId : String) (stop : Stop)
  /-- `now` has been read when the operation was called; `stopped` before it has written -/
  | acknowledge (maxStaleHours : ℚ) (now : ℕ) (stopped : Bool)
  | assertFresh (maxStaleHours : ℚ)
  | tick (ms : ℕ)

inductive Effect where
  | synced (releaseId : String) (time : ℕ)
  | rolledBack (releaseId : String)
  | granted (releaseId : String) (time : ℕ)
  | fresh (activeReleaseId : Option String) (maxStaleHours : ℚ) (time : ℕ)
  /-- an error, from an operation that has not been interrupted between its writes -/
  | failed
  | interrupted
  | other
deriving DecidableEq

/-- `createRelease` -/
def createRelease (s : State) (commit : String) : State :=
  if commit ∈ s.releases then s else { s with releases := s.releases ++ [commit] }

def writeCurrentReleasePointer (s : State) (releaseId : String) : State := { s with pointer := some releaseId }

/-- The last write of a sync. -/
def recordSync (s : State) (releaseId : String) : State × Effect :=
  match toISOString s.now with
  | none => (s, .interrupted)
  | some lastSuccessAt =>
    (s.write ⟨some releaseId, some lastSuccessAt, none, none, none, none, [], true⟩, .synced releaseId s.now)

def syncPersonalConfig (s : State) : SyncOutcome → State × Effect
  | .refused => (s, .failed)
  | .fetchFailed => (s.write { s.read with lastSyncError := some PERSONAL_CONFIG_SYNC_ERROR_WITHHELD }, .failed)
  | .verified commit stop =>
    if !isReleaseId commit then (s, .failed)
    else
      match stop with
      | .beforeRelease => (s, .failed)
      | .beforePointer => (createRelease s commit, .interrupted)
      | .beforeState => (writeCurrentReleasePointer (createRelease s commit) commit, .interrupted)
      | .completed => recordSync (writeCurrentReleasePointer (createRelease s commit) commit) commit

def rollbackPersonalConfig (s : State) (releaseId : String) (stop : Stop) : State × Effect :=
  if !isReleaseId releaseId || releaseId ∉ s.releases then (s, .failed)
  else
    match stop with
    | .beforeRelease | .beforePointer => (s, .interrupted)
    | .beforeState => (writeCurrentReleasePointer s releaseId, .interrupted)
    | .completed =>
      let s := writeCurrentReleasePointer s releaseId
      (s.write { s.read with currentReleaseId := some releaseId, staleAckUntil := none, staleAckReleaseId := none },
        .rolledBack releaseId)

def acknowledgeKitStale (s : State) (maxStaleHours : ℚ) (now : ℕ) (stopped : Bool) : State × Effect :=
  match getCurrentPersonalConfigRelease s with
  | none => (s, .failed)
  | some active =>
    if !isKitStale dp s.read maxStaleHours now (some active) then (s, .other)
    else if !s.read.staleAckHistoryComplete then (s, .failed)
    else if active ∈ s.read.staleAckUsedForReleaseIds then (s, .failed)
    else
      match toISOString (now + 24 * hourMs) with
      | none => (s, .failed)
      | some staleAckUntil =>
        if stopped then (s, .interrupted)
        else
          (s.write
            { s.read with
              currentReleaseId := some active
              staleAckUntil := some staleAckUntil
              staleAckReleaseId := some active
              staleAckUsedForReleaseId := some active
              staleAckUsedForReleaseIds := s.read.staleAckUsedForReleaseIds ++ [active]
              staleAckHistoryComplete := true },
            .granted active now)

def assertKitFresh (s : State) (maxStaleHours : ℚ) : Effect :=
  let active := getCurrentPersonalConfigRelease s
  if isKitStale dp s.read maxStaleHours s.now active then .failed else .fresh active maxStaleHours s.now

def step (s : State) : Event → State × Effect
  | .sync outcome => syncPersonalConfig s outcome
  | .rollback releaseId stop => rollbackPersonalConfig s releaseId stop
  | .acknowledge maxStaleHours now stopped =>
    -- the clock has not gone back since
    if now ≤ s.now then acknowledgeKitStale dp s maxStaleHours now stopped else (s, .other)
  | .assertFresh maxStaleHours => (s, assertKitFresh dp s maxStaleHours)
  | .tick ms => ({ s with now := s.now + ms }, .other)

end Operations

/-- Without a state file. -/
def init (pointer : Option String) (releases : List String) (now : ℕ) : State := ⟨none, pointer, releases, now⟩

/-! ## The statement -/

/-- A sync or a rollback that has been completed. -/
def Effect.Ends : Effect → Prop
  | .synced _ _ | .rolledBack _ => True
  | _ => False

def Effect.syncTime : Effect → Option ℕ
  | .synced _ time => some time
  | _ => none

/-- When the last sync was completed. -/
def lastSync (past : List Effect) : Option ℕ := past.reverse.findSome? Effect.syncTime

/-- The acknowledgement of a release that is in force: no sync and no rollback has been completed since. -/
def InForce (past : List Effect) (releaseId : String) (time : ℕ) : Prop :=
  ∃ before after, past = before ++ .granted releaseId time :: after ∧ ∀ f ∈ after, ¬f.Ends

/-- The last step is accounted for by those before it. -/
def Justified (past : List Effect) : Effect → Prop
  | .fresh active maxStaleHours time =>
    (∃ last, lastSync past = some last ∧ (time : ℚ) ≤ last + maxStaleHours * hourMs) ∨
      ∃ releaseId granted, active = some releaseId ∧ InForce past releaseId granted ∧ time < granted + 24 * hourMs
  | .granted releaseId _ =>
    ∀ before time after, past = before ++ .granted releaseId time :: after → ∃ f ∈ after, f.syncTime ≠ none
  | _ => True

/-- The release that an operation activates. -/
def Event.target : Event → Option String
  | .sync (.verified commit _) => some commit
  | .rollback releaseId _ => some releaseId
  | _ => none

/-- The acknowledgement that the state holds is the same, or none. -/
def KeepsAck (state state' : PersonalConfigState) : Prop :=
  (state'.staleAckUntil = state.staleAckUntil ∧ state'.staleAckReleaseId = state.staleAckReleaseId) ∨
    state'.staleAckUntil = none ∧ state'.staleAckReleaseId = none

/-- What an operation makes of the active release and of freshness. -/
structure Orderly (dp : DateParse) (s : State) (e : Event) (s' : State) (f : Effect) : Prop where
  /-- also where it is interrupted -/
  active : getCurrentPersonalConfigRelease s' = getCurrentPersonalConfigRelease s ∨
    e.target ≠ none ∧ getCurrentPersonalConfigRelease s' = e.target
  activated : f.Ends → getCurrentPersonalConfigRelease s' = e.target ∧ s'.read.currentReleaseId = e.target
  unextended : f.syncTime = none → (∀ releaseId time, f ≠ .granted releaseId time) →
    s'.read.lastSuccessAt = s.read.lastSuccessAt ∧ KeepsAck s.read s'.read
  unrefreshed : f = .failed ∨ (∃ releaseId, f = .rolledBack releaseId) → ∀ maxStaleHours now,
    isKitStale dp s'.read maxStaleHours now (getCurrentPersonalConfigRelease s') = false →
      isKitStale dp s.read maxStaleHours now (getCurrentPersonalConfigRelease s) = false

/-! ## What is read back -/

@[simp] theorem stringOrNull_idem (value : Option String) : stringOrNull (stringOrNull value) = stringOrNull value := by
  cases value with
  | none => rfl
  | some s =>
    by_cases h : s = ""
    · simp [stringOrNull, h]
    · simp [stringOrNull, Option.filter, h]

@[simp] theorem stringOrNull_none : stringOrNull none = none := rfl

theorem stringOrNull_some {s : String} (h : s ≠ "") : stringOrNull (some s) = some s := by
  simp [stringOrNull, Option.filter, h]

theorem ne_empty_of_isReleaseId {id : String} (h : isReleaseId id = true) : id ≠ "" := by
  rintro rfl
  revert h
  decide

theorem ne_empty_of_toISOString {t : ℤ} {s : String} (h : toISOString t = some s) : s ≠ "" := by
  rintro rfl
  have hread := readIso_of_toISOString h
  have hnone : readIso "" = none := by decide
  rw [hnone] at hread
  cases hread

theorem mem_readHistory {parsed : PersonalConfigState} {id : String} :
    id ∈ readHistory parsed ↔ isReleaseId id = true ∧
      (id ∈ parsed.staleAckUsedForReleaseIds ∨ stringOrNull parsed.staleAckUsedForReleaseId = some id) := by
  unfold readHistory
  dsimp only
  split
  · rename_i legacy hlegacy
    rw [hlegacy, Option.some.injEq]
    split
    · rename_i hnew
      rw [List.mem_append, List.mem_eraseDups, List.mem_filter, List.mem_singleton]
      constructor
      · rintro (⟨hmem, hid⟩ | rfl)
        · exact ⟨hid, .inl hmem⟩
        · exact ⟨hnew.1, .inr rfl⟩
      · rintro ⟨hid, hmem | rfl⟩
        · exact .inl ⟨hmem, hid⟩
        · exact .inr rfl
    · rename_i hold
      rw [List.mem_eraseDups, List.mem_filter] at hold ⊢
      constructor
      · rintro ⟨hmem, hid⟩
        exact ⟨hid, .inl hmem⟩
      · rintro ⟨hid, hmem | rfl⟩
        · exact ⟨hmem, hid⟩
        · by_contra hnot
          exact hold ⟨hid, hnot⟩
  · rename_i hlegacy
    rw [hlegacy, List.mem_eraseDups, List.mem_filter]
    simp [and_comm]

section Reads

variable (s : State)

@[simp] theorem stringOrNull_read : stringOrNull s.read.currentReleaseId = s.read.currentReleaseId ∧
    stringOrNull s.read.lastSuccessAt = s.read.lastSuccessAt ∧ stringOrNull s.read.staleAckUntil = s.read.staleAckUntil ∧
    stringOrNull s.read.staleAckReleaseId = s.read.staleAckReleaseId := by
  unfold State.read
  cases s.file with
  | none => exact ⟨rfl, rfl, rfl, rfl⟩
  | some parsed => exact ⟨stringOrNull_idem _, stringOrNull_idem _, stringOrNull_idem _, stringOrNull_idem _⟩

theorem isReleaseId_of_mem_history {id : String} (h : id ∈ s.read.staleAckUsedForReleaseIds) : isReleaseId id = true := by
  unfold State.read at h
  cases hfile : s.file with
  | none =>
    rw [hfile] at h
    cases h
  | some parsed =>
    rw [hfile] at h
    exact (mem_readHistory.1 h).1

end Reads

variable {s s' : State}

/-! ## The active release -/

theorem current_of_pointer {id : String} (hpointer : s.pointer = some id) (hid : isReleaseId id = true) (hmem : id ∈ s.releases) :
    getCurrentPersonalConfigRelease s = some id := by
  simp [getCurrentPersonalConfigRelease, hpointer, Option.filter, hid, hmem]

theorem isReleaseId_of_current {id : String} (h : getCurrentPersonalConfigRelease s = some id) : isReleaseId id = true := by
  obtain ⟨h, -⟩ := Option.filter_eq_some_iff.1 h
  rcases Option.or_eq_some_iff.1 h with h | ⟨-, h⟩
  · exact (Option.filter_eq_some_iff.1 h).2
  · exact (Option.filter_eq_some_iff.1 h).2

/-- The state's release counts only where the pointer has none, and then it may be written again. -/
theorem current_congr (hpointer : s'.pointer = s.pointer) (hreleases : s'.releases = s.releases)
    (hstate : s'.read.currentReleaseId = s.read.currentReleaseId ∨
      s'.read.currentReleaseId = getCurrentPersonalConfigRelease s ∧ getCurrentPersonalConfigRelease s ≠ none) :
    getCurrentPersonalConfigRelease s' = getCurrentPersonalConfigRelease s := by
  rcases hstate with hstate | ⟨hstate, hsome⟩
  · simp only [getCurrentPersonalConfigRelease, hpointer, hreleases, hstate]
  · obtain ⟨id, hid⟩ := Option.ne_none_iff_exists'.1 hsome
    rw [hid] at hstate ⊢
    have hvalid := isReleaseId_of_current hid
    obtain ⟨hor, hmem⟩ := Option.filter_eq_some_iff.1 hid
    have hor' : ((s'.pointer.filter fun id => isReleaseId id).or
        (s'.read.currentReleaseId.filter fun id => isReleaseId id)) = some id := by
      rw [hpointer, hstate]
      rcases Option.or_eq_some_iff.1 hor with h | ⟨h, -⟩
      · exact Option.or_eq_some_iff.2 (.inl h)
      · refine Option.or_eq_some_iff.2 (.inr ⟨h, ?_⟩)
        simp [Option.filter, hvalid]
    unfold getCurrentPersonalConfigRelease
    rw [hor', hreleases]
    exact Option.filter_some_pos hmem

theorem current_createRelease (s : State) (commit : String) :
    getCurrentPersonalConfigRelease (createRelease s commit) = getCurrentPersonalConfigRelease s ∨
      getCurrentPersonalConfigRelease (createRelease s commit) = some commit := by
  unfold createRelease
  split
  · exact .inl rfl
  have hread : ∀ releases, (State.read { s with releases := releases }) = s.read := fun _ => rfl
  simp only [getCurrentPersonalConfigRelease, hread]
  cases h : (s.pointer.filter fun id => isReleaseId id).or (s.read.currentReleaseId.filter fun id => isReleaseId id) with
  | none => exact .inl rfl
  | some id =>
    by_cases hc : id = commit
    · right
      simp [hc, Option.filter]
    · left
      simp [hc, Option.filter]

theorem mem_createRelease (s : State) (commit : String) : commit ∈ (createRelease s commit).releases := by
  unfold createRelease
  split
  · exact ‹_›
  · exact List.mem_append_right _ List.mem_cons_self

/-! ## One step -/

/-- The state that a completed sync writes. -/
def syncedState (releaseId lastSuccessAt : String) : PersonalConfigState :=
  ⟨some releaseId, some lastSuccessAt, none, none, none, none, [], true⟩

def rolledBackState (prior : PersonalConfigState) (releaseId : String) : PersonalConfigState :=
  { prior with currentReleaseId := some releaseId, staleAckUntil := none, staleAckReleaseId := none }

def unsyncedState (prior : PersonalConfigState) : PersonalConfigState :=
  { prior with lastSyncError := some PERSONAL_CONFIG_SYNC_ERROR_WITHHELD }

def acknowledgedState (prior : PersonalConfigState) (active staleAckUntil : String) : PersonalConfigState :=
  { prior with
    currentReleaseId := some active
    staleAckUntil := some staleAckUntil
    staleAckReleaseId := some active
    staleAckUsedForReleaseId := some active
    staleAckUsedForReleaseIds := prior.staleAckUsedForReleaseIds ++ [active]
    staleAckHistoryComplete := true }

/-- An effect that says nothing of freshness. -/
def Effect.Quiet : Effect → Prop
  | .failed | .interrupted | .other => True
  | _ => False

/-- What a step does. -/
inductive Move (dp : DateParse) (s : State) : Event → State → Effect → Prop
  | still (e : Event) (f : Effect) (hf : f.Quiet) : Move dp s e s f
  | unsynced : Move dp s (.sync .fetchFailed) (s.write (unsyncedState s.read)) .failed
  | created (commit : String) : Move dp s (.sync (.verified commit .beforePointer)) (createRelease s commit) .interrupted
  | pointed (commit : String) (stop : Stop) (hid : isReleaseId commit = true) :
      Move dp s (.sync (.verified commit stop)) (writeCurrentReleasePointer (createRelease s commit) commit) .interrupted
  | synced (commit lastSuccessAt : String) (stop : Stop) (hid : isReleaseId commit = true)
      (htime : toISOString s.now = some lastSuccessAt) :
      Move dp s (.sync (.verified commit stop))
        ((writeCurrentReleasePointer (createRelease s commit) commit).write (syncedState commit lastSuccessAt))
        (.synced commit s.now)
  | turned (releaseId : String) (stop : Stop) (hid : isReleaseId releaseId = true) (hmem : releaseId ∈ s.releases) :
      Move dp s (.rollback releaseId stop) (writeCurrentReleasePointer s releaseId) .interrupted
  | rolledBack (releaseId : String) (stop : Stop) (hid : isReleaseId releaseId = true) (hmem : releaseId ∈ s.releases) :
      Move dp s (.rollback releaseId stop)
        ((writeCurrentReleasePointer s releaseId).write (rolledBackState s.read releaseId)) (.rolledBack releaseId)
  | granted (maxStaleHours : ℚ) (now : ℕ) (stopped : Bool) (active staleAckUntil : String)
      (hactive : getCurrentPersonalConfigRelease s = some active) (hnew : active ∉ s.read.staleAckUsedForReleaseIds)
      (htime : toISOString (now + 24 * hourMs) = some staleAckUntil) :
      Move dp s (.acknowledge maxStaleHours now stopped) (s.write (acknowledgedState s.read active staleAckUntil))
        (.granted active now)
  | fresh (maxStaleHours : ℚ)
      (h : isKitStale dp s.read maxStaleHours s.now (getCurrentPersonalConfigRelease s) = false) :
      Move dp s (.assertFresh maxStaleHours) s (.fresh (getCurrentPersonalConfigRelease s) maxStaleHours s.now)
  | tick (ms : ℕ) : Move dp s (.tick ms) { s with now := s.now + ms } .other

variable {dp : DateParse}

theorem syncPersonalConfig_move (s : State) (outcome : SyncOutcome) :
    Move dp s (.sync outcome) (syncPersonalConfig s outcome).1 (syncPersonalConfig s outcome).2 := by
  cases outcome with
  | refused => exact .still _ _ trivial
  | fetchFailed => exact .unsynced
  | verified commit stop =>
    simp only [syncPersonalConfig]
    split
    · exact .still _ _ trivial
    rename_i hid
    rw [Bool.not_eq_true', Bool.not_eq_false] at hid
    cases stop with
    | beforeRelease => exact .still _ _ trivial
    | beforePointer => exact .created commit
    | beforeState => exact .pointed commit _ hid
    | completed =>
      have hnow : (writeCurrentReleasePointer (createRelease s commit) commit).now = s.now := by
        simp only [writeCurrentReleasePointer, createRelease]
        split <;> rfl
      simp only [recordSync, hnow]
      split
      · exact .pointed commit _ hid
      · exact .synced commit _ _ hid ‹_›

theorem rollbackPersonalConfig_move (s : State) (releaseId : String) (stop : Stop) :
    Move dp s (.rollback releaseId stop) (rollbackPersonalConfig s releaseId stop).1 (rollbackPersonalConfig s releaseId stop).2 := by
  unfold rollbackPersonalConfig
  split
  · exact .still _ _ trivial
  rename_i h
  simp only [Bool.or_eq_true, Bool.not_eq_true', decide_eq_true_eq, not_or, Bool.not_eq_false, not_not] at h
  cases stop with
  | beforeRelease | beforePointer => exact .still _ _ trivial
  | beforeState => exact .turned releaseId _ h.1 h.2
  | completed => exact .rolledBack releaseId _ h.1 h.2

theorem acknowledgeKitStale_move (s : State) (maxStaleHours : ℚ) (now : ℕ) (stopped : Bool) :
    Move dp s (.acknowledge maxStaleHours now stopped) (acknowledgeKitStale dp s maxStaleHours now stopped).1
      (acknowledgeKitStale dp s maxStaleHours now stopped).2 := by
  unfold acknowledgeKitStale
  split
  · exact .still _ _ trivial
  rename_i active hactive
  split
  · exact .still _ _ trivial
  split
  · exact .still _ _ trivial
  split
  · exact .still _ _ trivial
  rename_i hnew
  split
  · exact .still _ _ trivial
  rename_i staleAckUntil htime
  split
  · exact .still _ _ trivial
  · exact .granted maxStaleHours now stopped active staleAckUntil hactive hnew htime

theorem step_move (s : State) (e : Event) : Move dp s e (step dp s e).1 (step dp s e).2 := by
  cases e with
  | sync outcome => exact syncPersonalConfig_move s outcome
  | rollback releaseId stop => exact rollbackPersonalConfig_move s releaseId stop
  | acknowledge maxStaleHours now stopped =>
    simp only [step]
    split
    · exact acknowledgeKitStale_move s maxStaleHours now stopped
    · exact .still _ _ trivial
  | assertFresh maxStaleHours =>
    simp only [step, assertKitFresh]
    split
    · exact .still _ _ trivial
    · rename_i h
      exact .fresh maxStaleHours (Bool.eq_false_iff.2 h)
  | tick ms => exact .tick ms

/-- Freshness rests on the last success, if there is no acknowledgement. -/
theorem fresh_of_lastSuccess {state state' : PersonalConfigState} {maxStaleHours : ℚ} {now : ℕ} {active active' : Option String}
    (hlast : state'.lastSuccessAt = state.lastSuccessAt) (hack : state'.staleAckUntil = none)
    (h : isKitStale dp state' maxStaleHours now active' = false) : isKitStale dp state maxStaleHours now active = false := by
  unfold isKitStale at h ⊢
  rw [hlast] at h
  split
  · rename_i hnone
    rw [hnone] at h
    cases h
  · rename_i ms hms
    rw [hms, hack] at h
    simp only [Option.bind_none, Option.any_none, Bool.false_eq_true, and_false, if_false] at h
    split
    · rfl
    · exact h

/-- A step that leaves the state file and the active release as they are. -/
theorem Orderly.keep {e : Event} {f : Effect} (hf : f.Ends → False) (hread : s'.read = s.read)
    (hactive : getCurrentPersonalConfigRelease s' = getCurrentPersonalConfigRelease s) : Orderly dp s e s' f := by
  refine ⟨.inl hactive, fun h => (hf h).elim, ?_, ?_⟩
  · intro _ _
    rw [hread]
    exact ⟨rfl, .inl ⟨rfl, rfl⟩⟩
  · intro _ maxStaleHours now h
    rw [← hread, ← hactive]
    exact h

/-- An interruption after the pointer has been written, or before. -/
theorem Orderly.interrupt {e : Event} (hread : s'.read = s.read)
    (hactive : getCurrentPersonalConfigRelease s' = getCurrentPersonalConfigRelease s ∨
      e.target ≠ none ∧ getCurrentPersonalConfigRelease s' = e.target) : Orderly dp s e s' .interrupted := by
  refine ⟨hactive, fun h => h.elim, ?_, ?_⟩
  · intro _ _
    rw [hread]
    exact ⟨rfl, .inl ⟨rfl, rfl⟩⟩
  · rintro (h | ⟨releaseId, h⟩)
    · cases h
    · cases h

theorem createRelease_file (s : State) (commit : String) : (createRelease s commit).read = s.read := by
  unfold createRelease
  split <;> rfl

theorem orderly_move {e : Event} {f : Effect} (h : Move dp s e s' f) : Orderly dp s e s' f := by
  cases h with
  | still e f hf =>
    refine .keep ?_ rfl rfl
    intro hends
    cases f <;> first | exact hf | exact hends
  | unsynced =>
    have hcurrent : getCurrentPersonalConfigRelease (s.write (unsyncedState s.read)) = getCurrentPersonalConfigRelease s :=
      current_congr rfl rfl (.inl (stringOrNull_read s).1)
    have hlast : (s.write (unsyncedState s.read)).read.lastSuccessAt = s.read.lastSuccessAt := (stringOrNull_read s).2.1
    have huntil : (s.write (unsyncedState s.read)).read.staleAckUntil = s.read.staleAckUntil := (stringOrNull_read s).2.2.1
    have hrelease : (s.write (unsyncedState s.read)).read.staleAckReleaseId = s.read.staleAckReleaseId :=
      (stringOrNull_read s).2.2.2
    refine ⟨.inl hcurrent, fun h => h.elim, fun _ _ => ⟨hlast, .inl ⟨huntil, hrelease⟩⟩, ?_⟩
    intro _ maxStaleHours now h
    simpa only [isKitStale, hcurrent, hlast, huntil, hrelease] using h
  | created commit =>
    refine .interrupt (createRelease_file s commit) ?_
    rcases current_createRelease s commit with h | h
    · exact .inl h
    · exact .inr ⟨nofun, h⟩
  | pointed commit stop hid =>
    refine .interrupt (createRelease_file s commit) (.inr ⟨nofun, ?_⟩)
    exact current_of_pointer rfl hid (mem_createRelease s commit)
  | synced commit lastSuccessAt stop hid htime =>
    have hcurrent := current_of_pointer
      (s := (writeCurrentReleasePointer (createRelease s commit) commit).write (syncedState commit lastSuccessAt)) rfl hid
      (mem_createRelease s commit)
    refine ⟨.inr ⟨nofun, hcurrent⟩, fun _ => ⟨hcurrent, ?_⟩, nofun, ?_⟩
    · exact stringOrNull_some (ne_empty_of_isReleaseId hid)
    · rintro (h | ⟨releaseId, h⟩)
      · cases h
      · cases h
  | turned releaseId stop hid hmem =>
    exact .interrupt rfl (.inr ⟨nofun, current_of_pointer rfl hid hmem⟩)
  | rolledBack releaseId stop hid hmem =>
    have hcurrent := current_of_pointer
      (s := (writeCurrentReleasePointer s releaseId).write (rolledBackState s.read releaseId)) rfl hid hmem
    have hlast : ((writeCurrentReleasePointer s releaseId).write (rolledBackState s.read releaseId)).read.lastSuccessAt =
        s.read.lastSuccessAt := (stringOrNull_read s).2.1
    refine ⟨.inr ⟨nofun, hcurrent⟩, fun _ => ⟨hcurrent, ?_⟩, fun _ _ => ⟨hlast, .inr ⟨rfl, rfl⟩⟩, ?_⟩
    · exact stringOrNull_some (ne_empty_of_isReleaseId hid)
    · intro _ maxStaleHours now h
      exact fresh_of_lastSuccess hlast rfl h
  | granted maxStaleHours now stopped active staleAckUntil hactive hnew htime =>
    have hvalid := isReleaseId_of_current hactive
    have hcurrent : getCurrentPersonalConfigRelease (s.write (acknowledgedState s.read active staleAckUntil)) =
        getCurrentPersonalConfigRelease s := by
      refine current_congr rfl rfl (.inr ⟨?_, ?_⟩)
      · rw [hactive]
        exact stringOrNull_some (ne_empty_of_isReleaseId hvalid)
      · rw [hactive]
        nofun
    refine ⟨.inl hcurrent, fun h => h.elim, ?_, ?_⟩
    · intro _ hnot
      exact absurd rfl (hnot active now)
    · rintro (h | ⟨releaseId, h⟩)
      · cases h
      · cases h
  | fresh maxStaleHours h | tick ms => exact .keep (fun h => h) rfl rfl

/-! ## Runs -/

theorem lastSync_concat (past : List Effect) (f : Effect) : lastSync (past ++ [f]) = f.syncTime.or (lastSync past) := by
  rw [lastSync, List.reverse_append]
  cases h : f.syncTime <;> simp [lastSync, h]

theorem InForce.concat {past : List Effect} {releaseId : String} {time : ℕ} (h : InForce past releaseId time) {f : Effect}
    (hf : ¬f.Ends) : InForce (past ++ [f]) releaseId time := by
  obtain ⟨before, after, rfl, hafter⟩ := h
  refine ⟨before, after ++ [f], by simp, ?_⟩
  intro g hg
  rcases List.mem_append.1 hg with hg | hg
  · exact hafter g hg
  · rw [List.mem_singleton.1 hg]
    exact hf

/-- A grant of a trace is its last effect, or one of those before. -/
theorem granted_concat {past before after : List Effect} {f g : Effect} (h : past ++ [f] = before ++ g :: after) :
    after = [] ∧ f = g ∨ ∃ after', after = after' ++ [f] ∧ past = before ++ g :: after' := by
  rcases List.eq_nil_or_concat after with rfl | ⟨after', f', rfl⟩
  · exact .inl ⟨rfl, (List.append_inj' h rfl).2 |> List.singleton_inj.1⟩
  · rw [List.concat_eq_append, ← List.cons_append, ← List.append_assoc] at h
    obtain ⟨hpast, hf⟩ := List.append_inj' h rfl
    right
    refine ⟨after', ?_, hpast⟩
    rw [List.concat_eq_append, List.singleton_inj.1 hf]

structure Inv (dp : DateParse) (s : State) (past : List Effect) : Prop where
  lastSuccess : s.read.lastSuccessAt.bind dp.parse = (lastSync past).map (Nat.cast : ℕ → ℤ)
  ack : ∀ releaseId ackMs, s.read.staleAckReleaseId = some releaseId → s.read.staleAckUntil.bind dp.parse = some ackMs →
    ∃ time, InForce past releaseId time ∧ ackMs = time + 24 * hourMs
  used : ∀ before releaseId time after, past = before ++ .granted releaseId time :: after →
    (∀ f ∈ after, f.syncTime = none) → releaseId ∈ s.read.staleAckUsedForReleaseIds

namespace Inv

variable {past : List Effect}

theorem init (pointer : Option String) (releases : List String) (now : ℕ) : Inv dp (init pointer releases now) [] := by
  refine ⟨rfl, nofun, ?_⟩
  intro before releaseId time after h
  simp at h

/-- A step that is neither a sync nor a grant, and keeps the acknowledgement or drops it. -/
theorem keep (hs : Inv dp s past) {f : Effect} (hsync : f.syncTime = none) (hgrant : ∀ id time, f ≠ .granted id time)
    (hlast : s'.read.lastSuccessAt = s.read.lastSuccessAt)
    (hack : (¬f.Ends ∧ s'.read.staleAckUntil = s.read.staleAckUntil ∧ s'.read.staleAckReleaseId = s.read.staleAckReleaseId) ∨
      s'.read.staleAckReleaseId = none)
    (hused : ∀ id ∈ s.read.staleAckUsedForReleaseIds, id ∈ s'.read.staleAckUsedForReleaseIds) : Inv dp s' (past ++ [f]) := by
  refine ⟨?_, ?_, ?_⟩
  · rw [hlast, lastSync_concat, hsync, Option.none_or]
    exact hs.lastSuccess
  · intro releaseId ackMs hrelease hms
    rcases hack with ⟨hends, huntil, hrel⟩ | hnone
    · rw [hrel] at hrelease
      rw [huntil] at hms
      obtain ⟨time, hforce, htime⟩ := hs.ack releaseId ackMs hrelease hms
      exact ⟨time, hforce.concat hends, htime⟩
    · rw [hnone] at hrelease
      cases hrelease
  · intro before releaseId time after hpast hafter
    rcases granted_concat hpast with ⟨-, hf⟩ | ⟨after', rfl, hbefore⟩
    · exact absurd hf (hgrant releaseId time)
    · exact hused releaseId (hs.used before releaseId time after' hbefore fun g hg => hafter g (List.mem_append_left _ hg))

/-- A step after which the same is read. -/
theorem same (hs : Inv dp s past) {f : Effect} (hsync : f.syncTime = none) (hgrant : ∀ id time, f ≠ .granted id time)
    (hends : ¬f.Ends) (hread : s'.read = s.read) : Inv dp s' (past ++ [f]) := by
  refine hs.keep hsync hgrant ?_ (.inl ⟨hends, ?_, ?_⟩) ?_ <;> rw [hread]
  exact fun _ h => h

theorem parse_of_toISOString {value : Option String} {t : ℤ} {text : String} (h : toISOString t = some text)
    (hvalue : value = stringOrNull (some text)) : value.bind dp.parse = some t := by
  rw [hvalue, stringOrNull_some (ne_empty_of_toISOString h)]
  exact dp.parse_toISOString t text h

theorem move (hs : Inv dp s past) {e : Event} {f : Effect} (h : Move dp s e s' f) : Inv dp s' (past ++ [f]) := by
  cases h with
  | still e f hf =>
    cases f with
    | failed | interrupted | other => exact hs.same rfl nofun (fun h => h) rfl
    | synced | rolledBack | granted | fresh => exact hf.elim
  | unsynced =>
    refine hs.keep rfl nofun (stringOrNull_read s).2.1
      (.inl ⟨fun h => h, (stringOrNull_read s).2.2.1, (stringOrNull_read s).2.2.2⟩) ?_
    intro id hid
    exact mem_readHistory.2 ⟨isReleaseId_of_mem_history s hid, .inl hid⟩
  | created commit | pointed commit stop hid => exact hs.same rfl nofun (fun h => h) (createRelease_file s commit)
  | synced commit lastSuccessAt stop hid htime =>
    refine ⟨?_, ?_, ?_⟩
    · rw [lastSync_concat]
      exact parse_of_toISOString htime rfl
    · intro releaseId ackMs hrelease
      cases hrelease
    · intro before releaseId time after hpast hafter
      rcases granted_concat hpast with ⟨-, hf⟩ | ⟨after', rfl, -⟩
      · cases hf
      · have := hafter _ (List.mem_append_right _ List.mem_cons_self)
        cases this
  | turned releaseId stop hid hmem => exact hs.same rfl nofun (fun h => h) rfl
  | rolledBack releaseId stop hid hmem =>
    refine hs.keep rfl nofun (stringOrNull_read s).2.1 (.inr rfl) ?_
    intro id hid
    exact mem_readHistory.2 ⟨isReleaseId_of_mem_history s hid, .inl hid⟩
  | granted maxStaleHours now stopped active staleAckUntil hactive hnew htime =>
    have hvalid := isReleaseId_of_current hactive
    refine ⟨?_, ?_, ?_⟩
    · rw [lastSync_concat]
      refine Eq.trans ?_ hs.lastSuccess
      exact congrArg (fun o => Option.bind o dp.parse) (stringOrNull_read s).2.1
    · intro releaseId ackMs hrelease hms
      have hrel : some active = some releaseId := (stringOrNull_some (ne_empty_of_isReleaseId hvalid)).symm.trans hrelease
      cases hrel
      have hparse : (s.write (acknowledgedState s.read active staleAckUntil)).read.staleAckUntil.bind dp.parse = some _ :=
        parse_of_toISOString htime rfl
      rw [hparse] at hms
      cases hms
      exact ⟨now, ⟨past, [], rfl, nofun⟩, rfl⟩
    · intro before releaseId time after hpast hafter
      refine mem_readHistory.2 ?_
      rcases granted_concat hpast with ⟨-, hf⟩ | ⟨after', rfl, hbefore⟩
      · cases hf
        exact ⟨hvalid, .inl (List.mem_append_right _ List.mem_cons_self)⟩
      · have hold := hs.used before releaseId time after' hbefore fun g hg => hafter g (List.mem_append_left _ hg)
        exact ⟨isReleaseId_of_mem_history s hold, .inl (List.mem_append_left _ hold)⟩
  | fresh maxStaleHours h | tick ms => exact hs.same rfl nofun (fun h => h) rfl

/-- A fresh check rests on the last sync, or on an acknowledgement in force. -/
theorem fresh (hs : Inv dp s past) {maxStaleHours : ℚ} {now : ℕ} {active : Option String}
    (h : isKitStale dp s.read maxStaleHours now active = false) : Justified past (.fresh active maxStaleHours now) := by
  unfold isKitStale at h
  split at h
  · cases h
  rename_i lastMs hlastMs
  rw [hs.lastSuccess] at hlastMs
  obtain ⟨last, hlast, rfl⟩ := Option.map_eq_some_iff.1 hlastMs
  split at h
  · rename_i hack
    obtain ⟨hsome, hrelease, hms⟩ := hack
    obtain ⟨releaseId, rfl⟩ := Option.ne_none_iff_exists'.1 hsome
    obtain ⟨ackMs, hparse, hlt⟩ := (Option.any_eq_true _ _).1 hms
    obtain ⟨time, hforce, rfl⟩ := hs.ack releaseId ackMs hrelease hparse
    refine .inr ⟨releaseId, time, rfl, hforce, ?_⟩
    have hlt' := of_decide_eq_true hlt
    exact_mod_cast hlt'
  · refine .inl ⟨last, hlast, ?_⟩
    have hle := not_lt.1 (of_decide_eq_false h)
    exact_mod_cast hle

theorem justified (hs : Inv dp s past) {e : Event} {f : Effect} (h : Move dp s e s' f) : Justified past f := by
  cases h with
  | still e f hf =>
    cases f with
    | failed => trivial
    | interrupted => trivial
    | other => trivial
    | synced => trivial
    | rolledBack => trivial
    | granted | fresh => exact hf.elim
  | granted maxStaleHours now stopped active staleAckUntil hactive hnew htime =>
    intro before time after hpast
    by_contra hno
    refine hnew (hs.used before active time after hpast ?_)
    intro f hf
    by_contra hsome
    exact hno ⟨f, hf, hsome⟩
  | fresh maxStaleHours h => exact hs.fresh h
  | unsynced => trivial
  | created => trivial
  | pointed => trivial
  | synced => trivial
  | turned => trivial
  | rolledBack => trivial
  | tick => trivial

end Inv

/-- **Freshness of the Kit.**  In every run, a fresh check and a granted acknowledgement are accounted for by the steps before,
and every operation, also one that is interrupted, leaves an active release and a freshness of before or the ones it is to
bring about. -/
theorem kit_freshness (dp : DateParse) (pointer : Option String) (releases : List String) (now : ℕ) (es : List Event) :
    (∀ past f rest, Run.outputs (step dp) (init pointer releases now) es = past ++ f :: rest → Justified past f) ∧
      Run.Along (step dp) (fun s e => Orderly dp s e (step dp s e).1 (step dp s e).2) (init pointer releases now) es := by
  constructor
  · exact Run.outputs_of_invariant (Inv.init pointer releases now) (fun s _ e hs => hs.move (step_move s e))
      (fun s _ e hs => hs.justified (step_move s e)) es
  · have htrue : Run.Throughout (step dp) (fun _ => True) (init pointer releases now) es :=
      Run.throughout_iff.2 fun _ _ _ => trivial
    exact htrue.along fun s e _ => orderly_move (step_move s e)

def commitA : String := "aaaaaaaaaaaaaaaaaaaaaaaaaaaaaaaaaaaaaaaa"

/-- A sync, its release acknowledged after two days, and a check an hour later. -/
def acknowledgedRun : List Event :=
  [.sync (.verified commitA .completed), .tick (48 * hourMs), .acknowledge 24 (48 * hourMs) false, .tick hourMs, .assertFresh 24]

theorem kit_freshness_acknowledged :
    Justified [.synced commitA 0, .other, .granted commitA (48 * hourMs), .other] (.fresh (some commitA) 24 (49 * hourMs)) ∧
      Run.Along (step isoDateParse) (fun s e => Orderly isoDateParse s e (step isoDateParse s e).1 (step isoDateParse s e).2)
        (init none [] 0) acknowledgedRun :=
  ⟨(kit_freshness isoDateParse none [] 0 acknowledgedRun).1 _ _ [] (by decide +kernel),
    (kit_freshness isoDateParse none [] 0 acknowledgedRun).2⟩

end LlmGateway.Kit.Freshness
