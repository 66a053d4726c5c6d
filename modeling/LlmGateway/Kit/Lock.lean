import Mathlib.Logic.Function.Basic
import LlmGateway.Lib.Run

/-!
# The lock of the Personal Config Kit

`withKitLock` and what it calls (personal-config.ts), for any number of processes on one host.  A step is one call on the file
system or one probe of a pid; the private temporary file from which a record is linked, and the descriptor, are left out.

* `Stage`, `Then` — where a process stands, and what follows once `unlinkKitLockIfTokenMatches` returns;
* `step` — any order of the processes' steps, with crashes;
* `Undisturbed`, `safe_throughout` — the lock is exclusive as long as no reclaimer moves another record aside than that of the
  dead owner it has found;
* `withKitLock_spec` — with that, and that dead records do not stop a process that runs alone.
-/

namespace LlmGateway.Kit

open LlmGateway.Lib

structure KitLockOwner where
  token : ℕ
  pid : ℕ
  hostname : String
deriving DecidableEq

/-- What is at a path: a lock record, or a placeholder that names no owner. -/
inductive Entry where
  | record (owner : KitLockOwner)
  | ambiguous
deriving DecidableEq

def readKitLockOwner : Entry → Option KitLockOwner
  | .record owner => some owner
  | .ambiguous => none

/-- `lockPath` and its `.recovery`. -/
inductive Path where
  | lock
  | recovery
deriving DecidableEq

/-- Where `unlinkKitLockIfTokenMatches` has been called. -/
inductive Then where
  /-- for a recovery lock whose owner is dead -/
  | staleRecovery (token : ℕ)
  /-- for a lock whose owner is dead, with the token of the caller's recovery lock -/
  | staleLock (token recovery : ℕ)
  /-- for the caller's own recovery lock, with what it will return -/
  | recovered (token : ℕ) (reclaimed : Bool)
  /-- for the caller's own lock -/
  | released (token : ℕ)
deriving DecidableEq

def Then.path : Then → Path
  | .staleRecovery _ | .recovered _ _ => .recovery
  | .staleLock _ _ | .released _ => .lock

/-- The next call of a process. -/
inductive Stage where
  | idle
  /-- `acquireKitLock(lockPath)`; `again` after the lock has been reclaimed -/
  | link (token : ℕ) (again : Bool)
  | running (token : ℕ)
  /-- `acquireRecoveryLock`; `again` after a stale one has been removed -/
  | linkRecovery (token : ℕ) (again : Bool)
  | readRecovery (token : ℕ)
  | probeRecovery (token : ℕ) (owner : KitLockOwner)
  | readLock (token recovery : ℕ)
  | probeLock (token recovery : ℕ) (owner : KitLockOwner)
  /-- `unlinkKitLockIfTokenMatches`: move aside, read, unlink -/
  | rename (k : Then) (expected : ℕ)
  | inspect (k : Then) (expected : ℕ) (moved : Entry)
  | discard (k : Then)
  /-- `restoreQuarantinedKitLock`, and `preserveAmbiguousKitLock` -/
  | relink (k : Then) (moved : Entry)
  | unlinkQuarantine (k : Then)
  | exists (k : Then)
  | preserve (k : Then)
deriving DecidableEq

structure State where
  lock : Option Entry
  recovery : Option Entry
  /-- for each token that has been drawn, the process that drew it -/
  drawn : List ℕ
  dead : List ℕ
  procs : ℕ → Stage

def init : State := ⟨none, none, [], [], fun _ => .idle⟩

namespace State

def entry (s : State) : Path → Option Entry
  | .lock => s.lock
  | .recovery => s.recovery

def write (s : State) (entry : Option Entry) : Path → State
  | .lock => { s with lock := entry }
  | .recovery => { s with recovery := entry }

def draw (s : State) (p : ℕ) : State := { s with drawn := s.drawn ++ [p] }

def put (s : State) (p : ℕ) (stage : Stage) : State := { s with procs := Function.update s.procs p stage }

end State

section Host

variable (hostname : String)

def isConfirmedDeadLocalKitLockOwner (s : State) (owner : KitLockOwner) : Bool :=
  owner.hostname = hostname && s.dead.contains owner.pid

/-- The lock record of a process. -/
def ownRecord (p token : ℕ) : Entry := .record ⟨token, p, hostname⟩

/-- `unlinkKitLockIfTokenMatches` has returned. -/
def resume (k : Then) (unlinked : Bool) : Stage :=
  match k with
  | .staleRecovery token => if unlinked then .linkRecovery token true else .idle
  | .staleLock token recovery => .rename (.recovered token unlinked) recovery
  | .recovered token reclaimed => if reclaimed then .link token true else .idle
  | .released _ => .idle

/-- The next call of a process that is not running its action. -/
def advance (s : State) (p : ℕ) : Stage → State
  | .idle => s
  | .running _ => s
  | .link token again =>
    match s.lock with
    | none => ({ s with lock := some (ownRecord hostname p token) }).put p (.running token)
    | some _ => s.put p (if again then .idle else .linkRecovery token false)
  | .linkRecovery token again =>
    match s.recovery with
    | none =>
      (({ s with recovery := some (ownRecord hostname p s.drawn.length) }).draw p).put p (.readLock token s.drawn.length)
    | some _ => (s.draw p).put p (if again then .idle else .readRecovery token)
  | .readRecovery token =>
    match s.recovery.bind readKitLockOwner with
    | none => s.put p .idle
    | some owner => s.put p (.probeRecovery token owner)
  | .probeRecovery token owner =>
    s.put p (if isConfirmedDeadLocalKitLockOwner hostname s owner then .rename (.staleRecovery token) owner.token else .idle)
  | .readLock token recovery =>
    match s.lock.bind readKitLockOwner with
    | none => s.put p (.rename (.recovered token false) recovery)
    | some owner => s.put p (.probeLock token recovery owner)
  | .probeLock token recovery owner =>
    s.put p (if isConfirmedDeadLocalKitLockOwner hostname s owner then .rename (.staleLock token recovery) owner.token
      else .rename (.recovered token false) recovery)
  | .rename k expected =>
    match s.entry k.path with
    | none => s.put p (resume k false)
    | some moved => (s.write none k.path).put p (.inspect k expected moved)
  | .inspect k expected moved =>
    s.put p (if (readKitLockOwner moved).map KitLockOwner.token = some expected then .discard k else .relink k moved)
  | .discard k => s.put p (resume k true)
  | .relink k moved =>
    match s.entry k.path with
    | none => (s.write (some moved) k.path).put p (.unlinkQuarantine k)
    | some _ => s.put p (.exists k)
  | .unlinkQuarantine k => s.put p (resume k false)
  | .exists k => s.put p (if (s.entry k.path).isSome then resume k false else .preserve k)
  | .preserve k =>
    match s.entry k.path with
    | none => (s.write (some .ambiguous) k.path).put p (resume k false)
    | some _ => s.put p (resume k false)

inductive Event where
  /-- a process calls `withKitLock` -/
  | call (p : ℕ)
  | next (p : ℕ)
  /-- its action returns, or throws -/
  | finish (p : ℕ)
  | crash (p : ℕ)
deriving DecidableEq

def step (s : State) : Event → State × Unit
  | .call p =>
    if p ∉ s.dead ∧ s.procs p = .idle then ((s.draw p).put p (.link s.drawn.length false), ()) else (s, ())
  | .next p => if p ∉ s.dead then (advance hostname s p (s.procs p), ()) else (s, ())
  | .finish p =>
    match s.procs p with
    | .running token => if p ∉ s.dead then (s.put p (.rename (.released token) token), ()) else (s, ())
    | _ => (s, ())
  | .crash p => ({ s with dead := p :: s.dead }, ())

end Host

/-! ## The statement -/

/-- The process has the lock: its action runs, or it is about to move its own record aside. -/
def Stage.Holds (token : ℕ) : Stage → Prop
  | .running t => t = token
  | .rename (.released t) _ => t = token
  | _ => False

/-- At most one live process runs its action, and the record of a live holder is in place. -/
structure Safe (hostname : String) (s : State) : Prop where
  exclusive : ∀ p q a b, p ∉ s.dead → q ∉ s.dead → s.procs p = .running a → s.procs q = .running b → p = q
  published : ∀ p token, p ∉ s.dead → (s.procs p).Holds token → s.lock = some (ownRecord hostname p token)

/-- A reclaimer that moves a lock record aside moves that of the dead owner that it has found. -/
def Undisturbed (s : State) : Event → Prop
  | .next p =>
    match s.procs p with
    | .rename (.staleLock _ _) expected =>
      p ∉ s.dead → (s.lock.all fun moved => (readKitLockOwner moved).map KitLockOwner.token = some expected) = true
    | _ => True
  | _ => True

instance (s : State) (e : Event) : Decidable (Undisturbed s e) := by
  unfold Undisturbed
  split
  · split <;> infer_instance
  · infer_instance

/-! ## Exclusion -/

variable {hostname : String}

def Then.token : Then → ℕ
  | .staleRecovery token | .staleLock token _ | .recovered token _ | .released token => token

/-- The token of the process's own lock record. -/
def Stage.token : Stage → Option ℕ
  | .idle => none
  | .link token _ | .running token | .linkRecovery token _ | .readRecovery token | .probeRecovery token _ | .readLock token _
  | .probeLock token _ _ => some token
  | .rename k _ | .inspect k _ _ | .discard k | .relink k _ | .unlinkQuarantine k | .exists k | .preserve k => some k.token

/-- The token of the record has been drawn by its owner. -/
def Known (s : State) (owner : KitLockOwner) : Prop := s.drawn[owner.token]? = some owner.pid

/-- What a process has read at `lockPath`. -/
def Stage.Read (s : State) : Stage → Prop
  | .probeLock _ _ owner => Known s owner
  | .rename (.staleLock _ _) expected => ∃ pid ∈ s.dead, s.drawn[expected]? = some pid
  | .inspect k _ moved | .relink k moved => k.path = .lock → ∀ owner, moved = .record owner → Known s owner
  | _ => True

structure Inv (hostname : String) (s : State) : Prop where
  published : ∀ p token, p ∉ s.dead → (s.procs p).Holds token → s.lock = some (ownRecord hostname p token)
  known : ∀ owner, s.lock = some (.record owner) → Known s owner
  token : ∀ p token, (s.procs p).token = some token → s.drawn[token]? = some p
  read : ∀ p, (s.procs p).Read s

/-- The token of a record says whose it is. -/
theorem ownRecord_inj {p q a b : ℕ} (h : some (ownRecord hostname p a) = some (ownRecord hostname q b)) : p = q := by
  simp only [ownRecord, Option.some.injEq, Entry.record.injEq, KitLockOwner.mk.injEq] at h
  exact h.2.1

theorem Inv.safe {s : State} (hs : Inv hostname s) : Safe hostname s := by
  refine ⟨?_, hs.published⟩
  intro p q a b hp hq ha hb
  have hpa := hs.published p a hp (by rw [ha]; rfl)
  have hqb := hs.published q b hq (by rw [hb]; rfl)
  exact ownRecord_inj (hpa.symm.trans hqb)

theorem inv_init : Inv hostname init := by
  refine ⟨?_, ?_, ?_, fun p => trivial⟩
  · intro p token _ h
    exact h.elim
  · intro owner h
    cases h
  · intro p token h
    cases h

theorem getElem?_of_isPrefix {l l' : List ℕ} (h : l <+: l') {i a : ℕ} (hi : l[i]? = some a) : l'[i]? = some a := by
  obtain ⟨t, rfl⟩ := h
  obtain ⟨hlt, -⟩ := List.getElem?_eq_some_iff.1 hi
  rw [List.getElem?_append_left hlt, hi]

/-- What has been read stays so when tokens are drawn and processes crash. -/
theorem Stage.Read.mono {s s' : State} (hdrawn : s.drawn <+: s'.drawn) (hdead : ∀ p ∈ s.dead, p ∈ s'.dead) {stage : Stage}
    (h : stage.Read s) : stage.Read s' := by
  cases stage with
  | probeLock token recovery owner => exact getElem?_of_isPrefix hdrawn h
  | rename k expected =>
    cases k with
    | staleLock token recovery =>
      obtain ⟨pid, hpid, hexpected⟩ := h
      exact ⟨pid, hdead pid hpid, getElem?_of_isPrefix hdrawn hexpected⟩
    | _ => trivial
  | inspect k expected moved | relink k moved => exact fun hk owner ho => getElem?_of_isPrefix hdrawn (h hk owner ho)
  | _ => trivial

/-- What a step of `p` makes of `lockPath`. -/
inductive LockMove (s s' : State) (p : ℕ) : Prop
  | same (h : s'.lock = s.lock)
  | written (hnone : s.lock = none) (h : ∀ owner, s'.lock = some (.record owner) → Known s' owner)
  | cleared (hnone : s'.lock = none) (h : ∀ q token, q ≠ p → q ∉ s.dead → ¬(s.procs q).Holds token)

/-- **One step**: the process `p` moves on to a stage, and the others stay where they are. -/
theorem Inv.put {s s' : State} (hs : Inv hostname s) (p : ℕ) {stage : Stage} (hprocs : s'.procs = s.procs)
    (hdead : s'.dead = s.dead) (hdrawn : s.drawn <+: s'.drawn) (hlock : LockMove s s' p)
    (hholds : ∀ token, stage.Holds token → s'.lock = some (ownRecord hostname p token))
    (htoken : ∀ token, stage.token = some token → s'.drawn[token]? = some p) (hread : stage.Read s') :
    Inv hostname (s'.put p stage) := by
  have hput : ∀ q, (s'.put p stage).procs q = if q = p then stage else s.procs q := by
    intro q
    simp only [State.put, hprocs, Function.update_apply]
  refine ⟨?_, ?_, ?_, ?_⟩
  · intro q token hq h
    rw [hput] at h
    split at h
    · subst q
      exact hholds token h
    · rename_i hne
      have hq' : q ∉ s.dead := hdead ▸ hq
      have hold := hs.published q token hq' h
      cases hlock with
      | same hsame => exact hsame.trans hold
      | written hnone =>
        rw [hnone] at hold
        cases hold
      | cleared _ hno => exact absurd h (hno q token hne hq')
  · intro owner h
    cases hlock with
    | same hsame => exact getElem?_of_isPrefix hdrawn (hs.known owner (hsame.symm.trans h))
    | written _ hknown => exact hknown owner h
    | cleared hnone =>
      have : (none : Option Entry) = some (.record owner) := hnone.symm.trans h
      cases this
  · intro q token h
    rw [hput] at h
    split at h
    · subst q
      exact htoken token h
    · exact getElem?_of_isPrefix hdrawn (hs.token q token h)
  · intro q
    rw [hput]
    split
    · exact hread
    · refine (hs.read q).mono hdrawn ?_
      intro a ha
      exact hdead ▸ ha

/-- A step that leaves `lockPath` as it is. -/
theorem Inv.move {s : State} (hs : Inv hostname s) (p : ℕ) {stage : Stage} (hholds : ∀ token, ¬stage.Holds token)
    (htoken : ∀ token, stage.token = some token → s.drawn[token]? = some p) (hread : stage.Read s) : Inv hostname (s.put p stage) :=
  hs.put p rfl rfl List.prefix_rfl (.same rfl) (fun token h => absurd h (hholds token)) htoken hread

/-- What follows once `unlinkKitLockIfTokenMatches` has returned relies on nothing. -/
theorem resume_ok (s : State) (k : Then) (b : Bool) :
    (∀ token, ¬(resume k b).Holds token) ∧ (∀ token, (resume k b).token = some token → token = k.token) ∧
      (resume k b).Read s := by
  cases k with
  | staleRecovery token => cases b <;> exact ⟨fun _ h => h, by rintro _ ⟨⟩ <;> rfl, trivial⟩
  | staleLock token recovery => exact ⟨fun _ h => h, by rintro _ ⟨⟩; rfl, trivial⟩
  | recovered token reclaimed => cases reclaimed <;> exact ⟨fun _ h => h, by rintro _ ⟨⟩ <;> rfl, trivial⟩
  | released token => exact ⟨fun _ h => h, nofun, trivial⟩

theorem Inv.resume {s : State} (hs : Inv hostname s) {p : ℕ} {k : Then} (hk : s.drawn[k.token]? = some p) (b : Bool) :
    Inv hostname (s.put p (Kit.resume k b)) := by
  obtain ⟨hholds, htoken, hread⟩ := resume_ok s k b
  refine hs.move p hholds ?_ hread
  intro token h
  rw [htoken token h]
  exact hk

/-- A lock that is free when a process writes it. -/
theorem Inv.write {s : State} (hs : Inv hostname s) {p : ℕ} {k : Then} (entry : Entry) (hnone : s.entry k.path = none)
    (hentry : k.path = .lock → ∀ owner, entry = .record owner → Known s owner) {stage : Stage}
    (hholds : ∀ token, ¬stage.Holds token) (htoken : ∀ token, stage.token = some token → s.drawn[token]? = some p)
    (hread : stage.Read (s.write (some entry) k.path)) : Inv hostname ((s.write (some entry) k.path).put p stage) := by
  cases hk : k.path with
  | lock =>
    rw [hk] at hnone hread
    refine hs.put p rfl rfl List.prefix_rfl (.written hnone ?_) (fun token h => absurd h (hholds token)) htoken hread
    rintro owner ⟨⟩
    exact hentry hk owner rfl
  | recovery =>
    rw [hk] at hread
    exact hs.put p rfl rfl List.prefix_rfl (.same rfl) (fun token h => absurd h (hholds token)) htoken hread

/-- The record that is moved aside is that of a dead owner, or the process's own. -/
theorem rename_cleared {s : State} (hs : Inv hostname s) {p expected : ℕ} {k : Then} (hstage : s.procs p = .rename k expected)
    (hp : p ∉ s.dead) (hpath : k.path = .lock) (hc : Undisturbed s (.next p))
    (q token : ℕ) (hne : q ≠ p) (hq : q ∉ s.dead) : ¬(s.procs q).Holds token := by
  intro hholds
  have hq' := hs.published q token hq hholds
  cases k with
  | staleRecovery => cases hpath
  | recovered => cases hpath
  | released own =>
    have hown := hs.published p own hp (by rw [hstage]; rfl)
    exact hne (ownRecord_inj (hq'.symm.trans hown))
  | staleLock own recovery =>
    simp only [Undisturbed, hstage] at hc
    have hmatch := hc hp
    rw [hq'] at hmatch
    simp only [Option.all_some, ownRecord, readKitLockOwner, Option.map_some, Option.some.injEq, decide_eq_true_eq] at hmatch
    obtain ⟨pid, hpid, hdrawn⟩ : ∃ pid ∈ s.dead, s.drawn[expected]? = some pid := by
      have := hs.read p
      rw [hstage] at this
      exact this
    have hknown : s.drawn[token]? = some q := hs.known _ hq'
    rw [hmatch, hdrawn] at hknown
    cases hknown
    exact hq hpid

theorem inv_advance {s : State} (hs : Inv hostname s) {p : ℕ} (hp : p ∉ s.dead) (hc : Undisturbed s (.next p)) :
    Inv hostname (advance hostname s p (s.procs p)) := by
  have htoken := hs.token p
  have hread := hs.read p
  cases hstage : s.procs p with
  | idle => exact hs
  | running token => exact hs
  | link token again =>
    rw [hstage] at htoken
    simp only [advance]
    split
    · rename_i hnone
      refine hs.put p rfl rfl List.prefix_rfl (.written hnone ?_) ?_ ?_ trivial
      · rintro owner ⟨⟩
        exact htoken token rfl
      · rintro t rfl
        rfl
      · exact htoken
    · cases again with
      | true => exact hs.move p (fun _ h => h) nofun trivial
      | false => exact hs.move p (fun _ h => h) htoken trivial
  | linkRecovery token again =>
    rw [hstage] at htoken
    have hdraw : s.drawn <+: s.drawn ++ [p] := List.prefix_append _ _
    have htoken' : ∀ t, some token = some t → (s.drawn ++ [p])[t]? = some p :=
      fun t ht => getElem?_of_isPrefix hdraw (htoken t ht)
    simp only [advance]
    split
    · exact hs.put p rfl rfl hdraw (.same rfl) (fun _ h => h.elim) htoken' trivial
    · cases again with
      | true => exact hs.put p rfl rfl hdraw (.same rfl) (fun _ h => h.elim) nofun trivial
      | false => exact hs.put p rfl rfl hdraw (.same rfl) (fun _ h => h.elim) htoken' trivial
  | readRecovery token =>
    rw [hstage] at htoken
    simp only [advance]
    split
    · exact hs.move p (fun _ h => h) nofun trivial
    · exact hs.move p (fun _ h => h) htoken trivial
  | probeRecovery token owner =>
    rw [hstage] at htoken
    simp only [advance]
    split
    · exact hs.move p (fun _ h => h) htoken trivial
    · exact hs.move p (fun _ h => h) nofun trivial
  | readLock token recovery =>
    rw [hstage] at htoken
    simp only [advance]
    split
    · exact hs.move p (fun _ h => h) htoken trivial
    · rename_i owner howner
      refine hs.move p (fun _ h => h) htoken ?_
      obtain ⟨entry, hentry, hown⟩ := Option.bind_eq_some_iff.1 howner
      cases entry with
      | record o =>
        cases hown
        exact hs.known owner hentry
      | ambiguous => cases hown
  | probeLock token recovery owner =>
    rw [hstage] at htoken hread
    simp only [advance]
    split
    · rename_i hdead
      refine hs.move p (fun _ h => h) htoken ?_
      simp only [isConfirmedDeadLocalKitLockOwner, Bool.and_eq_true, List.contains_iff_mem] at hdead
      exact ⟨owner.pid, hdead.2, hread⟩
    · exact hs.move p (fun _ h => h) htoken trivial
  | rename k expected =>
    rw [hstage] at htoken
    simp only [advance]
    split
    · exact hs.resume (htoken _ rfl) false
    · rename_i moved hmoved
      have hinspect : ∀ {s' : State}, s'.drawn = s.drawn → (Stage.inspect k expected moved).Read s' := by
        intro s' hdrawn hpath owner howner
        rw [hpath] at hmoved
        change s'.drawn[_]? = _
        rw [hdrawn]
        exact hs.known owner (howner ▸ hmoved)
      cases hpath : k.path with
      | lock =>
        rw [hpath] at hmoved
        refine hs.put p rfl rfl List.prefix_rfl (.cleared rfl ?_) (fun _ h => h.elim) htoken (hinspect rfl)
        exact fun q t => rename_cleared hs hstage hp hpath hc q t
      | recovery => exact hs.put p rfl rfl List.prefix_rfl (.same rfl) (fun _ h => h.elim) htoken (hinspect rfl)
  | inspect k expected moved =>
    rw [hstage] at htoken hread
    simp only [advance]
    split
    · exact hs.move p (fun _ h => h) htoken trivial
    · exact hs.move p (fun _ h => h) htoken hread
  | discard k =>
    rw [hstage] at htoken
    exact hs.resume (htoken _ rfl) true
  | relink k moved =>
    rw [hstage] at htoken hread
    simp only [advance]
    split
    · exact hs.write moved ‹_› hread (fun _ h => h) htoken trivial
    · exact hs.move p (fun _ h => h) htoken trivial
  | unlinkQuarantine k =>
    rw [hstage] at htoken
    exact hs.resume (htoken _ rfl) false
  | «exists» k =>
    rw [hstage] at htoken
    simp only [advance]
    split
    · exact hs.resume (htoken _ rfl) false
    · exact hs.move p (fun _ h => h) htoken trivial
  | preserve k =>
    rw [hstage] at htoken
    obtain ⟨hholds, hresume, hnothing⟩ := resume_ok (s.write (some .ambiguous) k.path) k false
    simp only [advance]
    split
    · refine hs.write .ambiguous ‹_› nofun hholds ?_ hnothing
      intro t ht
      rw [hresume t ht]
      exact htoken _ rfl
    · exact hs.resume (htoken _ rfl) false

theorem inv_step {s : State} (hs : Inv hostname s) (e : Event) (hc : Undisturbed s e) : Inv hostname (step hostname s e).1 := by
  cases e with
  | call p =>
    simp only [step]
    split
    · refine hs.put p rfl rfl (List.prefix_append _ _) (.same rfl) (fun _ h => h.elim) ?_ trivial
      rintro _ ⟨⟩
      exact List.getElem?_concat_length
    · exact hs
  | next p =>
    simp only [step]
    split
    · exact inv_advance hs ‹_› hc
    · exact hs
  | finish p =>
    simp only [step]
    split
    · rename_i token hrunning
      split
      · rename_i hp
        refine hs.put p rfl rfl List.prefix_rfl (.same rfl) ?_ ?_ trivial
        · rintro t rfl
          exact hs.published p token hp (by rw [hrunning]; rfl)
        · rintro t ⟨⟩
          exact hs.token p token (by rw [hrunning]; rfl)
      · exact hs
    · exact hs
  | crash p =>
    refine ⟨?_, hs.known, hs.token, ?_⟩
    · intro q token hq
      exact hs.published q token fun hmem => hq (List.mem_cons_of_mem _ hmem)
    · intro q
      refine Stage.Read.mono ?_ ?_ (hs.read q)
      · exact List.prefix_rfl
      · exact fun a ha => List.mem_cons_of_mem _ ha

theorem safe_throughout (hostname : String) (es : List Event) (hc : Run.Along (step hostname) Undisturbed init es) :
    Run.Throughout (step hostname) (Safe hostname) init es := by
  have hinv : Run.Throughout (step hostname) (Inv hostname) init es :=
    @Run.throughout_of_along _ _ _ (step hostname) (Inv hostname) Undisturbed (fun s e hc hs => inv_step hs e hc) init inv_init
      es hc
  exact hinv.mono fun s hs => hs.safe

/-! ## A process that runs alone -/

/-- The record of a dead process of this host. -/
def DeadRecord (hostname : String) (dead : List ℕ) (entry : Entry) : Prop :=
  ∃ owner, entry = .record owner ∧ owner.hostname = hostname ∧ owner.pid ∈ dead

/-- The calls of `p` alone lead to its action. -/
def Succeeds (hostname : String) (p : ℕ) (s : State) : Prop :=
  ∃ n token, (Run.final (step hostname) s (List.replicate n (.next p))).procs p = .running token

theorem Succeeds.of_next {s : State} {p : ℕ} (h : Succeeds hostname p (step hostname s (.next p)).1) : Succeeds hostname p s := by
  obtain ⟨n, token, hn⟩ := h
  exact ⟨n + 1, token, hn⟩

/-- Where the process stands, and what it finds. -/
structure At (s : State) (p : ℕ) (stage : Stage) (lock recovery : Option Entry) (dead : List ℕ) : Prop where
  alive : p ∉ dead
  stage : s.procs p = stage
  lock : s.lock = lock
  recovery : s.recovery = recovery
  dead : s.dead = dead

section Alone

variable {s : State} {p : ℕ} {lock recovery : Option Entry} {dead : List ℕ}

theorem At.put {stage : Stage} (halive : p ∉ dead) (hlock : s.lock = lock) (hrecovery : s.recovery = recovery)
    (hdead : s.dead = dead) : At (s.put p stage) p stage lock recovery dead :=
  ⟨halive, Function.update_self .., hlock, hrecovery, hdead⟩

theorem At.next {stage : Stage} (h : At s p stage lock recovery dead) :
    (step hostname s (.next p)).1 = advance hostname s p stage := by
  have halive := h.alive
  rw [← h.dead] at halive
  simp only [step, if_pos halive, h.stage]

/-- A step to the stage and the paths that `advance` says. -/
theorem At.succeeds {stage : Stage} {lock' recovery' : Option Entry} (h : At s p stage lock recovery dead) (s' : State)
    (stage' : Stage) (hadv : advance hostname s p stage = s'.put p stage') (hlock : s'.lock = lock') (hrecovery : s'.recovery = recovery')
    (hdead : s'.dead = s.dead)
    (hnext : ∀ s, At s p stage' lock' recovery' dead → Succeeds hostname p s) : Succeeds hostname p s := by
  refine .of_next (hnext _ ?_)
  rw [h.next, hadv]
  exact .put h.alive hlock hrecovery (hdead.trans h.dead)

theorem succeeds_link {token : ℕ} {again : Bool} (h : At s p (.link token again) none recovery dead) :
    Succeeds hostname p s := by
  refine .of_next ⟨0, token, ?_⟩
  rw [h.next]
  simp [Run.final, advance, h.lock, State.put]

/-- The record at a path is moved aside, read and unlinked. -/
theorem succeeds_rename {k : Then} {owner : KitLockOwner} (h : At s p (.rename k owner.token) lock recovery dead)
    (hentry : (match k.path with | .lock => lock | .recovery => recovery) = some (.record owner))
    (hnext : ∀ s, At s p (resume k true) (match k.path with | .lock => none | .recovery => lock)
      (match k.path with | .lock => recovery | .recovery => none) dead → Succeeds hostname p s) : Succeeds hostname p s := by
  have hat : s.entry k.path = some (.record owner) := by
    rw [← hentry]
    cases k.path with
    | lock => exact h.lock
    | recovery => exact h.recovery
  have hwrite : (s.write none k.path).lock = (match k.path with | .lock => none | .recovery => lock) ∧
      (s.write none k.path).recovery = (match k.path with | .lock => recovery | .recovery => none) ∧
      (s.write none k.path).dead = s.dead := by
    cases k.path with
    | lock => exact ⟨rfl, h.recovery, rfl⟩
    | recovery => exact ⟨h.lock, rfl, rfl⟩
  refine h.succeeds (s.write none k.path) (.inspect k owner.token (.record owner)) (by simp only [advance, hat]) hwrite.1 hwrite.2.1
    hwrite.2.2 ?_
  intro s₁ h₁
  refine h₁.succeeds s₁ (.discard k) (by simp [advance, readKitLockOwner]) h₁.lock h₁.recovery rfl ?_
  intro s₂ h₂
  exact h₂.succeeds s₂ (resume k true) rfl h₂.lock h₂.recovery rfl hnext

/-- The process has the recovery lock, and the lock is a dead owner's. -/
theorem succeeds_readLock {token mine : ℕ} {entry : Entry} (hentry : DeadRecord hostname dead entry)
    (h : At s p (.readLock token mine) (some entry) (some (ownRecord hostname p mine)) dead) : Succeeds hostname p s := by
  obtain ⟨owner, rfl, hhost, hpid⟩ := hentry
  refine h.succeeds s (.probeLock token mine owner) (by simp [advance, h.lock, readKitLockOwner]) h.lock h.recovery rfl ?_
  intro s₁ h₁
  refine h₁.succeeds s₁ (.rename (.staleLock token mine) owner.token)
    (by simp [advance, isConfirmedDeadLocalKitLockOwner, h₁.dead, hhost, hpid]) h₁.lock h₁.recovery rfl ?_
  intro s₂ h₂
  refine succeeds_rename h₂ rfl ?_
  intro s₃ h₃
  refine @succeeds_rename _ s₃ p _ _ _ (.recovered token true) ⟨mine, p, hostname⟩ h₃ rfl ?_
  exact fun s₄ h₄ => succeeds_link h₄

theorem succeeds_linkRecovery {token : ℕ} {again : Bool} {entry : Entry} (hentry : DeadRecord hostname dead entry)
    (h : At s p (.linkRecovery token again) (some entry) none dead) : Succeeds hostname p s := by
  refine h.succeeds (({ s with recovery := some (ownRecord hostname p s.drawn.length) }).draw p)
    (.readLock token s.drawn.length) (by simp only [advance, h.recovery]) h.lock rfl rfl ?_
  exact fun s₁ h₁ => succeeds_readLock hentry h₁

/-- The recovery lock is a dead owner's too. -/
theorem succeeds_reclaim {token : ℕ} {entry stale : Entry} (hentry : DeadRecord hostname dead entry)
    (hstale : DeadRecord hostname dead stale) (h : At s p (.linkRecovery token false) (some entry) (some stale) dead) :
    Succeeds hostname p s := by
  obtain ⟨owner, rfl, hhost, hpid⟩ := hstale
  refine h.succeeds (s.draw p) (.readRecovery token) (by simp [advance, h.recovery]) h.lock h.recovery rfl ?_
  intro s₁ h₁
  refine h₁.succeeds s₁ (.probeRecovery token owner) (by simp [advance, h₁.recovery, readKitLockOwner]) h₁.lock h₁.recovery
    rfl ?_
  intro s₂ h₂
  refine h₂.succeeds s₂ (.rename (.staleRecovery token) owner.token)
    (by simp [advance, isConfirmedDeadLocalKitLockOwner, h₂.dead, hhost, hpid]) h₂.lock h₂.recovery rfl ?_
  intro s₃ h₃
  refine succeeds_rename h₃ rfl ?_
  exact fun s₄ h₄ => succeeds_linkRecovery hentry h₄

/-- **Dead records do not stop a call** of a process that runs alone. -/
theorem lone_call (hp : p ∉ s.dead) (hidle : s.procs p = .idle)
    (hlock : ∀ entry, s.lock = some entry → DeadRecord hostname s.dead entry)
    (hrecovery : ∀ entry, s.recovery = some entry → DeadRecord hostname s.dead entry) :
    Succeeds hostname p (step hostname s (.call p)).1 := by
  have hat : At (step hostname s (.call p)).1 p (.link s.drawn.length false) s.lock s.recovery s.dead := by
    simp only [step, if_pos (And.intro hp hidle)]
    exact .put hp rfl rfl rfl
  cases hl : s.lock with
  | none =>
    rw [hl] at hat
    exact succeeds_link hat
  | some entry =>
    rw [hl] at hat
    refine hat.succeeds _ (.linkRecovery s.drawn.length false) (by simp [advance, hat.lock]) hat.lock hat.recovery rfl ?_
    intro s₁ h₁
    cases hr : s.recovery with
    | none =>
      rw [hr] at h₁
      exact succeeds_linkRecovery (hlock entry hl) h₁
    | some stale =>
      rw [hr] at h₁
      exact succeeds_reclaim (hlock entry hl) (hrecovery stale hr) h₁

end Alone

/-- **The Kit lock.**  It is exclusive in every run in which no reclaimer moves another lock record aside than that of the dead
owner it has found, and dead records stop no call that runs alone. -/
theorem withKitLock_spec (hostname : String) :
    (∀ es, Run.Along (step hostname) Undisturbed init es → Run.Throughout (step hostname) (Safe hostname) init es) ∧
      ∀ s p, p ∉ s.dead → s.procs p = .idle → (∀ entry, s.lock = some entry → DeadRecord hostname s.dead entry) →
        (∀ entry, s.recovery = some entry → DeadRecord hostname s.dead entry) →
          Succeeds hostname p (step hostname s (.call p)).1 :=
  ⟨safe_throughout hostname, fun _ _ hp hidle hlock hrecovery => lone_call hp hidle hlock hrecovery⟩

/-- The process `1` crashes with the lock, and `2` with the recovery lock. -/
def crashes : List Event := [.call 1, .next 1, .crash 1, .call 2, .next 2, .next 2, .crash 2]

def crashed : State := Run.final (step "host") init crashes

theorem withKitLock_crashed :
    Run.Throughout (step "host") (Safe "host") init crashes ∧ Succeeds "host" 3 (step "host" crashed (.call 3)).1 := by
  refine ⟨(withKitLock_spec "host").1 crashes (by decide +kernel),
    (withKitLock_spec "host").2 crashed 3 (by decide +kernel) (by decide +kernel) ?_ ?_⟩
  · intro entry h
    have hlock : crashed.lock = some (ownRecord "host" 1 0) := by decide +kernel
    rw [hlock] at h
    cases h
    exact ⟨_, rfl, rfl, by decide +kernel⟩
  · intro entry h
    have hrecovery : crashed.recovery = some (ownRecord "host" 2 2) := by decide +kernel
    rw [hrecovery] at h
    cases h
    exact ⟨_, rfl, rfl, by decide +kernel⟩

/-- While `2` is between reading the record of `1` and renaming, `1` releases the lock and ends, and `3` acquires it. -/
def slowReclaimer : List Event :=
  [.call 1, .next 1, .call 2, .next 2, .next 2, .next 2, .finish 1, .next 1, .next 1, .next 1, .crash 1, .call 3, .next 3,
    .next 2, .next 2, .call 4, .next 4]

theorem not_exclusive : ¬Run.Throughout (step "host") (Safe "host") init slowReclaimer := by
  intro h
  have hsafe := Run.throughout_iff.1 h slowReclaimer [] (List.append_nil _).symm
  have h3 : (Run.final (step "host") init slowReclaimer).procs 3 = .running 3 := by decide +kernel
  have h4 : (Run.final (step "host") init slowReclaimer).procs 4 = .running 4 := by decide +kernel
  have heq := hsafe.exclusive 3 4 3 4 (by decide +kernel) (by decide +kernel) h3 h4
  cases heq

end LlmGateway.Kit
