import LlmGateway.Lib.Run
import Mathlib.Logic.Function.Basic

/-!
# The lock of the session file

The processes of one host that share `sessions.json`, at the grain of their file system calls.

* `Pc` — where a process is in `withStorageLock` (`opening`, `waiting`, `holding`) and, from there, in
  `reclaimConfirmedDeadStorageLock` (`reclaiming`);
* `State` — the live processes by pid, and the files: the lock, the recovery mutex, the temporary files, the sessions;
* `next` — a process starts, calls `withStorageLock`, takes a step, or crashes;
* `Turn` — a turn of the lock, as it is noted when the lock file is made; `replay` runs turns one after another.
-/

namespace LlmGateway.Sessions.Lock

open LlmGateway.Lib

/-- The record in a lock file.  Its `acquiredAt` is never read. -/
structure Owner where
  token : ℕ
  pid : ℕ
  hostname : String
deriving DecidableEq

/-- The lock file.  `owner` is what `parseOwner` makes of its text: `none` while the file is empty. -/
structure LockFile where
  ino : ℕ
  /-- the process that made the file, which the file does not say -/
  creator : ℕ
  owner : Option Owner

/-- A call of `withStorageLock`: the token it drew, and its operation.  An operation is what it saves, in order, when it
has loaded a content of the file: nothing where it only reads, throws first, or finds the content faulty. -/
structure Call (α : Type*) where
  token : ℕ
  operation : α → List α

/-- The calls of `reclaimConfirmedDeadStorageLock`. -/
inductive Reclaim where
  | opening
  | reading
  | probing (owner : Owner)
  | rereading (owner : Owner)
  | removing
  | leaving (reclaimed : Bool)

/-- The calls of `withStorageLock` behind `openSync`; `complete` says that the operation ran to its end. -/
inductive Held (α : Type*) where
  | writing (lockFd : ℕ)
  | syncing
  | cleaning
  | loading
  | saving (todo : List α)
  | replacing (todo : List α)
  | releasing (complete : Bool)
  | unlinking (complete : Bool)

/-- Where a process is: the call that it makes next. -/
inductive Pc (α : Type*) where
  | idle
  | opening (call : Call α)
  | waiting (call : Call α)
  | reclaiming (call : Call α) (at_ : Reclaim)
  | holding (call : Call α) (at_ : Held α)

/-- The call that a process is in. -/
def Pc.call {α : Type*} : Pc α → Option (Call α)
  | idle => none
  | opening c => some c
  | waiting c => some c
  | reclaiming c _ => some c
  | holding c _ => some c

/-- A live process.  Its pid may have been another's before; its `id` has not. -/
structure Process (α : Type*) where
  id : ℕ
  pc : Pc α

/-- A turn of the lock: the call that made the lock file, and how far it came. -/
structure Turn (α : Type*) where
  token : ℕ
  operation : α → List α
  saves : ℕ
  complete : Bool

def Turn.saved {α : Type*} (t : Turn α) : Turn α := { t with saves := t.saves + 1 }

def Turn.completed {α : Type*} (t : Turn α) : Turn α := { t with complete := true }

structure State (α : Type*) where
  hostname : String
  /-- the live processes, by pid -/
  procs : ℕ → Option (Process α)
  lock : Option LockFile
  /-- the recovery mutex, and the process that made it -/
  recovery : Option ℕ
  /-- the files `sessions.json.tmp.<pid>` -/
  temp : ℕ → Option α
  /-- `sessions.json` -/
  file : α
  /-- above all numbers drawn so far: tokens, inodes, processes -/
  fresh : ℕ
  turns : List (Turn α)

variable {α : Type*}

namespace State

/-- The process at `pid` goes to `pc`. -/
def goto (s : State α) (pid : ℕ) (p : Process α) (pc : Pc α) : State α :=
  { s with procs := Function.update s.procs pid (some ⟨p.id, pc⟩) }

/-- What the turn of the call `token` has come to. -/
def note (s : State α) (token : ℕ) (f : Turn α → Turn α) : State α :=
  { s with turns := s.turns.map fun t => if t.token = token then f t else t }

/-- A new lock file. -/
def create (s : State α) (id : ℕ) (c : Call α) : State α :=
  { s with
    lock := some ⟨s.fresh, id, none⟩
    fresh := s.fresh + 1
    turns := s.turns ++ [⟨c.token, c.operation, 0, false⟩] }

/-- Writes the record to the file that was opened, wherever `lockPath` points now. -/
def record (s : State α) (lockFd : ℕ) (owner : Owner) : State α :=
  { s with lock := s.lock.map fun f => if f.ino = lockFd then { f with owner := some owner } else f }

/-- `unlinkSync(lockPath)`. -/
def unlinkLock (s : State α) (ok : Bool) : State α := { s with lock := if ok then none else s.lock }

def setRecovery (s : State α) (r : Option ℕ) : State α := { s with recovery := r }

def setTemp (s : State α) (pid : ℕ) (a : Option α) : State α := { s with temp := Function.update s.temp pid a }

/-- `parseOwner`. -/
def parseOwner (s : State α) (ok : Bool) : Option Owner :=
  if ok then s.lock.bind LockFile.owner else none

end State

/-- `openSync(lockPath, "wx")`: makes the lock file if there is none. -/
def acquire (s : State α) (pid : ℕ) (p : Process α) (c : Call α) (ok : Bool) : State α :=
  if ok then
    match s.lock with
    | some _ => s.goto pid p (.reclaiming c .opening)
    | none => (s.create p.id c).goto pid p (.holding c (.writing s.fresh))
  else s.goto pid p .idle

/-- `withStorageLock` returns, or throws. -/
def finish (s : State α) (pid : ℕ) (p : Process α) (c : Call α) (complete : Bool) : State α :=
  (if complete then s.note c.token Turn.completed else s).goto pid p .idle

/-- A call of `withStorageLock` while the process has the lock, `saveStorage` included. -/
def hold (s : State α) (pid : ℕ) (p : Process α) (c : Call α) (ok : Bool) : Held α → State α
  | .writing lockFd =>
    if ok then (s.record lockFd ⟨c.token, pid, s.hostname⟩).goto pid p (.holding c .syncing)
    else s.goto pid p (.holding c .cleaning)
  | .syncing => s.goto pid p (.holding c (if ok then .loading else .cleaning))
  | .cleaning => (s.unlinkLock ok).goto pid p .idle
  | .loading => s.goto pid p (.holding c (if ok then .saving (c.operation s.file) else .releasing false))
  | .saving [] => s.goto pid p (.holding c (.releasing true))
  | .saving (a :: todo) =>
    if ok then (s.setTemp pid (some a)).goto pid p (.holding c (.replacing todo))
    else s.goto pid p (.holding c (.releasing false))
  | .replacing todo =>
    match s.temp pid with
    | some a =>
      if ok then
        (({ s with file := a }.setTemp pid none).note c.token Turn.saved).goto pid p (.holding c (.saving todo))
      else s.goto pid p (.holding c (.releasing false))
    | none => s.goto pid p (.holding c (.releasing false))
  | .releasing complete =>
    if (s.parseOwner ok).map Owner.token = some c.token then s.goto pid p (.holding c (.unlinking complete))
    else finish s pid p c complete
  | .unlinking complete => finish (s.unlinkLock ok) pid p c complete

/-- A call of `reclaimConfirmedDeadStorageLock`. -/
def reclaim (s : State α) (pid : ℕ) (p : Process α) (c : Call α) (ok : Bool) : Reclaim → State α
  | .opening =>
    if ok && s.recovery.isNone then (s.setRecovery (some p.id)).goto pid p (.reclaiming c .reading)
    else s.goto pid p (.waiting c)
  | .reading =>
    match s.parseOwner ok with
    | none => s.goto pid p (.reclaiming c (.leaving false))
    | some owner =>
      if owner.hostname = s.hostname then s.goto pid p (.reclaiming c (.probing owner))
      else s.goto pid p (.reclaiming c (.leaving false))
  | .probing owner =>
    -- `process.kill(pid, 0)`: only `ESRCH` goes on
    if ok && (s.procs owner.pid).isNone then s.goto pid p (.reclaiming c (.rereading owner))
    else s.goto pid p (.reclaiming c (.leaving false))
  | .rereading owner =>
    if (s.parseOwner ok).map Owner.token = some owner.token then s.goto pid p (.reclaiming c .removing)
    else s.goto pid p (.reclaiming c (.leaving false))
  | .removing =>
    if ok && s.lock.isSome then (s.unlinkLock ok).goto pid p (.reclaiming c (.leaving true))
    else s.goto pid p (.reclaiming c (.leaving false))
  | .leaving reclaimed =>
    (s.setRecovery (if ok then none else s.recovery)).goto pid p (if reclaimed then .opening c else .waiting c)

inductive Event (α : Type*) where
  | spawn (pid : ℕ)
  | call (pid : ℕ) (operation : α → List α)
  /-- the process makes its next call; `ok` says that the call does not fail, and of `waiting` that there is time left -/
  | step (pid : ℕ) (ok : Bool)
  | crash (pid : ℕ)

def next (s : State α) : Event α → State α
  | .spawn pid =>
    match s.procs pid with
    | some _ => s
    | none => { s with procs := Function.update s.procs pid (some ⟨s.fresh, .idle⟩), fresh := s.fresh + 1 }
  | .call pid operation =>
    match s.procs pid with
    | none => s
    | some p =>
      match p.pc with
      | .idle => ({ s with fresh := s.fresh + 1 } : State α).goto pid p (.opening ⟨s.fresh, operation⟩)
      | _ => s
  | .step pid ok =>
    match s.procs pid with
    | none => s
    | some p =>
      match p.pc with
      | .idle => s
      | .opening c => acquire s pid p c ok
      | .waiting c => s.goto pid p (if ok then .opening c else .idle)
      | .reclaiming c r => reclaim s pid p c ok r
      | .holding c h => hold s pid p c ok h
  | .crash pid => { s with procs := Function.update s.procs pid none }

/-- No process, and a content of the session file. -/
def start (hostname : String) (init : α) : State α where
  hostname := hostname
  procs := fun _ => none
  lock := none
  recovery := none
  temp := fun _ => none
  file := init
  fresh := 0
  turns := []

/-- The state after the events. -/
def run (hostname : String) (init : α) (es : List (Event α)) : State α :=
  Run.final (fun s e => (next s e, ())) (start hostname init) es

/-! ## Turns, one after another -/

/-- The content after the first `n` saves of an operation that loaded `a`. -/
def after (operation : α → List α) (n : ℕ) (a : α) : α := ((operation a).take n).getLast?.getD a

/-- The content after an operation that loaded `a`. -/
def whole (operation : α → List α) (a : α) : α := (operation a).getLast?.getD a

/-- A complete turn has run its operation; any other one has made some of its saves. -/
def Turn.result (t : Turn α) (a : α) : α :=
  if t.complete then whole t.operation a else after t.operation t.saves a

theorem Turn.result_open {t : Turn α} (h : t.complete = false) (a : α) : t.result a = after t.operation t.saves a := by
  simp [Turn.result, h]

theorem Turn.result_saved {t : Turn α} (h : t.complete = false) (a : α) :
    t.saved.result a = after t.operation (t.saves + 1) a := Turn.result_open (t := t.saved) h a

theorem Turn.result_completed (t : Turn α) (a : α) : t.completed.result a = whole t.operation a := rfl

theorem Turn.token_saved (t : Turn α) : t.saved.token = t.token := rfl

theorem Turn.token_completed (t : Turn α) : t.completed.token = t.token := rfl

/-- The content after the turns. -/
def replay (a : α) (ts : List (Turn α)) : α := ts.foldl (fun a t => t.result a) a

@[simp] theorem replay_nil (a : α) : replay a [] = a := rfl

@[simp] theorem replay_concat (a : α) (ts : List (Turn α)) (t : Turn α) : replay a (ts ++ [t]) = t.result (replay a ts) := by
  simp [replay]

theorem after_zero (operation : α → List α) (a : α) : after operation 0 a = a := by
  simp [after]

/-- One more save. -/
theorem after_succ {operation : α → List α} {a b : α} {done todo : List α} (h : operation a = done ++ b :: todo) :
    after operation (done.length + 1) a = b := by
  simp [after, h, List.take_append]

theorem after_length (operation : α → List α) (a : α) : after operation (operation a).length a = whole operation a := by
  simp [after, whole]

end LlmGateway.Sessions.Lock
