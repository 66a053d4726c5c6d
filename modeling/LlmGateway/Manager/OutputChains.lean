import LlmGateway.JobStore.JobRows

/-!
# The output of a job and its durable row

An owned process job that is not a Kit job: its buffers in memory, the output chain (`maybeFlushOutput`), the terminal
chain (`persistComplete`), and the row in the store.  A store call is issued, takes effect, and settles, in three steps;
calls of one chain follow each other, and everything else may come in between.

* `Row`, with `recordOutput`, `recordComplete`, `sweep` — the statements of the store on the row; they are those of the
  SQLite store (`row_recordOutput`, `row_recordComplete`, `row_orphaned`);
* `NoOvertaking` — a step in which no call of one chain overtakes an earlier one of the other.
-/

namespace LlmGateway.Manager.OutputChains

open LlmGateway.Lib LlmGateway.JobStore

structure Output where
  stdout : String
  stderr : String
  truncated : Bool
  deriving DecidableEq

/-- The output `o'` is a later one of the same job. -/
structure Output.Extends (o o' : Output) : Prop where
  stdout : ∃ u, o'.stdout = o.stdout ++ u
  stderr : ∃ u, o'.stderr = o.stderr ++ u
  truncated : o.truncated = true → o'.truncated = true

/-! ## The row -/

structure Row where
  status : JobStoreStatus
  output : Output
  deriving DecidableEq

namespace Row

/-- SQL_UPDATE_OUTPUT, and whether it affected the row. -/
def recordOutput (row : Row) (output : Output) (expectedStatuses : List JobStoreStatus) : Bool × Row :=
  if expectedStatuses.contains row.status then (true, { row with output := output }) else (false, row)

/-- SQL_UPDATE_COMPLETE, and whether it affected the row. -/
def recordComplete (row : Row) (status : JobStoreStatus) (output : Output) : Bool × Row :=
  if row.status.isSettled then (false, row) else (true, ⟨status, output⟩)

/-- SQL_ORPHAN_EXPIRED. -/
def sweep (row : Row) : Row := if row.status.isOpen then { row with status := .orphaned } else row

end Row

/-- What the row of a job that is not a Kit job says about its output. -/
def Row.of (r : JobRecord) : Row := ⟨r.status, ⟨r.stdout, r.stderr, r.outputTruncated⟩⟩

section store
variable {db db' : Db} {id : String} {r : JobRecord} (hr : db.jobs.get id = some r) (hk : r.kitExecution = none)
include hr hk

theorem row_recordOutput (output : Output) (expected : List JobStoreStatus) :
    (recordOutput db id output.stdout output.stderr output.truncated expected).1 =
        ((Row.of r).recordOutput output expected).1 ∧
      ((recordOutput db id output.stdout output.stderr output.truncated expected).2.jobs.get id).map Row.of =
        some ((Row.of r).recordOutput output expected).2 := by
  unfold JobStore.recordOutput Row.recordOutput
  dsimp only
  rw [updateJob_changes, get_updateJob hr, hr]
  by_cases hc : r.status ∈ expected
  · simp [hc, Row.of, setOutput, hk]
  · simp [hc, Row.of]

theorem row_recordComplete {cfg : Config} {input : JobCompletionInput} {applied : Bool} (hid : input.id = id)
    (h : recordComplete cfg db input = .ok (applied, db')) :
    applied = ((Row.of r).recordComplete input.status.toStatus ⟨input.stdout, input.stderr, input.outputTruncated⟩).1 ∧
      (db'.jobs.get id).map Row.of =
        some ((Row.of r).recordComplete input.status.toStatus ⟨input.stdout, input.stderr, input.outputTruncated⟩).2 := by
  subst hid
  unfold JobStore.recordComplete at h
  split at h
  · cases h
  · simp only [Except.ok.injEq, Prod.mk.injEq] at h
    obtain ⟨rfl, rfl⟩ := h
    rw [updateJob_changes, get_updateJob hr, hr, Row.recordComplete]
    by_cases hq : r.status.isSettled = true
    · simp [completable, Row.of, hq]
    · simp [completable, Row.of, setComplete, hq, hk]

omit hr in
theorem row_orphaned {now : Clock} {grace : ℕ} {live : List String} (nowIso expiresIso : String)
    (h : orphanable now grace live r = true) : Row.of (setOrphaned nowIso expiresIso r) = (Row.of r).sweep := by
  have hopen := (orphanable_iff.1 h).1
  simp [Row.of, Row.sweep, setOrphaned, hk, hopen]

end store

/-! ## The job -/

structure Job where
  status : JobStoreStatus
  output : Output
  outputDirty : Bool
  terminalPersisted : Bool
  terminalRowOwned : Bool
  durableOutputRowLost : Bool
  closeObserved : Bool
  deriving DecidableEq

def mayWriteOutputFor (job : Job) : Bool :=
  !job.durableOutputRowLost && (!job.terminalPersisted || job.terminalRowOwned)

def ownedOutputStatuses (job : Job) : List JobStoreStatus :=
  if job.terminalPersisted && job.terminalRowOwned then [job.status] else [.queued, .running]

/-- A call that the store has not answered, its answer, or its failure. -/
inductive Outcome where
  | pending
  | answered (applied : Bool)
  | failed
  deriving DecidableEq

/-- A flush of the output chain: waiting, or handed to the store with the statuses it expects. -/
inductive FlushPhase where
  | queued
  | issued (expectedStatuses : List JobStoreStatus) (outcome : Outcome)
  deriving DecidableEq

/-- `ticket` counts the snapshots taken so far. -/
structure Flush where
  snapshot : Output
  ticket : ℕ
  phase : FlushPhase
  deriving DecidableEq

inductive TerminalWrite where
  | complete (status : JobStoreStatus)
  | late (expectedStatuses : List JobStoreStatus)
  deriving DecidableEq

/-- The store call of the `persistCompleteBody` that is running. -/
structure TerminalCall where
  write : TerminalWrite
  snapshot : Output
  ticket : ℕ
  outcome : Outcome
  deriving DecidableEq

structure State where
  job : Job
  row : Row
  /-- the output chain, its first flush the one that may be running -/
  flushes : List Flush
  /-- the bodies that wait on the terminal chain -/
  terminals : ℕ
  terminalCall : Option TerminalCall
  tickets : ℕ
  /-- another instance has changed the status of the row -/
  swept : Bool
  /-- some store call has failed -/
  failed : Bool
  deriving DecidableEq

/-- A job that has been launched; its row is queued or running. -/
def State.launched (status : JobStoreStatus) : State where
  job := ⟨.running, ⟨"", "", false⟩, false, false, false, false, false⟩
  row := ⟨status, ⟨"", "", false⟩⟩
  flushes := []
  terminals := 0
  terminalCall := none
  tickets := 0
  swept := false
  failed := false

inductive Channel where
  | stdout
  | stderr
  deriving DecidableEq

/-- The statuses in which a job ends. -/
inductive Ending where
  | completed
  | failed
  | canceled
  deriving DecidableEq

def Ending.toStatus : Ending → JobStoreStatus
  | completed => .completed
  | failed => .failed
  | canceled => .canceled

inductive Event where
  /-- the child writes a chunk that fits the cap -/
  | chunk (channel : Channel) (text : String)
  /-- the child writes a chunk that does not -/
  | overflow
  /-- the throttle lets `maybeFlushOutput` pass -/
  | flush
  /-- the job is canceled, or killed when idle -/
  | finish (ending : Ending)
  /-- `persistComplete` is called once more -/
  | persist
  /-- the child closes; `ending` and the message are used if the job is still running -/
  | close (ending : Ending) (message : String)
  | issueFlush
  | applyFlush
  | failFlush
  | settleFlush
  | issueTerminal
  | applyTerminal
  | failTerminal
  | settleTerminal
  | sweep
  deriving DecidableEq

def Output.append (o : Output) : Channel → String → Output
  | .stdout, text => { o with stdout := o.stdout ++ text }
  | .stderr, text => { o with stderr := o.stderr ++ text }

/-- A terminal path of the code: the job ends, and `persistComplete` is called. -/
def State.terminate (s : State) (ending : Ending) : State :=
  if s.job.status = .running then
    { s with job := { s.job with status := ending.toStatus }, terminals := s.terminals + 1 }
  else s

/-- `maybeFlushOutput`, past its throttle. -/
def State.maybeFlushOutput (s : State) : State :=
  if !s.job.outputDirty then s
  else if !mayWriteOutputFor s.job then { s with job := { s.job with outputDirty := false } }
  else
    { s with
      job := { s.job with outputDirty := false }
      flushes := s.flushes ++ [⟨s.job.output, s.tickets, .queued⟩]
      tickets := s.tickets + 1 }

/-- The part of `persistCompleteBody` up to its store call. -/
def State.persistCompleteBody (s : State) : State :=
  if s.job.status = .running ∨ s.job.status = .queued then s
  else if s.job.terminalPersisted then
    if mayWriteOutputFor s.job then
      { s with
        job := { s.job with outputDirty := false }
        terminalCall := some ⟨.late (ownedOutputStatuses s.job), s.job.output, s.tickets, .pending⟩
        tickets := s.tickets + 1 }
    else { s with job := { s.job with outputDirty := false } }
  else
    { s with
      job := { s.job with outputDirty := false }
      terminalCall := some ⟨.complete s.job.status, s.job.output, s.tickets, .pending⟩
      tickets := s.tickets + 1 }

/-- `writeOwnedOutput`, behind its store call. -/
def Job.afterOutputWrite (job : Job) (applied : Bool) : Job :=
  if applied || job.durableOutputRowLost then job else { job with durableOutputRowLost := true }

/-- `persistCompleteBody`, behind `recordComplete`. -/
def Job.afterComplete (job : Job) (applied : Bool) : Job :=
  { job with
    terminalPersisted := true
    terminalRowOwned := applied
    durableOutputRowLost := if applied then false else job.durableOutputRowLost }

def TerminalCall.apply (t : TerminalCall) (row : Row) : Bool × Row :=
  match t.write with
  | .complete status => row.recordComplete status t.snapshot
  | .late expectedStatuses => row.recordOutput t.snapshot expectedStatuses

/-- What an answered call makes of the job. -/
def TerminalCall.settle (t : TerminalCall) (job : Job) (applied : Bool) : Job :=
  match t.write with
  | .complete _ => job.afterComplete applied
  | .late _ => job.afterOutputWrite applied

/-- An event that cannot happen leaves the state as it is. -/
def next (s : State) : Event → State
  | .chunk channel text =>
    if s.job.closeObserved then s
    else { s with job := { s.job with output := s.job.output.append channel text, outputDirty := true } }
  | .overflow =>
    if s.job.closeObserved then s
    else State.terminate { s with job := { s.job with output := { s.job.output with truncated := true } } } .failed
  | .flush => s.maybeFlushOutput
  | .finish ending => s.terminate ending
  | .persist => if s.job.status = .running then s else { s with terminals := s.terminals + 1 }
  | .close ending message =>
    if s.job.closeObserved then s
    else if s.job.status = .running then
      { s with
        job := { s.job with
          status := ending.toStatus
          output := s.job.output.append .stderr message
          closeObserved := true }
        terminals := s.terminals + 1 }
    else { s with job := { s.job with closeObserved := true }, terminals := s.terminals + 1 }
  | .issueFlush =>
    match s.flushes with
    | ⟨snapshot, ticket, .queued⟩ :: rest =>
      { s with flushes := ⟨snapshot, ticket, .issued (ownedOutputStatuses s.job) .pending⟩ :: rest }
    | _ => s
  | .applyFlush =>
    match s.flushes with
    | ⟨snapshot, ticket, .issued expected .pending⟩ :: rest =>
      { s with
        row := (s.row.recordOutput snapshot expected).2
        flushes := ⟨snapshot, ticket, .issued expected (.answered (s.row.recordOutput snapshot expected).1)⟩ :: rest }
    | _ => s
  | .failFlush =>
    match s.flushes with
    | ⟨snapshot, ticket, .issued expected .pending⟩ :: rest =>
      { s with flushes := ⟨snapshot, ticket, .issued expected .failed⟩ :: rest, failed := true }
    | _ => s
  | .settleFlush =>
    match s.flushes with
    | ⟨_, _, .issued _ (.answered applied)⟩ :: rest =>
      { s with job := s.job.afterOutputWrite applied, flushes := rest }
    | ⟨_, _, .issued _ .failed⟩ :: rest => { s with flushes := rest }
    | _ => s
  | .issueTerminal =>
    match s.terminalCall, s.terminals with
    | none, n + 1 => State.persistCompleteBody { s with terminals := n }
    | _, _ => s
  | .applyTerminal =>
    match s.terminalCall with
    | some ⟨write, snapshot, ticket, .pending⟩ =>
      let t : TerminalCall := ⟨write, snapshot, ticket, .pending⟩
      { s with row := (t.apply s.row).2, terminalCall := some { t with outcome := .answered (t.apply s.row).1 } }
    | _ => s
  | .failTerminal =>
    match s.terminalCall with
    | some ⟨write, snapshot, ticket, .pending⟩ =>
      { s with terminalCall := some ⟨write, snapshot, ticket, .failed⟩, failed := true }
    | _ => s
  | .settleTerminal =>
    match s.terminalCall with
    | some ⟨write, snapshot, ticket, .answered applied⟩ =>
      let t : TerminalCall := ⟨write, snapshot, ticket, .answered applied⟩
      { s with job := t.settle s.job applied, terminalCall := none }
    | some ⟨_, _, _, .failed⟩ => { s with terminalCall := none }
    | _ => s
  | .sweep => { s with row := s.row.sweep, swept := s.swept || s.row.status.isOpen }

def step (s : State) (e : Event) : State × Unit := (next s e, ())

/-- No call of one chain overtakes an earlier one of the other: a terminal write takes effect when the flushes decided
before it was issued have settled, and a flush is handed to the store when the terminal write issued before the flush
was decided has settled. -/
def NoOvertaking (s : State) : Event → Prop
  | .applyTerminal => ∀ t, s.terminalCall = some t → t.outcome = .pending → ∀ f ∈ s.flushes, t.ticket ≤ f.ticket
  | .issueFlush => ∀ f, s.flushes.head? = some f → ∀ t, s.terminalCall = some t → f.ticket < t.ticket
  | _ => True

/-! ## Later outputs -/

namespace Output

variable {o o' o'' : Output}

theorem Extends.refl (o : Output) : Extends o o := ⟨⟨"", by simp⟩, ⟨"", by simp⟩, id⟩

theorem Extends.trans (h : Extends o o') (h' : Extends o' o'') : Extends o o'' := by
  obtain ⟨⟨u, hu⟩, ⟨v, hv⟩, ht⟩ := h
  obtain ⟨⟨u', hu'⟩, ⟨v', hv'⟩, ht'⟩ := h'
  exact ⟨⟨u ++ u', by rw [hu', hu, String.append_assoc]⟩, ⟨v ++ v', by rw [hv', hv, String.append_assoc]⟩,
    fun h => ht' (ht h)⟩

theorem eq_of_append_eq {a u v : String} (h : a = (a ++ u) ++ v) : a = a ++ u := by
  have hlen := congrArg String.length h
  simp only [String.length_append] at hlen
  have hu : u.length = 0 := by omega
  rw [String.length_eq_zero_iff.1 hu, String.append_empty]

theorem Extends.antisymm (h : Extends o o') (h' : Extends o' o) : o = o' := by
  obtain ⟨⟨u, hu⟩, ⟨v, hv⟩, ht⟩ := h
  obtain ⟨⟨u', hu'⟩, ⟨v', hv'⟩, ht'⟩ := h'
  have hstdout : o.stdout = o'.stdout := by
    rw [hu] at hu' ⊢
    exact eq_of_append_eq hu'
  have hstderr : o.stderr = o'.stderr := by
    rw [hv] at hv' ⊢
    exact eq_of_append_eq hv'
  have htruncated : o.truncated = o'.truncated := Bool.eq_iff_iff.2 ⟨ht, ht'⟩
  obtain ⟨a, b, c⟩ := o
  obtain ⟨a', b', c'⟩ := o'
  rw [Output.mk.injEq]
  exact ⟨hstdout, hstderr, htruncated⟩

theorem extends_append (o : Output) (channel : Channel) (text : String) : Extends o (o.append channel text) := by
  cases channel with
  | stdout => exact ⟨⟨text, rfl⟩, ⟨"", by simp [append]⟩, id⟩
  | stderr => exact ⟨⟨"", by simp [append]⟩, ⟨text, rfl⟩, id⟩

theorem extends_truncated (o : Output) : Extends o { o with truncated := true } :=
  ⟨⟨"", by simp⟩, ⟨"", by simp⟩, fun _ => rfl⟩

end Output

/-! ## The invariant -/

/-- What holds as long as no call overtakes another. -/
structure Inv (s : State) : Prop where
  status : s.job.status = .running ∨ s.job.status.isSettled = true
  closed : s.job.closeObserved = true → s.job.status.isSettled = true
  row_le : s.row.output.Extends s.job.output
  flush_le : ∀ f ∈ s.flushes, s.row.output.Extends f.snapshot ∧ f.snapshot.Extends s.job.output ∧ f.ticket < s.tickets
  ordered : s.flushes.Pairwise fun f g => f.snapshot.Extends g.snapshot
  waiting : ∀ f ∈ s.flushes.tail, f.phase = .queued
  /-- a flush is handed to the store with the statuses that hold until it settles -/
  expected : ∀ f ∈ s.flushes, ∀ sts o, f.phase = .issued sts o → sts = ownedOutputStatuses s.job
  refused : ∀ f ∈ s.flushes, ∀ sts, f.phase = .issued sts (.answered false) →
    s.swept = true ∧ s.job.terminalPersisted = false
  terminal_le : ∀ t, s.terminalCall = some t →
    s.row.output.Extends t.snapshot ∧ t.snapshot.Extends s.job.output ∧ t.ticket < s.tickets
  earlier : ∀ t, s.terminalCall = some t → ∀ f ∈ s.flushes, f.ticket < t.ticket → f.snapshot.Extends t.snapshot
  later : ∀ t, s.terminalCall = some t → ∀ f ∈ s.flushes, t.ticket ≤ f.ticket → t.snapshot.Extends f.snapshot
  running : ∀ t, s.terminalCall = some t → ∀ f ∈ s.flushes, f.phase ≠ .queued → f.ticket < t.ticket
  landed : ∀ t, s.terminalCall = some t → ∀ b, t.outcome = .answered b → ∀ f ∈ s.flushes, t.ticket ≤ f.ticket
  /-- before the terminal state is in the row, only another instance can have closed it -/
  unpersisted : s.job.terminalPersisted = false →
    (∀ t, s.terminalCall = some t → t.outcome ≠ .answered true) →
    s.row.status.isSettled = false ∧ (s.swept = false → s.row.status.isOpen = true)
  persisted : s.job.terminalPersisted = true → s.job.terminalRowOwned = true ∧ s.job.durableOutputRowLost = false ∧
    s.row.status = s.job.status ∧ s.job.status.isSettled = true
  complete : ∀ t, s.terminalCall = some t → ∀ st, t.write = .complete st → s.job.terminalPersisted = false ∧
    st = s.job.status ∧ s.job.status.isSettled = true ∧ t.outcome ≠ .answered false ∧
    (t.outcome = .answered true → s.row.status = s.job.status)
  late : ∀ t, s.terminalCall = some t → ∀ sts, t.write = .late sts → s.job.terminalPersisted = true ∧
    sts = [s.job.status] ∧ t.outcome ≠ .answered false
  lost : s.job.durableOutputRowLost = true → s.swept = true
  full : s.job.closeObserved = true → s.failed = false → 0 < s.terminals ∨
    (∃ t, s.terminalCall = some t ∧ t.outcome = .pending ∧ t.snapshot = s.job.output) ∨ s.row.output = s.job.output

theorem not_settled_of_open {status : JobStoreStatus} (h : status.isOpen = true) : status.isSettled = false := by
  cases status with
  | queued => rfl
  | running => rfl
  | _ => cases h

theorem inv_launched {status : JobStoreStatus} (h : status.isOpen = true) : Inv (State.launched status) where
  status := Or.inl rfl
  closed := fun h => by cases h
  row_le := Output.Extends.refl _
  flush_le := fun f hf => by cases hf
  ordered := List.Pairwise.nil
  waiting := fun f hf => by cases hf
  expected := fun f hf => by cases hf
  refused := fun f hf => by cases hf
  terminal_le := fun t ht => by cases ht
  earlier := fun t ht => by cases ht
  later := fun t ht => by cases ht
  running := fun t ht => by cases ht
  landed := fun t ht => by cases ht
  unpersisted := fun _ _ => ⟨not_settled_of_open h, fun _ => h⟩
  persisted := fun h => by cases h
  complete := fun t ht => by cases ht
  late := fun t ht => by cases ht
  lost := fun h => by cases h
  full := fun h => by cases h

theorem Ending.isSettled (ending : Ending) : ending.toStatus.isSettled = true := by
  cases ending <;> rfl

section steps
variable {s : State}

/-- More output, in a job that has not closed. -/
theorem Inv.grow (h : Inv s) {o : Output} (ho : s.job.output.Extends o) {d : Bool}
    (hopen : s.job.closeObserved = false) :
    Inv { s with job := { s.job with output := o, outputDirty := d } } :=
  { h with
    row_le := h.row_le.trans ho
    flush_le := fun f hf => ⟨(h.flush_le f hf).1, (h.flush_le f hf).2.1.trans ho, (h.flush_le f hf).2.2⟩
    terminal_le := fun t ht => ⟨(h.terminal_le t ht).1, (h.terminal_le t ht).2.1.trans ho, (h.terminal_le t ht).2.2⟩
    full := fun hc => by
      rw [show s.job.closeObserved = true from hc] at hopen
      cases hopen }

/-- A running job has not closed, and its terminal chain has done nothing. -/
theorem Inv.of_running (h : Inv s) (hrun : s.job.status = .running) :
    s.job.closeObserved = false ∧ s.job.terminalPersisted = false ∧ s.terminalCall = none := by
  have hns : s.job.status.isSettled ≠ true := by
    rw [hrun]
    exact Bool.false_ne_true
  have hunp : s.job.terminalPersisted = false := by
    by_contra hc
    exact hns (h.persisted (by simpa using hc)).2.2.2
  refine ⟨?_, hunp, ?_⟩
  · by_contra hc
    exact hns (h.closed (by simpa using hc))
  · cases ht : s.terminalCall with
    | none => rfl
    | some t =>
      cases hw : t.write with
      | complete st => exact absurd (h.complete t ht st hw).2.2.1 hns
      | late sts =>
        have hp := (h.late t ht sts hw).1
        rw [hunp] at hp
        cases hp

/-- A job that ends while it runs; `persistComplete` is called. -/
theorem Inv.terminate (h : Inv s) (ending : Ending) : Inv (s.terminate ending) := by
  unfold State.terminate
  split
  · rename_i hrun
    obtain ⟨hopen, hunp, hnone⟩ := h.of_running hrun
    refine { h with
      status := Or.inr ending.isSettled
      closed := fun _ => ending.isSettled
      expected := fun f hf sts o hph => ?_
      persisted := fun hp => absurd (hunp.symm.trans hp) Bool.false_ne_true
      complete := fun t ht => absurd (hnone.symm.trans ht) (Option.some_ne_none t).symm
      late := fun t ht => absurd (hnone.symm.trans ht) (Option.some_ne_none t).symm
      full := fun hc => absurd (hopen.symm.trans hc) Bool.false_ne_true }
    rw [h.expected f hf sts o hph]
    simp [ownedOutputStatuses, hunp]
  · exact h

/-- The child closes. -/
theorem Inv.close (h : Inv s) (ending : Ending) (message : String) : Inv (next s (.close ending message)) := by
  rw [next]
  split
  · exact h
  · rename_i hopen
    split
    · rename_i hrun
      have hgrow := h.grow (Output.extends_append s.job.output .stderr message) (d := s.job.outputDirty)
        (by simpa using hopen)
      have hend := hgrow.terminate ending
      rw [State.terminate, if_pos hrun] at hend
      exact { hend with
        closed := fun _ => ending.isSettled
        full := fun _ _ => Or.inl (Nat.succ_pos _) }
    · rename_i hrun
      exact { h with
        closed := fun _ => h.status.resolve_left hrun
        full := fun _ _ => Or.inl (Nat.succ_pos _) }

theorem Inv.maybeFlushOutput (h : Inv s) : Inv s.maybeFlushOutput := by
  unfold State.maybeFlushOutput
  split
  · exact h
  · split
    · exact { h with }
    · have hold : ∀ f ∈ s.flushes ++ [⟨s.job.output, s.tickets, .queued⟩],
          f ∈ s.flushes ∨ f = ⟨s.job.output, s.tickets, .queued⟩ := by
        intro f hf
        rw [List.mem_append, List.mem_singleton] at hf
        exact hf
      refine { h with
        flush_le := fun f hf => ?_
        ordered := ?_
        waiting := fun f hf => ?_
        expected := fun f hf sts o hph => ?_
        refused := fun f hf sts hph => ?_
        terminal_le := fun t ht => ?_
        earlier := fun t ht f hf hlt => ?_
        later := fun t ht f hf hle => ?_
        running := fun t ht f hf hph => ?_
        landed := fun t ht b hb f hf => ?_ }
      · rcases hold f hf with hf | rfl
        · exact ⟨(h.flush_le f hf).1, (h.flush_le f hf).2.1, Nat.lt_succ_of_lt (h.flush_le f hf).2.2⟩
        · exact ⟨h.row_le, Output.Extends.refl _, Nat.lt_succ_self _⟩
      · rw [List.pairwise_append]
        refine ⟨h.ordered, List.pairwise_singleton _ _, fun f hf g hg => ?_⟩
        obtain rfl := List.mem_singleton.1 hg
        exact (h.flush_le f hf).2.1
      · cases hfl : s.flushes with
        | nil =>
          replace hf : f ∈ (s.flushes ++ [(⟨s.job.output, s.tickets, .queued⟩ : Flush)]).tail := hf
          rw [hfl] at hf
          cases hf
        | cons g rest =>
          replace hf : f ∈ (s.flushes ++ [(⟨s.job.output, s.tickets, .queued⟩ : Flush)]).tail := hf
          rw [hfl, List.cons_append, List.tail_cons, List.mem_append, List.mem_singleton] at hf
          rcases hf with hf | rfl
          · exact h.waiting f (by rw [hfl]; exact hf)
          · rfl
      · rcases hold f hf with hf | rfl
        · exact h.expected f hf sts o hph
        · cases hph
      · rcases hold f hf with hf | rfl
        · exact h.refused f hf sts hph
        · cases hph
      · exact ⟨(h.terminal_le t ht).1, (h.terminal_le t ht).2.1, Nat.lt_succ_of_lt (h.terminal_le t ht).2.2⟩
      · rcases hold f hf with hf | rfl
        · exact h.earlier t ht f hf hlt
        · have := (h.terminal_le t ht).2.2
          exact absurd hlt (by dsimp only; omega)
      · rcases hold f hf with hf | rfl
        · exact h.later t ht f hf hle
        · exact (h.terminal_le t ht).2.1
      · rcases hold f hf with hf | rfl
        · exact h.running t ht f hf hph
        · exact absurd rfl hph
      · rcases hold f hf with hf | rfl
        · exact h.landed t ht b hb f hf
        · exact Nat.le_of_lt (h.terminal_le t ht).2.2

theorem Inv.sweep (h : Inv s) :
    Inv { s with row := s.row.sweep, swept := s.swept || s.row.status.isOpen } := by
  unfold Row.sweep
  split
  · rename_i hopen
    rw [hopen, Bool.or_true]
    have hns := not_settled_of_open hopen
    refine { h with
      refused := fun f hf sts hph => ⟨rfl, (h.refused f hf sts hph).2⟩
      unpersisted := fun _ _ => ⟨rfl, fun hs => by cases hs⟩
      persisted := fun hp => ?_
      complete := fun t ht st hw => ?_
      lost := fun _ => rfl }
    · obtain ⟨-, -, hrow, hset⟩ := h.persisted hp
      rw [hrow, hset] at hns
      cases hns
    · obtain ⟨hunp, hst, hset, hno, hyes⟩ := h.complete t ht st hw
      refine ⟨hunp, hst, hset, hno, fun ho => ?_⟩
      rw [hyes ho, hset] at hns
      cases hns
  · rename_i hopen
    rw [Bool.not_eq_true] at hopen
    rw [hopen, Bool.or_false]
    exact h

section flush
variable {f f' : Flush} {rest : List Flush} (h : Inv s) (hfl : s.flushes = f :: rest)
include h hfl

/-- The first flush of the chain changes its phase. -/
theorem Inv.rehead (hsnap : f'.snapshot = f.snapshot) (hticket : f'.ticket = f.ticket)
    (hexp : ∀ sts o, f'.phase = .issued sts o → sts = ownedOutputStatuses s.job)
    (href : ∀ sts, f'.phase = .issued sts (.answered false) → s.swept = true ∧ s.job.terminalPersisted = false)
    (hrun : ∀ t, s.terminalCall = some t → f.ticket < t.ticket) : Inv { s with flushes := f' :: rest } := by
  have hf : f ∈ s.flushes := by simp [hfl]
  have hrest : ∀ g ∈ rest, g ∈ s.flushes := fun g hg => by simp [hfl, hg]
  have hord := h.ordered
  rw [hfl, List.pairwise_cons] at hord
  refine { h with
    flush_le := fun g hg => ?_
    ordered := ?_
    waiting := fun g hg => h.waiting g (by rw [hfl]; exact hg)
    expected := fun g hg sts o hph => ?_
    refused := fun g hg sts hph => ?_
    earlier := fun t ht g hg hlt => ?_
    later := fun t ht g hg hle => ?_
    running := fun t ht g hg hph => ?_
    landed := fun t ht b hb g hg => ?_ }
  · rcases List.mem_cons.1 hg with rfl | hg
    · rw [hsnap, hticket]
      exact h.flush_le f hf
    · exact h.flush_le g (hrest g hg)
  · rw [List.pairwise_cons, hsnap]
    exact hord
  · rcases List.mem_cons.1 hg with rfl | hg
    · exact hexp sts o hph
    · exact h.expected g (hrest g hg) sts o hph
  · rcases List.mem_cons.1 hg with rfl | hg
    · exact href sts hph
    · exact h.refused g (hrest g hg) sts hph
  · rcases List.mem_cons.1 hg with rfl | hg
    · rw [hsnap]
      exact h.earlier t ht f hf (by rwa [← hticket])
    · exact h.earlier t ht g (hrest g hg) hlt
  · rcases List.mem_cons.1 hg with rfl | hg
    · rw [hsnap]
      exact h.later t ht f hf (by rwa [← hticket])
    · exact h.later t ht g (hrest g hg) hle
  · rcases List.mem_cons.1 hg with rfl | hg
    · rw [hticket]
      exact hrun t ht
    · exact h.running t ht g (hrest g hg) hph
  · rcases List.mem_cons.1 hg with rfl | hg
    · rw [hticket]
      exact h.landed t ht b hb f hf
    · exact h.landed t ht b hb g (hrest g hg)

/-- The first flush of the chain settles. -/
theorem Inv.pop : Inv { s with flushes := rest } := by
  have hrest : ∀ g ∈ rest, g ∈ s.flushes := fun g hg => by simp [hfl, hg]
  have hord := h.ordered
  rw [hfl, List.pairwise_cons] at hord
  exact { h with
    flush_le := fun g hg => h.flush_le g (hrest g hg)
    ordered := hord.2
    waiting := fun g hg => h.waiting g (by rw [hfl]; exact List.mem_of_mem_tail hg)
    expected := fun g hg => h.expected g (hrest g hg)
    refused := fun g hg => h.refused g (hrest g hg)
    earlier := fun t ht g hg => h.earlier t ht g (hrest g hg)
    later := fun t ht g hg => h.later t ht g (hrest g hg)
    running := fun t ht g hg => h.running t ht g (hrest g hg)
    landed := fun t ht b hb g hg => h.landed t ht b hb g (hrest g hg) }

/-- The snapshot of the first flush lands in the row. -/
theorem Inv.land (hrun : ∀ t, s.terminalCall = some t → f.ticket < t.ticket) :
    Inv { s with row := { s.row with output := f.snapshot } } := by
  have hf : f ∈ s.flushes := by simp [hfl]
  have hord := h.ordered
  rw [hfl, List.pairwise_cons] at hord
  obtain ⟨hrow, hjob, -⟩ := h.flush_le f hf
  refine { h with
    row_le := hjob
    flush_le := fun g hg => ?_
    terminal_le := fun t ht => ⟨h.earlier t ht f hf (hrun t ht), (h.terminal_le t ht).2⟩
    full := fun hc hn => (h.full hc hn).imp_right fun hfull => hfull.imp_right fun heq => ?_ }
  · refine ⟨?_, (h.flush_le g hg).2⟩
    rw [hfl, List.mem_cons] at hg
    rcases hg with rfl | hg
    · exact Output.Extends.refl _
    · exact hord.1 g hg
  · rw [heq] at hrow
    exact hjob.antisymm hrow

end flush

theorem Inv.issueFlush (h : Inv s) (hno : NoOvertaking s .issueFlush) : Inv (next s .issueFlush) := by
  rw [next]
  split
  · rename_i snapshot ticket rest hfl
    refine h.rehead hfl rfl rfl (fun sts o hph => ?_) (fun sts hph => ?_) (hno _ (by rw [hfl]; rfl))
    · injection hph with hsts
      exact hsts.symm
    · injection hph with _ ho
      cases ho
  · exact h

/-- A flush in flight is admitted, unless another instance has taken the row before the terminal write. -/
theorem Inv.admitted (h : Inv s) {f : Flush} (hf : f ∈ s.flushes) {sts : List JobStoreStatus}
    (hph : f.phase = .issued sts .pending) (hswept : s.swept = false ∨ s.job.terminalPersisted = true) :
    sts.contains s.row.status = true := by
  rw [h.expected f hf sts _ hph]
  cases hp : s.job.terminalPersisted with
  | true =>
    obtain ⟨hown, -, hrow, -⟩ := h.persisted hp
    simp [ownedOutputStatuses, hp, hown, hrow]
  | false =>
    have hnot : ∀ t, s.terminalCall = some t → t.outcome ≠ .answered true := by
      intro t ht ho
      have h₁ := h.running t ht f hf (by rw [hph]; exact FlushPhase.noConfusion)
      have h₂ := h.landed t ht true ho f hf
      omega
    have hopen := (h.unpersisted hp hnot).2 (hswept.resolve_right (by rw [hp]; exact Bool.false_ne_true))
    have hsts : ownedOutputStatuses s.job = [.queued, .running] := by simp [ownedOutputStatuses, hp]
    rw [hsts]
    revert hopen
    cases s.row.status with
    | queued | running => exact fun _ => rfl
    | _ => exact fun hopen => by cases hopen

theorem Inv.applyFlush (h : Inv s) : Inv (next s .applyFlush) := by
  rw [next]
  split
  · rename_i snapshot ticket sts rest hfl
    have hf : (⟨snapshot, ticket, .issued sts .pending⟩ : Flush) ∈ s.flushes := by simp [hfl]
    have hrun : ∀ t, s.terminalCall = some t → ticket < t.ticket :=
      fun t ht => h.running t ht _ hf FlushPhase.noConfusion
    unfold Row.recordOutput
    by_cases hc : sts.contains s.row.status = true
    · rw [if_pos hc]
      refine (h.land hfl hrun).rehead hfl rfl rfl (fun sts' o hph => ?_) (fun sts' hph => ?_) hrun
      · injection hph with hsts
        exact hsts ▸ h.expected _ hf sts _ rfl
      · injection hph with _ ho
        cases ho
    · rw [if_neg hc]
      refine h.rehead hfl rfl rfl (fun sts' o hph => ?_) (fun sts' hph => ?_) hrun
      · injection hph with hsts
        exact hsts ▸ h.expected _ hf sts _ rfl
      · constructor
        · by_contra hs
          exact hc (h.admitted hf rfl (Or.inl (by simpa using hs)))
        · by_contra hp
          exact hc (h.admitted hf rfl (Or.inr (by simpa using hp)))
  · exact h

theorem Inv.failFlush (h : Inv s) : Inv (next s .failFlush) := by
  rw [next]
  split
  · rename_i snapshot ticket sts rest hfl
    have hf : (⟨snapshot, ticket, .issued sts .pending⟩ : Flush) ∈ s.flushes := by simp [hfl]
    have hhead : Inv { s with flushes := ⟨snapshot, ticket, .issued sts .failed⟩ :: rest } := by
      refine h.rehead hfl rfl rfl (fun sts' o hph => ?_) (fun sts' hph => ?_)
        (fun t ht => h.running t ht _ hf FlushPhase.noConfusion)
      · injection hph with hsts
        exact hsts ▸ h.expected _ hf sts _ rfl
      · injection hph with _ ho
        cases ho
    exact { hhead with full := fun _ hn => by cases hn }
  · exact h

/-- The row is lost only to another instance, and not behind the terminal write. -/
theorem Inv.afterOutputWrite (h : Inv s) {applied : Bool}
    (hrefused : applied = false → s.swept = true ∧ s.job.terminalPersisted = false) :
    Inv { s with job := s.job.afterOutputWrite applied } := by
  unfold Job.afterOutputWrite
  split
  · exact h
  · rename_i hc
    obtain ⟨hswept, hunp⟩ := hrefused (by
      cases applied with
      | false => rfl
      | true => exact absurd rfl hc)
    exact { h with
      persisted := fun hp => absurd (hunp.symm.trans hp) Bool.false_ne_true
      lost := fun _ => hswept }

theorem Inv.settleFlush (h : Inv s) : Inv (next s .settleFlush) := by
  rw [next]
  split
  · rename_i snapshot ticket sts applied rest hfl
    have hf : (⟨snapshot, ticket, .issued sts (.answered applied)⟩ : Flush) ∈ s.flushes := by simp [hfl]
    refine (h.pop hfl).afterOutputWrite fun ha => ?_
    subst ha
    exact h.refused _ hf sts rfl
  · rename_i snapshot ticket sts rest hfl
    exact h.pop hfl
  · exact h

/-- A body of the terminal chain issues its store call. -/
theorem Inv.issue (h : Inv s) (hnone : s.terminalCall = none) {n : ℕ} {w : TerminalWrite}
    (hcomplete : ∀ st, w = .complete st → s.job.terminalPersisted = false ∧ st = s.job.status ∧
      s.job.status.isSettled = true)
    (hlate : ∀ sts, w = .late sts → s.job.terminalPersisted = true ∧ sts = [s.job.status]) :
    Inv { s with
      job := { s.job with outputDirty := false }
      terminals := n
      terminalCall := some ⟨w, s.job.output, s.tickets, .pending⟩
      tickets := s.tickets + 1 } := by
  refine { h with
    flush_le := fun f hf => ⟨(h.flush_le f hf).1, (h.flush_le f hf).2.1, Nat.lt_succ_of_lt (h.flush_le f hf).2.2⟩
    terminal_le := fun t ht => ?_
    earlier := fun t ht f hf _ => ?_
    later := fun t ht f hf hle => ?_
    running := fun t ht f hf _ => ?_
    landed := fun t ht b hb => ?_
    unpersisted := fun hp _ => h.unpersisted hp fun t ht => absurd (hnone.symm.trans ht) (Option.some_ne_none t).symm
    complete := fun t ht st hst => ?_
    late := fun t ht sts hsts => ?_
    full := fun _ _ => Or.inr (Or.inl ⟨_, rfl, rfl, rfl⟩) }
  · obtain rfl := Option.some.inj ht
    exact ⟨h.row_le, Output.Extends.refl _, Nat.lt_succ_self _⟩
  · obtain rfl := Option.some.inj ht
    exact (h.flush_le f hf).2.1
  · obtain rfl := Option.some.inj ht
    have := (h.flush_le f hf).2.2
    exact absurd hle (by dsimp only; omega)
  · obtain rfl := Option.some.inj ht
    exact (h.flush_le f hf).2.2
  · obtain rfl := Option.some.inj ht
    cases hb
  · obtain rfl := Option.some.inj ht
    obtain ⟨hunp, heq, hset⟩ := hcomplete st hst
    exact ⟨hunp, heq, hset, Outcome.noConfusion, fun ho => by cases ho⟩
  · obtain rfl := Option.some.inj ht
    obtain ⟨hp, heq⟩ := hlate sts hsts
    exact ⟨hp, heq, Outcome.noConfusion⟩

theorem Inv.issueTerminal (h : Inv s) : Inv (next s .issueTerminal) := by
  rw [next]
  split
  · rename_i n hnone hn
    unfold State.persistCompleteBody
    split
    · rename_i hstatus
      refine { h with full := fun hc _ => ?_ }
      have hset := h.closed hc
      rcases hstatus with hs | hs
      · rw [show s.job.status = .running from hs] at hset
        cases hset
      · rw [show s.job.status = .queued from hs] at hset
        cases hset
    · rename_i hstatus
      split
      · rename_i hp
        obtain ⟨hown, hlost, hrow, hset⟩ := h.persisted hp
        split
        · refine h.issue hnone (fun st hst => by cases hst) fun sts hsts => ?_
          injection hsts with hsts
          refine ⟨hp, ?_⟩
          rw [← hsts]
          simp [ownedOutputStatuses, show s.job.terminalPersisted = true from hp, hown]
        · rename_i hno
          exact absurd (by simp [mayWriteOutputFor, hown, hlost]) hno
      · rename_i hp
        refine h.issue hnone (fun st hst => ?_) fun sts hsts => by cases hsts
        injection hst with hst
        exact ⟨by simpa using hp, hst.symm, h.status.resolve_left fun hs => hstatus (Or.inl hs)⟩
  · exact h

/-- The snapshot of a terminal write lands in the row. -/
theorem Inv.landTerminal (h : Inv s) {t : TerminalCall} (ht : s.terminalCall = some t)
    (hno : ∀ f ∈ s.flushes, t.ticket ≤ f.ticket) :
    Inv { s with
      row := ⟨s.job.status, t.snapshot⟩
      terminalCall := some { t with outcome := .answered true } } := by
  obtain ⟨hrow, hjob, hlt⟩ := h.terminal_le t ht
  refine { h with
    row_le := hjob
    flush_le := fun f hf => ⟨h.later t ht f hf (hno f hf), (h.flush_le f hf).2⟩
    terminal_le := fun t' ht' => ?_
    earlier := fun t' ht' => ?_
    later := fun t' ht' => ?_
    running := fun t' ht' => ?_
    landed := fun t' ht' _ _ => ?_
    unpersisted := fun _ hnot => absurd rfl (hnot _ rfl)
    persisted := fun hp => ?_
    complete := fun t' ht' st hst => ?_
    late := fun t' ht' sts hsts => ?_
    full := fun hc hn => (h.full hc hn).imp_right fun hfull => Or.inr ?_ }
  · obtain rfl := Option.some.inj ht'
    exact ⟨Output.Extends.refl _, hjob, hlt⟩
  · obtain rfl := Option.some.inj ht'
    exact h.earlier t ht
  · obtain rfl := Option.some.inj ht'
    exact h.later t ht
  · obtain rfl := Option.some.inj ht'
    exact h.running t ht
  · obtain rfl := Option.some.inj ht'
    exact hno
  · obtain ⟨hown, hlost, -, hset⟩ := h.persisted hp
    exact ⟨hown, hlost, rfl, hset⟩
  · obtain rfl := Option.some.inj ht'
    obtain ⟨hunp, heq, hset, -, -⟩ := h.complete t ht st hst
    exact ⟨hunp, heq, hset, by simp, fun _ => rfl⟩
  · obtain rfl := Option.some.inj ht'
    obtain ⟨hp, heq, -⟩ := h.late t ht sts hsts
    exact ⟨hp, heq, by simp⟩
  · rcases hfull with ⟨t', ht', -, hsnap⟩ | heq
    · obtain rfl := Option.some.inj (ht.symm.trans ht')
      exact hsnap
    · rw [heq] at hrow
      exact hjob.antisymm hrow

theorem Inv.applyTerminal (h : Inv s) (hno : NoOvertaking s .applyTerminal) : Inv (next s .applyTerminal) := by
  rw [next]
  split
  · rename_i w snapshot ticket ht
    have hland := h.landTerminal ht (hno _ ht rfl)
    cases w with
    | complete st =>
      obtain ⟨hunp, rfl, -, -, -⟩ := h.complete _ ht st rfl
      have hnot : s.row.status.isSettled = false := by
        refine (h.unpersisted hunp fun t ht' => ?_).1
        obtain rfl := Option.some.inj (ht.symm.trans ht')
        exact Outcome.noConfusion
      simpa only [TerminalCall.apply, Row.recordComplete, hnot, Bool.false_eq_true, if_false] using hland
    | late sts =>
      obtain ⟨hp, rfl, -⟩ := h.late _ ht sts rfl
      have hrow := (h.persisted hp).2.2.1
      simpa [TerminalCall.apply, Row.recordOutput, hrow] using hland
  · exact h

theorem Inv.failTerminal (h : Inv s) : Inv (next s .failTerminal) := by
  rw [next]
  split
  · rename_i w snapshot ticket ht
    refine { h with
      terminal_le := fun t' ht' => ?_
      earlier := fun t' ht' => ?_
      later := fun t' ht' => ?_
      running := fun t' ht' => ?_
      landed := fun t' ht' b hb => ?_
      unpersisted := fun hp _ => h.unpersisted hp fun t ht' => ?_
      complete := fun t' ht' st hst => ?_
      late := fun t' ht' sts hsts => ?_
      full := fun _ hn => by cases hn }
    · obtain rfl := Option.some.inj ht'
      exact h.terminal_le ⟨w, snapshot, ticket, .pending⟩ ht
    · obtain rfl := Option.some.inj ht'
      exact h.earlier ⟨w, snapshot, ticket, .pending⟩ ht
    · obtain rfl := Option.some.inj ht'
      exact h.later ⟨w, snapshot, ticket, .pending⟩ ht
    · obtain rfl := Option.some.inj ht'
      exact h.running ⟨w, snapshot, ticket, .pending⟩ ht
    · obtain rfl := Option.some.inj ht'
      cases hb
    · obtain rfl := Option.some.inj (ht.symm.trans ht')
      exact Outcome.noConfusion
    · obtain rfl := Option.some.inj ht'
      obtain ⟨hunp, heq, hset, -, -⟩ := h.complete _ ht st hst
      exact ⟨hunp, heq, hset, Outcome.noConfusion, fun ho => by cases ho⟩
    · obtain rfl := Option.some.inj ht'
      obtain ⟨hp, heq, -⟩ := h.late _ ht sts hsts
      exact ⟨hp, heq, Outcome.noConfusion⟩
  · exact h

/-- A terminal call settles, its answer apart. -/
theorem Inv.dropTerminal (h : Inv s) {t : TerminalCall} (ht : s.terminalCall = some t) (ho : t.outcome ≠ .pending)
    (hunp : t.outcome = .answered true → s.job.terminalPersisted = true) : Inv { s with terminalCall := none } := by
  refine { h with
    terminal_le := fun t' ht' => by cases ht'
    earlier := fun t' ht' => by cases ht'
    later := fun t' ht' => by cases ht'
    running := fun t' ht' => by cases ht'
    landed := fun t' ht' => by cases ht'
    unpersisted := fun hp _ => h.unpersisted hp fun t' ht' ho' => ?_
    complete := fun t' ht' => by cases ht'
    late := fun t' ht' => by cases ht'
    full := fun hc hn => (h.full hc hn).imp_right fun hfull => Or.inr ?_ }
  · obtain rfl := Option.some.inj (ht.symm.trans ht')
    exact absurd (hp.symm.trans (hunp ho')) Bool.false_ne_true
  · rcases hfull with ⟨t', ht', hpend, -⟩ | heq
    · obtain rfl := Option.some.inj (ht.symm.trans ht')
      exact absurd hpend ho
    · exact heq

/-- The terminal write of this instance has been admitted, and the manager learns of it. -/
theorem Inv.complete_settled (h : Inv s) {st : JobStoreStatus} {snapshot : Output} {ticket : ℕ}
    (ht : s.terminalCall = some ⟨.complete st, snapshot, ticket, .answered true⟩) :
    Inv { s with job := s.job.afterComplete true, terminalCall := none } := by
  obtain ⟨hunp, -, hset, -, hrow⟩ := h.complete _ ht st rfl
  have hqueued : ∀ f ∈ s.flushes, f.phase = .queued := by
    intro f hf
    by_contra hph
    have h₁ := h.running _ ht f hf hph
    have h₂ := h.landed _ ht true rfl f hf
    omega
  refine { h with
    expected := fun f hf sts o hph => ?_
    refused := fun f hf sts hph => ?_
    terminal_le := fun t' ht' => by cases ht'
    earlier := fun t' ht' => by cases ht'
    later := fun t' ht' => by cases ht'
    running := fun t' ht' => by cases ht'
    landed := fun t' ht' => by cases ht'
    unpersisted := fun hp => by cases hp
    persisted := fun _ => ⟨rfl, rfl, hrow rfl, hset⟩
    complete := fun t' ht' => by cases ht'
    late := fun t' ht' => by cases ht'
    lost := fun hl => by cases hl
    full := fun hc hn => (h.full hc hn).imp_right fun hfull => Or.inr ?_ }
  · rw [hqueued f hf] at hph
    cases hph
  · rw [hqueued f hf] at hph
    cases hph
  · rcases hfull with ⟨t', ht', hpend, -⟩ | heq
    · obtain rfl := Option.some.inj (ht.symm.trans ht')
      cases hpend
    · exact heq

theorem Inv.settleTerminal (h : Inv s) : Inv (next s .settleTerminal) := by
  rw [next]
  split
  · rename_i w snapshot ticket applied ht
    cases w with
    | complete st =>
      have happlied := (h.complete _ ht st rfl).2.2.2.1
      cases applied with
      | false => exact absurd rfl happlied
      | true => exact h.complete_settled ht
    | late sts =>
      obtain ⟨hp, -, happlied⟩ := h.late _ ht sts rfl
      cases applied with
      | false => exact absurd rfl happlied
      | true => exact h.dropTerminal ht Outcome.noConfusion fun _ => hp
  · rename_i w snapshot ticket ht
    exact h.dropTerminal ht Outcome.noConfusion fun ho => by cases ho
  · exact h

/-- **What holds as long as no call overtakes another.** -/
theorem next_inv (h : Inv s) {e : Event} (hno : NoOvertaking s e) : Inv (next s e) := by
  cases e with
  | chunk channel text =>
    rw [next]
    split
    · exact h
    · rename_i hopen
      exact h.grow (Output.extends_append _ _ _) (by simpa using hopen)
  | overflow =>
    rw [next]
    split
    · exact h
    · rename_i hopen
      exact (h.grow (d := s.job.outputDirty) (Output.extends_truncated _) (by simpa using hopen)).terminate _
  | flush => exact h.maybeFlushOutput
  | finish ending => exact h.terminate ending
  | persist =>
    rw [next]
    split
    · exact h
    · exact { h with full := fun _ _ => Or.inl (Nat.succ_pos _) }
  | close ending message => exact h.close ending message
  | issueFlush => exact h.issueFlush hno
  | applyFlush => exact h.applyFlush
  | failFlush => exact h.failFlush
  | settleFlush => exact h.settleFlush
  | issueTerminal => exact h.issueTerminal
  | applyTerminal => exact h.applyTerminal hno
  | failTerminal => exact h.failTerminal
  | settleTerminal => exact h.settleTerminal
  | sweep => exact h.sweep

/-- Under the invariant a step replaces the output of the row by a later one only. -/
theorem row_extends (h : Inv s) (e : Event) : s.row.output.Extends (next s e).row.output := by
  have hsame : ∀ s' : State, s'.row.output = s.row.output → s.row.output.Extends s'.row.output := by
    intro s' he
    rw [he]
    exact Output.Extends.refl _
  have hrecord : ∀ (o : Output) sts, s.row.output.Extends o →
      s.row.output.Extends (s.row.recordOutput o sts).2.output := by
    intro o sts ho
    unfold Row.recordOutput
    split
    · exact ho
    · exact Output.Extends.refl _
  cases e with
  | applyFlush =>
    rw [next]
    split
    · rename_i snapshot ticket sts rest hfl
      exact hrecord _ _ (h.flush_le ⟨snapshot, ticket, .issued sts .pending⟩ (by simp [hfl])).1
    · exact Output.Extends.refl _
  | applyTerminal =>
    rw [next]
    split
    · rename_i w snapshot ticket ht
      have hle := (h.terminal_le _ ht).1
      cases w with
      | complete st =>
        simp only [TerminalCall.apply, Row.recordComplete]
        split
        · exact Output.Extends.refl _
        · exact hle
      | late sts => exact hrecord _ _ hle
    · exact Output.Extends.refl _
  | sweep =>
    refine hsame _ ?_
    simp only [next, Row.sweep]
    split <;> rfl
  | chunk | overflow | flush | finish | persist | close | issueFlush | failFlush | settleFlush | issueTerminal
    | failTerminal | settleTerminal =>
    refine hsame _ ?_
    simp only [next, State.terminate, State.maybeFlushOutput, State.persistCompleteBody]
    repeat' split
    all_goals rfl

end steps

/-! ## Runs -/

/-- Nothing waits on the two chains, and no call is in flight. -/
def State.Quiescent (s : State) : Prop := s.flushes = [] ∧ s.terminals = 0 ∧ s.terminalCall = none

/-- The output of the job in a run. -/
structure OutputKept (s : State) (events : List Event) : Prop where
  /-- no step replaces the output of the row by an earlier one -/
  kept : Run.Along step (fun s e => s.row.output.Extends (next s e).row.output) s events
  /-- when the child has closed and every call has settled, none of them by failing, a row in a terminal state (which
  only this instance writes) has all the output -/
  full : Run.Throughout step (fun s => s.job.closeObserved = true → s.Quiescent → s.failed = false →
    s.row.status.isSettled = true → s.row.output = s.job.output) s events
  /-- the manager gives the row up only when another instance has changed its status -/
  lost : Run.Throughout step (fun s => s.job.durableOutputRowLost = true → s.swept = true) s events

/-- **The captured output is kept** in every run in which no call of one chain overtakes an earlier one of the
other. -/
theorem outputKept {status : JobStoreStatus} (hopen : status.isOpen = true) {events : List Event}
    (hno : Run.Along step NoOvertaking (State.launched status) events) :
    OutputKept (State.launched status) events := by
  have hinv : Run.Throughout step Inv (State.launched status) events :=
    Run.throughout_of_along (P := Inv) (fun s e hC h => next_inv h hC) (inv_launched hopen) hno
  refine ⟨hinv.along fun s e h => row_extends h e, hinv.mono ?_, hinv.mono fun s h => h.lost⟩
  rintro s h hclosed ⟨-, hterm, hcall⟩ hfailed -
  rcases h.full hclosed hfailed with hpos | ⟨t, ht, -, -⟩ | heq
  · omega
  · rw [hcall] at ht
    cases ht
  · exact heq

/-- A job whose flush settles before it closes. -/
theorem outputKept_plain : OutputKept (State.launched .running)
    [.chunk .stdout "a", .flush, .issueFlush, .applyFlush, .settleFlush, .chunk .stdout "b", .close .completed "",
      .issueTerminal, .applyTerminal, .settleTerminal] := by
  refine outputKept rfl ⟨trivial, trivial, fun f _ t ht => ?_, trivial, trivial, trivial, trivial, trivial,
    fun t _ _ f hf => ?_, trivial, trivial⟩
  · cases ht
  · cases hf

/-- Two flushes wait for each other; the terminal write lands behind the first, and then the second. -/
def overtaken : List Event :=
  [.chunk .stdout "a", .flush, .issueFlush, .chunk .stdout "b", .flush, .chunk .stdout "c", .applyFlush,
    .close .completed "", .issueTerminal, .applyTerminal, .settleTerminal, .settleFlush, .issueFlush, .applyFlush,
    .settleFlush]

/-- The flush that waited replaces the output of the terminal write, `abc`, by its own snapshot, `ab`. -/
theorem not_outputKept : ¬∀ (status : JobStoreStatus) (events : List Event), status.isOpen = true →
    OutputKept (State.launched status) events := by
  intro h
  have hfull := (h .running overtaken rfl).full
  have hlast := (Run.throughout_iff.1 hfull) overtaken [] (List.append_nil _).symm
  have hne : (Run.final step (State.launched .running) overtaken).row.output ≠
      (Run.final step (State.launched .running) overtaken).job.output := by
    decide
  exact hne (hlast (by decide) ⟨by decide, by decide, by decide⟩ (by decide) (by decide))

end LlmGateway.Manager.OutputChains
