import Mathlib.Data.List.Nodup
import Mathlib.Data.List.Range
import Mathlib.Data.List.Perm.Subperm
import Mathlib.Logic.Function.Basic
import Mathlib.Tactic.Common

/-!
# The migration runner

`migrate.ts`: runners, of any releases, apply what is pending of their migrations under an advisory lock.

* `Event`, `step` — runners that wait for the lock, read the ledger, run their migrations, and may crash at any point;
* `migrations_once` — every migration is run once and in order.
-/

namespace LlmGateway.Storage.Migrate

/-- A migration file; `records` is the name that its SQL enters for its version into the ledger, if it does. -/
structure Migration where
  version : ℕ
  recordName : String
  checksumSha256 : String
  records : Option String
deriving DecidableEq

structure AppliedMigration where
  version : ℕ
  name : String
  checksumSha256 : Option String

abbrev Ledger := List AppliedMigration

/-- `loadMigrations`, of the files in their order; it throws unless the versions are contiguous. -/
def loadMigrations (files : List Migration) : Option (List Migration) :=
  if files.map Migration.version = List.range' 1 files.length then some files else none

/-- `SHA256_HEX` -/
def isSha256Hex (s : String) : Bool := s.length = 64 && s.toList.all fun c => c.isDigit || ('a' ≤ c && c ≤ 'f')

/-- `assertRecordedMigrationChecksum` -/
def checksumRecorded (m : Migration) (checksum : String) : Bool := isSha256Hex checksum && checksum = m.checksumSha256

/-- The checks of `main` on the migrations that have been applied. -/
def checkApplied (migrations : List Migration) (applied : Ledger) : Bool :=
  applied.all fun a =>
    match migrations.find? fun m => m.version = a.version with
    | none => false
    | some m => m.recordName = a.name && a.checksumSha256.all (checksumRecorded m)

def pendingOf (migrations : List Migration) (applied : Ledger) : List Migration :=
  migrations.filter fun m => m.version ∉ applied.map AppliedMigration.version

/-- `recordMigrationChecksum`; `none` where it throws. -/
def recordMigrationChecksum (m : Migration) (ledger : Ledger) : Option Ledger :=
  match ledger.find? fun a => a.version = m.version with
  | none => none
  | some applied =>
    if applied.name ≠ m.recordName then none
    else
      match applied.checksumSha256 with
      | some checksum => if checksumRecorded m checksum then some ledger else none
      | none => some (ledger.map fun a => if a.version = m.version then { a with checksumSha256 := some m.checksumSha256 } else a)

/-- The transaction of `runMigration`, none of whose statements fails.  The SQL leaves a row that is there as it is. -/
def applyMigration (m : Migration) (ledger : Ledger) : Option Ledger :=
  recordMigrationChecksum m <|
    match m.records with
    | some name => if ledger.any fun a => a.version = m.version then ledger else ledger ++ [⟨m.version, name, none⟩]
    | none => ledger

/-! ## Runners -/

inductive Stage where
  | waiting
  /-- the lock is held, and the ledger is not read yet -/
  | locked
  | running (pending : List Migration)
  | ended (ok : Bool)
deriving DecidableEq

structure State where
  ledger : Ledger
  /-- what has been committed, in order -/
  executed : List Migration
  holder : Option ℕ
  stage : ℕ → Stage

inductive Outcome where
  | commits
  /-- the commit happens, and the connection breaks before its answer -/
  | unheard
  | fails

inductive Event where
  | lock (p : ℕ)
  /-- the ledger is read and checked, and the legacy shape repaired; `fails` says that a statement does -/
  | read (p : ℕ) (fails : Bool)
  | run (p : ℕ) (o : Outcome)
  | finish (p : ℕ)
  | crash (p : ℕ)

/-- The runner ends, and its lock is free. -/
def State.endRunner (s : State) (p : ℕ) (ok : Bool) : State :=
  { s with stage := Function.update s.stage p (.ended ok), holder := if s.holder = some p then none else s.holder }

def init (files : ℕ → List Migration) (ledger : Ledger) : State :=
  ⟨ledger, [], none, fun p => if (loadMigrations (files p)).isSome then .waiting else .ended false⟩

def step (files : ℕ → List Migration) (s : State) : Event → State
  | .lock p =>
    match s.stage p, s.holder with
    | .waiting, none => { s with stage := Function.update s.stage p .locked, holder := some p }
    | _, _ => s
  | .read p fails =>
    match s.stage p with
    | .locked =>
      if fails = false ∧ checkApplied (files p) s.ledger then
        { s with stage := Function.update s.stage p (.running (pendingOf (files p) s.ledger)) }
      else s.endRunner p false
    | _ => s
  | .run p o =>
    match s.stage p with
    | .running (m :: pending) =>
      match o, applyMigration m s.ledger with
      | .commits, some ledger =>
        { s with ledger := ledger, executed := s.executed ++ [m], stage := Function.update s.stage p (.running pending) }
      | .unheard, some ledger => { s with ledger := ledger, executed := s.executed ++ [m] }.endRunner p false
      | _, _ => s.endRunner p false
    | _ => s
  | .finish p =>
    match s.stage p with
    | .running [] => s.endRunner p true
    | _ => s
  | .crash p =>
    match s.stage p with
    | .ended _ => s
    | _ => s.endRunner p false

/-! ## One migration -/

/-- The row of a migration that a runner has run. -/
def receipt (m : Migration) : AppliedMigration := ⟨m.version, m.recordName, some m.checksumSha256⟩

theorem applyMigration_new {m : Migration} {ledger ledger' : Ledger} (hnew : ∀ a ∈ ledger, a.version ≠ m.version)
    (h : applyMigration m ledger = some ledger') : ledger' = ledger ++ [receipt m] := by
  have hfind : ledger.find? (fun a => a.version = m.version) = none := by simpa [List.find?_eq_none] using hnew
  have hany : (ledger.any fun a => a.version = m.version) = false := by simpa using hnew
  unfold applyMigration at h
  cases hrecords : m.records with
  | none => simp [hrecords, recordMigrationChecksum, hfind] at h
  | some name =>
    have hmap : (ledger.map fun a => if a.version = m.version then { a with checksumSha256 := some m.checksumSha256 } else a) = ledger :=
      (List.map_congr_left fun a ha => if_neg (hnew a ha)).trans (List.map_id' _)
    simp only [hrecords, hany, Bool.false_eq_true, if_false, recordMigrationChecksum, List.find?_append, hfind] at h
    by_cases hname : name = m.recordName <;> simp [hname, hmap] at h
    rw [← h]
    rfl

/-- The ledger has the names of the release, and its checksums where it has one. -/
def Agrees (m : Migration) (a : AppliedMigration) : Prop :=
  m.version = a.version ∧ m.recordName = a.name ∧ ∀ c ∈ a.checksumSha256, c = m.checksumSha256

theorem agrees_of_checkApplied {files : List Migration} {ledger : Ledger} (h : checkApplied files ledger = true) :
    ∀ a ∈ ledger, ∃ m ∈ files, Agrees m a := by
  intro a ha
  have := List.all_eq_true.1 h a ha
  split at this
  · cases this
  · next m hm =>
    simp only [Bool.and_eq_true, decide_eq_true_eq, Option.all_eq_true, checksumRecorded] at this
    exact ⟨m, List.mem_of_find?_eq_some hm, by simpa using List.find?_some hm, this.1, fun c hc => (this.2 c hc).2⟩

/-! ## Runs -/

def Loaded (files : List Migration) : Prop := files.map Migration.version = List.range' 1 files.length

/-- Every migration of the release has its row. -/
def UpToDate (files : List Migration) (ledger : Ledger) : Prop := ∀ m ∈ files, ∃ a ∈ ledger, Agrees m a

/-- What a runner knows that is to run `pending`. -/
structure Runs (files : List Migration) (ledger : Ledger) (pending : List Migration) : Prop where
  loaded : Loaded files
  agrees : ∀ a ∈ ledger, ∃ m ∈ files, Agrees m a
  versions : pending.map Migration.version = List.range' (1 + ledger.length) pending.length
  subset : pending ⊆ files
  covers : ∀ m ∈ files, m ∈ pending ∨ m.version ∈ ledger.map AppliedMigration.version

def StageOk (files : List Migration) (ledger : Ledger) (holds : Prop) : Stage → Prop
  | .waiting => Loaded files
  | .locked => holds ∧ Loaded files
  | .running pending => holds ∧ Runs files ledger pending
  | .ended ok => ok = true → UpToDate files ledger

/-- The ledger, and what the runners know of it. -/
structure Inv (files : ℕ → List Migration) (ledger₀ : Ledger) (s : State) : Prop where
  ledger : s.ledger = ledger₀ ++ s.executed.map receipt
  contiguous : s.ledger.map AppliedMigration.version = List.range' 1 s.ledger.length
  executed : ∀ m ∈ s.executed, ∃ p, m ∈ files p
  stage : ∀ p, StageOk (files p) s.ledger (s.holder = some p) (s.stage p)

theorem eq_of_version {files : List Migration} (h : Loaded files) {m m' : Migration} (hm : m ∈ files) (hm' : m' ∈ files)
    (heq : m.version = m'.version) : m = m' :=
  List.inj_on_of_nodup_map (h ▸ List.nodup_range') hm hm' heq

/-- What the check has passed is a beginning of the release, and the rest of it is pending. -/
theorem runs_pendingOf {files : List Migration} {ledger : Ledger} (hloaded : Loaded files)
    (hledger : ledger.map AppliedMigration.version = List.range' 1 ledger.length) (h : checkApplied files ledger = true) :
    Runs files ledger (pendingOf files ledger) := by
  have hagrees := agrees_of_checkApplied h
  have hle : ledger.length ≤ files.length := by
    have hsub : List.range' 1 ledger.length ⊆ List.range' 1 files.length := by
      rw [← hledger, ← hloaded]
      intro v hv
      obtain ⟨a, ha, rfl⟩ := List.mem_map.1 hv
      obtain ⟨m, hm, hma⟩ := hagrees a ha
      exact List.mem_map.2 ⟨m, hm, hma.1⟩
    simpa using (List.subperm_of_subset List.nodup_range' hsub).length_le
  have hversions : (pendingOf files ledger).map Migration.version = List.range' (1 + ledger.length) (files.length - ledger.length) := by
    have hcomp : (pendingOf files ledger).map Migration.version =
        (files.map Migration.version).filter fun v => v ∉ ledger.map AppliedMigration.version := by
      rw [List.filter_map]
      rfl
    rw [hcomp, hledger, hloaded, show files.length = ledger.length + (files.length - ledger.length) by omega,
      ← List.range'_append_1, List.filter_append, List.filter_eq_nil_iff.2, List.filter_eq_self.2]
    · simp
    · intro v hv
      simp only [List.mem_range'_1, decide_eq_true_eq] at hv ⊢
      omega
    · intro v hv
      simp only [decide_eq_true_eq, not_not]
      exact hv
  refine ⟨hloaded, hagrees, ?_, fun m hm => (List.mem_filter.1 hm).1, ?_⟩
  · have := congrArg List.length hversions
    simp only [List.length_map, List.length_range'] at this
    rw [hversions, this]
  · intro m hm
    by_cases hv : m.version ∈ ledger.map AppliedMigration.version
    · exact .inr hv
    · exact .inl (List.mem_filter.2 ⟨hm, by simpa using hv⟩)

/-- What a runner knows that does not hold the lock, stays true. -/
theorem StageOk.other {files : List Migration} {ledger : Ledger} {holds : Prop} {st : Stage}
    (h : StageOk files ledger holds st) (hnot : ¬holds) (more : Ledger) (holds' : Prop) :
    StageOk files (ledger ++ more) holds' st := by
  cases st with
  | waiting => exact h
  | locked | running => exact absurd h.1 hnot
  | ended ok =>
    intro hok m hm
    obtain ⟨a, ha, hma⟩ := h hok m hm
    exact ⟨a, List.mem_append_left _ ha, hma⟩

variable {files : ℕ → List Migration} {ledger₀ : Ledger} {s : State}

theorem Inv.endRunner (h : Inv files ledger₀ s) {p : ℕ} {ok : Bool} (hok : ok = true → UpToDate (files p) s.ledger) :
    Inv files ledger₀ (s.endRunner p ok) := by
  refine ⟨h.ledger, h.contiguous, h.executed, ?_⟩
  intro q
  have hq := h.stage q
  unfold State.endRunner
  dsimp only
  by_cases hqp : q = p
  · rw [hqp, Function.update_self]
    exact hok
  · rw [Function.update_of_ne hqp]
    split
    · next hp =>
      have := hq.other (by rw [hp]; simpa using Ne.symm hqp) [] (none = some q)
      rwa [List.append_nil] at this
    · exact hq

theorem Inv.fail (h : Inv files ledger₀ s) (p : ℕ) : Inv files ledger₀ (s.endRunner p false) :=
  h.endRunner (by simp)

/-- The transaction of a runner commits. -/
theorem Inv.commit (h : Inv files ledger₀ s) {p : ℕ} {m : Migration} {pending : List Migration} {ledger : Ledger}
    (hstage : s.stage p = .running (m :: pending)) (happly : applyMigration m s.ledger = some ledger) :
    Inv files ledger₀
      { s with ledger := ledger, executed := s.executed ++ [m], stage := Function.update s.stage p (.running pending) } := by
  have hp := h.stage p
  rw [hstage] at hp
  obtain ⟨hholds, hruns⟩ := hp
  have hversion : m.version = 1 + s.ledger.length ∧
      pending.map Migration.version = List.range' (1 + s.ledger.length + 1) pending.length := by
    simpa [List.range'_succ] using hruns.versions
  have hm : m ∈ files p := hruns.subset List.mem_cons_self
  have hnew : ∀ a ∈ s.ledger, a.version ≠ m.version := by
    intro a ha heq
    have := List.mem_map_of_mem (f := AppliedMigration.version) ha
    rw [h.contiguous, List.mem_range'_1] at this
    omega
  obtain rfl := applyMigration_new hnew happly
  refine ⟨by simp [h.ledger], ?_, ?_, ?_⟩
  · simp [h.contiguous, List.range'_concat, receipt, hversion.1]
  · intro m' hm'
    rcases List.mem_append.1 hm' with hm' | hm'
    · exact h.executed m' hm'
    · exact ⟨p, List.mem_singleton.1 hm' ▸ hm⟩
  · intro q
    dsimp only
    by_cases hqp : q = p
    · rw [hqp, Function.update_self]
      refine ⟨hholds, hruns.loaded, ?_, ?_, fun m' hm' => hruns.subset (List.mem_cons_of_mem _ hm'), ?_⟩
      · intro a ha
        rcases List.mem_append.1 ha with ha | ha
        · exact hruns.agrees a ha
        · rw [List.mem_singleton.1 ha]
          exact ⟨m, hm, rfl, rfl, fun c hc => (Option.mem_some.1 hc).symm⟩
      · rw [hversion.2, List.length_append]
        rfl
      · intro m' hm'
        rcases hruns.covers m' hm' with hpending | happlied
        · rcases List.mem_cons.1 hpending with rfl | hpending
          · exact .inr (by simp [receipt])
          · exact .inl hpending
        · exact .inr (by simpa using .inl (by simpa using happlied))
    · rw [Function.update_of_ne hqp]
      exact (h.stage q).other (by rw [hholds]; simpa using Ne.symm hqp) _ _

/-- **Every step keeps the ledger in order.** -/
theorem Inv.next (h : Inv files ledger₀ s) (e : Event) : Inv files ledger₀ (step files s e) := by
  cases e with
  | lock p =>
    dsimp only [step]
    split
    · next hstage hholder =>
      refine ⟨h.ledger, h.contiguous, h.executed, ?_⟩
      intro q
      have hq := h.stage q
      by_cases hqp : q = p
      · subst hqp
        rw [hstage] at hq
        simpa [StageOk] using hq
      · have := hq.other (by simp [hholder]) [] (some p = some q)
        simpa [Function.update_of_ne hqp] using this
    · exact h
  | read p fails =>
    dsimp only [step]
    split
    · next hstage =>
      split
      · next hcheck =>
        refine ⟨h.ledger, h.contiguous, h.executed, ?_⟩
        intro q
        have hq := h.stage q
        by_cases hqp : q = p
        · subst hqp
          rw [hstage] at hq
          simpa [StageOk] using ⟨hq.1, runs_pendingOf hq.2 h.contiguous hcheck.2⟩
        · simpa [Function.update_of_ne hqp] using hq
      · exact h.fail p
    · exact h
  | run p o =>
    dsimp only [step]
    split
    · next m pending hstage =>
      split
      · next happly => exact h.commit hstage happly
      · next happly =>
        have := (h.commit hstage happly).fail p
        simpa [State.endRunner] using this
      · exact h.fail p
    · exact h
  | finish p =>
    dsimp only [step]
    split
    · next hstage =>
      refine h.endRunner fun _ m hm => ?_
      have hp := h.stage p
      rw [hstage] at hp
      obtain ⟨a, ha, hversion⟩ := List.mem_map.1 ((hp.2.covers m hm).resolve_left List.not_mem_nil)
      obtain ⟨m', hm', hagrees⟩ := hp.2.agrees a ha
      obtain rfl := eq_of_version hp.2.loaded hm hm' (hversion.symm.trans hagrees.1.symm)
      exact ⟨a, ha, hagrees⟩
    · exact h
  | crash p =>
    dsimp only [step]
    split
    · exact h
    · exact h.fail p

theorem Inv.init (hcontiguous : ledger₀.map AppliedMigration.version = List.range' 1 ledger₀.length) :
    Inv files ledger₀ (init files ledger₀) := by
  refine ⟨by simp [Migrate.init], hcontiguous, by simp [Migrate.init], ?_⟩
  intro p
  unfold Migrate.init loadMigrations
  dsimp only
  by_cases hloaded : (files p).map Migration.version = List.range' 1 (files p).length
  · rw [if_pos hloaded]
    exact hloaded
  · rw [if_neg hloaded]
    exact fun h => absurd h (by decide)

/-- **Every migration is run once, and in order.**  Whatever releases the runners have, and wherever they fail or crash: to a ledger
in order, the runs add the receipts of what they commit, and it stays in order.  Each is a migration of some runner's release, and a
runner that ends well has every migration of its own in the ledger, under its name and with its checksum, or with none. -/
theorem migrations_once (files : ℕ → List Migration) (ledger₀ : Ledger)
    (hcontiguous : ledger₀.map AppliedMigration.version = List.range' 1 ledger₀.length) (events : List Event) :
    let s := events.foldl (step files) (init files ledger₀)
    s.ledger = ledger₀ ++ s.executed.map receipt ∧
      s.ledger.map AppliedMigration.version = List.range' 1 s.ledger.length ∧
      (∀ m ∈ s.executed, ∃ p, m ∈ files p) ∧
      ∀ p, s.stage p = .ended true → ∀ m ∈ files p, ∃ a ∈ s.ledger, Agrees m a := by
  have h : Inv files ledger₀ (events.foldl (step files) (init files ledger₀)) :=
    List.foldlRecOn events (step files) (Inv.init hcontiguous) fun s h e _ => h.next e
  refine ⟨h.ledger, h.contiguous, h.executed, ?_⟩
  intro p hp
  have hstage := h.stage p
  rw [hp] at hstage
  exact hstage rfl

/-- Two runners of one release; the first crashes after it has committed the first migration. -/
theorem migrations_once_crashed :
    ∃ files : ℕ → List Migration, ∃ events : List Event,
      let s := events.foldl (step files) (init files [])
      s.executed.map Migration.version = [1, 2] ∧ s.ledger.map AppliedMigration.version = [1, 2] ∧
        ∀ m ∈ files 1, ∃ a ∈ s.ledger, Agrees m a := by
  let release : List Migration :=
    [⟨1, "001_initial_schema", String.ofList (List.replicate 64 'a'), some "001_initial_schema"⟩,
      ⟨2, "002_ids", String.ofList (List.replicate 64 'b'), some "002_ids"⟩]
  let events : List Event :=
    [.lock 0, .lock 1, .read 0 false, .run 0 .unheard, .lock 1, .read 1 false, .run 1 .commits, .finish 1]
  refine ⟨fun _ => release, events, ?_, ?_, (migrations_once (fun _ => release) [] rfl events).2.2.2 1 ?_⟩ <;> decide +kernel

end LlmGateway.Storage.Migrate
