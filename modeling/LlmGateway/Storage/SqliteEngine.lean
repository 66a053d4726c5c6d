import Mathlib.Tactic.Common
import Mathlib.Data.Nat.Notation

/-!
# Statements on a SQLite connection

What the engine makes of a statement that a job runs on a connection to a file.

* `Writes` — what a transaction has written, with its savepoints;
* `Db.exec` — the engine: in a transaction, outside one, and when the statement fails;
* `Within` — the statement neither ends the transaction with a COMMIT nor writes outside one.

A write carries the number of the job that made it.
-/

namespace LlmGateway.Storage.Sqlite

variable {α ω : Type*}

/-! ## Writes and savepoints -/

/-- What was written, and what had been written at each savepoint. -/
structure Writes (α : Type*) where
  written : List α
  marks : List (String × List α)

namespace Writes

variable (x : Writes α)

def empty : Writes α := ⟨[], []⟩

def add (a : α) : Writes α := { x with written := x.written ++ [a] }

def mark (name : String) : Writes α := { x with marks := (name, x.written) :: x.marks }

/-- RELEASE: the savepoint goes, and those after it. -/
def release (name : String) : Option (Writes α) :=
  match x.marks.dropWhile fun m => m.1 ≠ name with
  | [] => none
  | _ :: ms => some { x with marks := ms }

/-- ROLLBACK TO: the savepoint stays. -/
def rollbackTo (name : String) : Option (Writes α) :=
  match x.marks.dropWhile fun m => m.1 ≠ name with
  | [] => none
  | m :: ms => some ⟨m.2, m :: ms⟩

/-- Every write is `p`, those at the savepoints included. -/
def All (p : α → Prop) : Prop := (∀ a ∈ x.written, p a) ∧ ∀ m ∈ x.marks, ∀ a ∈ m.2, p a

variable {x} {p : α → Prop}

theorem All.empty : (empty : Writes α).All p := by
  constructor
  · intro a ha
    cases ha
  · intro m hm
    cases hm

theorem All.add (h : x.All p) {a : α} (ha : p a) : (x.add a).All p := by
  refine ⟨fun b hb => ?_, h.2⟩
  rcases List.mem_append.1 hb with hb | hb
  · exact h.1 b hb
  · rw [List.mem_singleton.1 hb]
    exact ha

theorem All.mark (h : x.All p) (name : String) : (x.mark name).All p := by
  refine ⟨h.1, fun m hm => ?_⟩
  rcases List.mem_cons.1 hm with rfl | hm
  · exact h.1
  · exact h.2 m hm

/-- The savepoints that `release` and `rollbackTo` keep are savepoints of before. -/
theorem mem_of_dropWhile {q : String × List α → Bool} {m : String × List α} {ms : List (String × List α)}
    (h : x.marks.dropWhile q = m :: ms) : ∀ k ∈ m :: ms, k ∈ x.marks := by
  intro k hk
  rw [← h] at hk
  exact (List.dropWhile_sublist _).subset hk

theorem All.release (h : x.All p) {name : String} {y : Writes α} (hy : x.release name = some y) : y.All p := by
  unfold Writes.release at hy
  split at hy
  · cases hy
  · next m ms hms =>
    cases hy
    exact ⟨h.1, fun k hk => h.2 k (mem_of_dropWhile hms k (List.mem_cons_of_mem _ hk))⟩

theorem All.rollbackTo (h : x.All p) {name : String} {y : Writes α} (hy : x.rollbackTo name = some y) : y.All p := by
  unfold Writes.rollbackTo at hy
  split at hy
  · cases hy
  · next m ms hms =>
    cases hy
    exact ⟨h.2 m (mem_of_dropWhile hms m List.mem_cons_self), fun k hk => h.2 k (mem_of_dropWhile hms k hk)⟩

end Writes

/-! ## The engine -/

inductive Statement (ω : Type*) where
  | read
  | write (w : ω)
  | BEGIN
  | COMMIT
  | ROLLBACK
  | SAVEPOINT (name : String)
  | RELEASE (name : String)
  | ROLLBACK_TO (name : String)

/-- `isTransactionControl`. -/
def Statement.control : Statement ω → Bool
  | .read => false
  | .write _ => false
  | _ => true

/-- What becomes of a statement: it is run, it fails, or it fails and SQLite rolls the transaction back (a full disk, an I/O
error). -/
inductive Outcome where
  | ok
  | fails
  | rollsBack
deriving DecidableEq

/-- A transaction in progress: the job whose statement began it, and whether that was a SAVEPOINT. -/
structure OpenTx (ω : Type*) where
  owner : ℕ
  implicit : Bool
  writes : Writes (ℕ × ω)

/-- A connection and the file behind it. -/
structure Db (ω : Type*) where
  tx : Option (OpenTx ω)
  durable : List (ℕ × ω)

namespace Db

variable (x : Db ω)

def commit (t : OpenTx ω) : Db ω := { tx := none, durable := x.durable ++ t.writes.written }

/-- A statement of the job `j` that the engine runs, and its answer. -/
def run (j : ℕ) (s : Statement ω) : Db ω × Bool :=
  match x.tx, s with
  | _, .read => (x, true)
  | none, .write w => ({ x with durable := x.durable ++ [(j, w)] }, true)
  | none, .BEGIN => ({ x with tx := some ⟨j, false, .empty⟩ }, true)
  | none, .SAVEPOINT name => ({ x with tx := some ⟨j, true, Writes.empty.mark name⟩ }, true)
  -- no transaction is active
  | none, _ => (x, false)
  -- cannot start a transaction within a transaction
  | some _, .BEGIN => (x, false)
  | some t, .write w => ({ x with tx := some { t with writes := t.writes.add (j, w) } }, true)
  | some t, .COMMIT => (x.commit t, true)
  | some _, .ROLLBACK => ({ x with tx := none }, true)
  | some t, .SAVEPOINT name => ({ x with tx := some { t with writes := t.writes.mark name } }, true)
  | some t, .RELEASE name =>
    match t.writes.release name with
    | none => (x, false)
    -- the outermost savepoint of a transaction that a SAVEPOINT began
    | some y => if t.implicit && y.marks.isEmpty then (x.commit t, true)
      else ({ x with tx := some { t with writes := y } }, true)
  | some t, .ROLLBACK_TO name =>
    match t.writes.rollbackTo name with
    | none => (x, false)
    | some y => ({ x with tx := some { t with writes := y } }, true)

def exec (j : ℕ) (o : Outcome) (s : Statement ω) : Db ω × Bool :=
  match o with
  | .ok => x.run j s
  | .fails => (x, false)
  | .rollsBack => ({ x with tx := none }, false)

end Db

/-- The writes of a body, by the answers it gets: what it has written and has not itself rolled back. -/
def Writes.note (x : Writes (ℕ × ω)) (j : ℕ) (s : Statement ω) (answer : Bool) : Writes (ℕ × ω) :=
  if answer then
    match s with
    | .write w => x.add (j, w)
    | .SAVEPOINT name => x.mark name
    | .RELEASE name => (x.release name).getD x
    | .ROLLBACK_TO name => (x.rollbackTo name).getD x
    | .ROLLBACK => .empty
    | .COMMIT => { x with marks := [] }
    | _ => x
  else x

/-- The statement does not end the transaction in progress with a COMMIT, and outside a transaction it neither writes nor
begins one. -/
def Within (x : Db ω) (o : Outcome) : Statement ω → Prop
  | .COMMIT => o = .ok → x.tx = none
  | .write _ => o = .ok → x.tx ≠ none
  | .BEGIN => o = .ok → x.tx ≠ none
  | .SAVEPOINT _ => o = .ok → x.tx ≠ none
  | _ => True

/-! ## What a statement does -/

section Spec

variable {x : Db ω} {j : ℕ} {o : Outcome} {s : Statement ω} {p : ℕ × ω → Prop}

theorem Writes.All.note {y : Writes (ℕ × ω)} (h : y.All p) (hp : ∀ w, p (j, w)) (answer : Bool) :
    (y.note j s answer).All p := by
  unfold Writes.note
  split
  · split
    · exact h.add (hp _)
    · exact h.mark _
    · next name =>
      cases hy : y.release name with
      | none => exact h
      | some z => exact h.release hy
    · next name =>
      cases hy : y.rollbackTo name with
      | none => exact h
      | some z => exact h.rollbackTo hy
    · exact All.empty
    · refine ⟨h.1, fun m hm => ?_⟩
      cases hm
    · exact h
  · exact h

/-- What becomes durable was in the transaction in progress or is the job's, and so is what the next one has written. -/
theorem Db.run_all (h : ∀ t, x.tx = some t → t.writes.All p) (hp : ∀ w, p (j, w)) :
    (∃ ws, (x.run j s).1.durable = x.durable ++ ws ∧ ∀ w ∈ ws, p w) ∧
      ∀ t, (x.run j s).1.tx = some t → t.writes.All p := by
  have hsame : ∃ ws, x.durable = x.durable ++ ws ∧ ∀ w ∈ ws, p w := ⟨[], by simp, by simp⟩
  have hcommit : ∀ t, x.tx = some t → (∃ ws, (x.commit t).durable = x.durable ++ ws ∧ ∀ w ∈ ws, p w) ∧
      ∀ t', (x.commit t).tx = some t' → t'.writes.All p := by
    intro t ht
    refine ⟨⟨_, rfl, (h t ht).1⟩, fun t' ht' => ?_⟩
    cases ht'
  have hopen : ∀ t' : OpenTx ω, t'.writes.All p → (∃ ws, x.durable = x.durable ++ ws ∧ ∀ w ∈ ws, p w) ∧
      ∀ t, some t' = some t → t.writes.All p := by
    intro t' ht'
    refine ⟨hsame, fun t ht => ?_⟩
    cases ht
    exact ht'
  unfold Db.run
  split
  · exact ⟨hsame, h⟩
  · next w htx =>
    refine ⟨⟨[(j, w)], rfl, fun v hv => ?_⟩, h⟩
    rw [List.mem_singleton.1 hv]
    exact hp w
  · exact hopen _ Writes.All.empty
  · exact hopen _ (Writes.All.empty.mark _)
  · exact ⟨hsame, h⟩
  · exact ⟨hsame, h⟩
  · next t w htx => exact hopen _ ((h t htx).add (hp w))
  · next t htx => exact hcommit t htx
  · refine ⟨hsame, fun t ht => ?_⟩
    cases ht
  · next t name htx => exact hopen _ ((h t htx).mark name)
  · next t name htx =>
    split
    · exact ⟨hsame, h⟩
    · next y hy =>
      split
      · exact hcommit t htx
      · exact hopen _ ((h t htx).release hy)
  · next t name htx =>
    split
    · exact ⟨hsame, h⟩
    · next y hy => exact hopen _ ((h t htx).rollbackTo hy)

theorem Db.exec_all (h : ∀ t, x.tx = some t → t.writes.All p) (hp : ∀ w, p (j, w)) :
    (∃ ws, (x.exec j o s).1.durable = x.durable ++ ws ∧ ∀ w ∈ ws, p w) ∧
      ∀ t, (x.exec j o s).1.tx = some t → t.writes.All p := by
  cases o with
  | ok => exact Db.run_all h hp
  | fails => exact ⟨⟨[], by simp [Db.exec], by simp⟩, h⟩
  | rollsBack =>
    refine ⟨⟨[], by simp [Db.exec], by simp⟩, fun t ht => ?_⟩
    cases ht

/-- A transaction in progress is of the job that runs the statement, or was there before. -/
theorem Db.exec_owner {t : OpenTx ω} (ht : (x.exec j o s).1.tx = some t) :
    t.owner = j ∨ ∃ t', x.tx = some t' ∧ t'.owner = t.owner := by
  have hsame : ∀ {t' : OpenTx ω}, x.tx = some t' → t'.owner = t.owner → t.owner = j ∨ ∃ t', x.tx = some t' ∧ t'.owner = t.owner :=
    fun htx ho => Or.inr ⟨_, htx, ho⟩
  cases o with
  | fails => exact hsame ht rfl
  | rollsBack => cases ht
  | ok =>
    change (x.run j s).1.tx = some t at ht
    unfold Db.run at ht
    split at ht
    · exact hsame ht rfl
    · exact hsame ht rfl
    · cases ht
      exact Or.inl rfl
    · cases ht
      exact Or.inl rfl
    · exact hsame ht rfl
    · exact hsame ht rfl
    · next t' w htx =>
      cases ht
      exact hsame htx rfl
    · cases ht
    · cases ht
    · next t' name htx =>
      cases ht
      exact hsame htx rfl
    · next t' name htx =>
      split at ht
      · exact hsame ht rfl
      · split at ht
        · cases ht
        · cases ht
          exact hsame htx rfl
    · next t' name htx =>
      split at ht
      · exact hsame ht rfl
      · cases ht
        exact hsame htx rfl

/-- The transaction of the job `j`, which a BEGIN began and whose writes are `y`, or none in progress. -/
def Db.Owned (x : Db ω) (j : ℕ) (y : Writes (ℕ × ω)) : Prop :=
  ∀ t, x.tx = some t → t.owner = j ∧ t.implicit = false ∧ t.writes = y

/-- **A statement within the transaction** makes nothing durable, and the transaction holds what the body has written. -/
theorem Db.owned_exec {y : Writes (ℕ × ω)} (h : x.Owned j y) (hw : Within x o s) :
    (x.exec j o s).1.durable = x.durable ∧ (x.exec j o s).1.Owned j (y.note j s (x.exec j o s).2) := by
  have hsome : ∀ t, x.tx = some t → t.owner = j ∧ t.implicit = false ∧ t.writes = y := h
  cases o with
  | fails => exact ⟨rfl, h⟩
  | rollsBack =>
    refine ⟨rfl, fun t ht => ?_⟩
    cases ht
  | ok =>
    change (x.run j s).1.durable = x.durable ∧ (x.run j s).1.Owned j (y.note j s (x.run j s).2)
    unfold Db.run
    split
    · exact ⟨rfl, h⟩
    · next htx => exact absurd htx (hw rfl)
    · next htx => exact absurd htx (hw rfl)
    · next htx => exact absurd htx (hw rfl)
    · exact ⟨rfl, h⟩
    · exact ⟨rfl, h⟩
    · next t w htx =>
      obtain ⟨ho, hi, hy⟩ := hsome t htx
      refine ⟨rfl, fun t' ht' => ?_⟩
      cases ht'
      exact ⟨ho, hi, by rw [hy]; rfl⟩
    · next t htx =>
      have hnone : x.tx = none := hw rfl
      rw [htx] at hnone
      cases hnone
    · refine ⟨rfl, fun t' ht' => ?_⟩
      cases ht'
    · next t name htx =>
      obtain ⟨ho, hi, hy⟩ := hsome t htx
      refine ⟨rfl, fun t' ht' => ?_⟩
      cases ht'
      exact ⟨ho, hi, by rw [hy]; rfl⟩
    · next t name htx =>
      obtain ⟨ho, hi, hy⟩ := hsome t htx
      split
      · exact ⟨rfl, h⟩
      · next z hz =>
        rw [if_neg (by simp [hi])]
        refine ⟨rfl, fun t' ht' => ?_⟩
        cases ht'
        refine ⟨ho, hi, ?_⟩
        rw [hy] at hz
        simp [Writes.note, hz]
    · next t name htx =>
      obtain ⟨ho, hi, hy⟩ := hsome t htx
      split
      · exact ⟨rfl, h⟩
      · next z hz =>
        refine ⟨rfl, fun t' ht' => ?_⟩
        cases ht'
        refine ⟨ho, hi, ?_⟩
        rw [hy] at hz
        simp [Writes.note, hz]

/-- A COMMIT within a transaction does not succeed. -/
theorem Db.not_commit_of_within (hw : Within x o .COMMIT) : (x.exec j o .COMMIT).2 = false := by
  cases o with
  | fails => rfl
  | rollsBack => rfl
  | ok =>
    have hnone : x.tx = none := hw rfl
    simp [Db.exec, Db.run, hnone]

/-- A COMMIT that succeeds makes the writes of the transaction durable and ends it. -/
theorem Db.exec_commit (h : (x.exec j o .COMMIT).2 = true) :
    ∃ t, x.tx = some t ∧ (x.exec j o .COMMIT).1 = x.commit t := by
  cases o with
  | fails => cases h
  | rollsBack => cases h
  | ok =>
    cases htx : x.tx with
    | none => simp [Db.exec, Db.run, htx] at h
    | some t => exact ⟨t, rfl, by simp [Db.exec, Db.run, htx]⟩

/-- A COMMIT that does not succeed changes nothing, or the transaction is gone. -/
theorem Db.exec_commit_failed (h : (x.exec j o .COMMIT).2 = false) :
    (x.exec j o .COMMIT).1 = x ∨ (x.exec j o .COMMIT).1 = { x with tx := none } := by
  cases o with
  | fails => exact Or.inl rfl
  | rollsBack => exact Or.inr rfl
  | ok =>
    cases htx : x.tx with
    | none => exact Or.inl (by simp [Db.exec, Db.run, htx])
    | some t => simp [Db.exec, Db.run, htx] at h

/-- A BEGIN that succeeds was outside a transaction. -/
theorem Db.exec_begin (h : (x.exec j o .BEGIN).2 = true) :
    (x.exec j o .BEGIN).1 = { x with tx := some ⟨j, false, .empty⟩ } := by
  cases o with
  | fails => cases h
  | rollsBack => cases h
  | ok =>
    cases htx : x.tx with
    | none => simp [Db.exec, Db.run, htx]
    | some t => simp [Db.exec, Db.run, htx] at h

/-- A BEGIN that does not succeed changes nothing, or the transaction is gone. -/
theorem Db.exec_begin_failed (h : (x.exec j o .BEGIN).2 = false) :
    (x.exec j o .BEGIN).1 = x ∨ (x.exec j o .BEGIN).1 = { x with tx := none } := by
  cases o with
  | fails => exact Or.inl rfl
  | rollsBack => exact Or.inr rfl
  | ok =>
    cases htx : x.tx with
    | none => simp [Db.exec, Db.run, htx] at h
    | some t => exact Or.inl (by simp [Db.exec, Db.run, htx])

/-- A ROLLBACK makes nothing durable; and the transaction is gone unless the statement fails. -/
theorem Db.exec_rollback : (x.exec j o .ROLLBACK).1.durable = x.durable ∧
    ((x.exec j o .ROLLBACK).1 = x ∨ (x.exec j o .ROLLBACK).1.tx = none) ∧
    (o ≠ .fails → (x.exec j o .ROLLBACK).1.tx = none) := by
  cases o with
  | fails => exact ⟨rfl, Or.inl rfl, fun h => absurd rfl h⟩
  | rollsBack => exact ⟨rfl, Or.inr rfl, fun _ => rfl⟩
  | ok =>
    cases htx : x.tx with
    | none | some t => simp [Db.exec, Db.run, htx]

end Spec

end LlmGateway.Storage.Sqlite
