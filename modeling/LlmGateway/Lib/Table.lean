import Mathlib.Tactic.Common
import Mathlib.Data.List.Nodup
import Mathlib.Data.List.Perm.Basic

/-!
# Tables with a primary key

A `Table key` is a list of rows no two of which have the same `key`: the duplicate-free key list is a field, so a
table that breaks its primary key cannot be built.

* `insert`, `insertOrIgnore`, `set` — the three ways of adding a row: refused, ignored or replacing on a conflict;
* `update p f hf`, `delete p` — a guarded statement over every row, `count p` being its number of affected rows;
* `get_*` — each operation, read through `get`.  Proofs about a table go through these and never unfold an operation.
-/

namespace LlmGateway.Lib

/-- In a list of pairs with different keys, a pair is found under its key. -/
theorem find_of_nodup {κ ν : Type*} [BEq κ] [LawfulBEq κ] {es : List (κ × ν)} (h : (es.map Prod.fst).Nodup) {k : κ} {v : ν}
    (he : (k, v) ∈ es) : (es.find? fun e => e.1 == k) = some (k, v) := by
  induction es with
  | nil => cases he
  | cons e es ih =>
    rw [List.map_cons, List.nodup_cons] at h
    rcases List.mem_cons.1 he with rfl | he
    · exact List.find?_cons_of_pos (beq_iff_eq.2 rfl)
    · have hne : e.1 ≠ k := by
        rintro rfl
        exact h.1 (List.mem_map.2 ⟨_, he, rfl⟩)
      rw [List.find?_cons_of_neg (by simpa using hne)]
      exact ih h.2 he

/-- A list of rows with pairwise different keys. -/
structure Table {κ ρ : Type*} (key : ρ → κ) where
  rows : List ρ
  nodup : (rows.map key).Nodup

namespace Table

variable {κ ρ : Type*} {key : ρ → κ}

/-- The empty table. -/
def empty : Table key := ⟨[], List.nodup_nil⟩

/-- The number of rows a statement guarded by `p` affects. -/
def count (t : Table key) (p : ρ → Bool) : ℕ := t.rows.countP p

/-- The rows satisfying `p`. -/
def select (t : Table key) (p : ρ → Bool) : List ρ := t.rows.filter p

/-- Rewrite the rows satisfying `p` by a function that keeps their key. -/
def update (t : Table key) (p : ρ → Bool) (f : ρ → ρ) (hf : ∀ r, key (f r) = key r) : Table key where
  rows := t.rows.map fun r => if p r then f r else r
  nodup := by
    have h : (key ∘ fun r => if p r then f r else r) = key := by
      funext r
      simp only [Function.comp]
      split <;> simp [hf]
    rw [List.map_map, h]
    exact t.nodup

/-- Remove the rows satisfying `p`. -/
def delete (t : Table key) (p : ρ → Bool) : Table key where
  rows := t.rows.filter fun r => !p r
  nodup := t.nodup.sublist (List.filter_sublist.map key)

variable [DecidableEq κ]

/-- The row with key `k`. -/
def get (t : Table key) (k : κ) : Option ρ := t.rows.find? fun r => key r == k

/-- Append a row, refusing a key that is taken. -/
def insert (t : Table key) (r : ρ) : Option (Table key) :=
  if h : key r ∈ t.rows.map key then none
  else some ⟨t.rows ++ [r], by
    rw [List.map_append, List.map_singleton, ← List.concat_eq_append]
    exact List.Nodup.concat h t.nodup⟩

/-- Append a row unless its key is taken. -/
def insertOrIgnore (t : Table key) (r : ρ) : Table key := (t.insert r).getD t

/-- Put a row under its key, in place of the row that has it. -/
def set (t : Table key) (r : ρ) : Table key :=
  if (t.get (key r)).isSome then
    { rows := t.rows.map fun x => if key x = key r then r else x
      nodup := by
        have h : (key ∘ fun x => if key x = key r then r else x) = key := by
          funext x
          simp only [Function.comp]
          split <;> simp_all
        rw [List.map_map, h]
        exact t.nodup }
  else t.insertOrIgnore r

/-! ## Rows and keys -/

section Get

variable {t : Table key} {k : κ} {r : ρ}

theorem get_eq_none_iff : t.get k = none ↔ ∀ r ∈ t.rows, key r ≠ k := by
  simp [get, List.find?_eq_none]

theorem mem_of_get (h : t.get k = some r) : r ∈ t.rows := List.mem_of_find?_eq_some h

theorem key_of_get (h : t.get k = some r) : key r = k := by
  have := List.find?_some h
  simpa using this

/-- A row of the table is the one found under its key: no other row has that key. -/
theorem get_of_mem (h : r ∈ t.rows) : t.get (key r) = some r := by
  rcases hg : t.get (key r) with _ | x
  · exact absurd rfl (get_eq_none_iff.1 hg r h)
  · exact congrArg some (List.inj_on_of_nodup_map t.nodup (mem_of_get hg) h (key_of_get hg))

theorem get_eq_some_iff : t.get k = some r ↔ r ∈ t.rows ∧ key r = k :=
  ⟨fun h => ⟨mem_of_get h, key_of_get h⟩, fun ⟨h, e⟩ => e ▸ get_of_mem h⟩

@[simp] theorem get_empty : (empty : Table key).get k = none := rfl

theorem get_update {p : ρ → Bool} {f : ρ → ρ} {hf : ∀ r, key (f r) = key r} :
    (t.update p f hf).get k = (t.get k).map fun r => if p r then f r else r := by
  have hkey : ∀ r, key (if p r then f r else r) = key r := by
    intro r
    split <;> simp [hf]
  cases h : t.get k with
  | none =>
    rw [get_eq_none_iff] at h
    simp only [Option.map_none, get_eq_none_iff]
    intro x hx
    obtain ⟨r, hr, rfl⟩ := List.mem_map.1 hx
    rw [hkey]
    exact h r hr
  | some r =>
    obtain ⟨hr, hk⟩ := get_eq_some_iff.1 h
    exact get_eq_some_iff.2 ⟨List.mem_map.2 ⟨r, hr, rfl⟩, by rw [hkey, hk]⟩

omit [DecidableEq κ] in
/-- A statement that affects no row changes nothing. -/
theorem update_eq_self {p : ρ → Bool} {f : ρ → ρ} (hf : ∀ r, key (f r) = key r) (h : ∀ r ∈ t.rows, p r = false) :
    t.update p f hf = t := by
  obtain ⟨rows, nodup⟩ := t
  have hrows : (rows.map fun r => if p r then f r else r) = rows := by
    rw [List.map_congr_left (g := id) fun r hr => by simp [h r hr], List.map_id]
  simp only [update, hrows]

theorem get_delete {p : ρ → Bool} : (t.delete p).get k = (t.get k).filter fun r => !p r := by
  cases h : t.get k with
  | none =>
    rw [get_eq_none_iff] at h
    simp only [Option.filter_none, get_eq_none_iff]
    exact fun x hx => h x (List.mem_of_mem_filter hx)
  | some r =>
    obtain ⟨hr, hk⟩ := get_eq_some_iff.1 h
    cases hp : p r with
    | true =>
      have hnone : (t.delete p).get k = none := by
        rw [get_eq_none_iff]
        intro x hx hxk
        obtain ⟨hx1, hx2⟩ := List.mem_filter.1 hx
        obtain rfl : x = r := Option.some.inj ((hxk ▸ get_of_mem hx1).symm.trans h)
        simp [hp] at hx2
      simp [Option.filter, hp, hnone]
    | false =>
      have hsome : (t.delete p).get k = some r :=
        get_eq_some_iff.2 ⟨List.mem_filter.2 ⟨hr, by simp [hp]⟩, hk⟩
      simp [Option.filter, hp, hsome]

theorem insert_eq_none_iff : t.insert r = none ↔ (t.get (key r)).isSome := by
  unfold insert
  split
  · rename_i h
    obtain ⟨x, hx, hk⟩ := List.mem_map.1 h
    simp [← hk, get_of_mem hx]
  · rename_i h
    have : t.get (key r) = none := get_eq_none_iff.2 fun x hx hk => h (List.mem_map.2 ⟨x, hx, hk⟩)
    simp [this]

theorem insert_eq_some_of_get (h : t.get (key r) = none) : ∃ t', t.insert r = some t' := by
  cases ht : t.insert r with
  | some t' => exact ⟨t', rfl⟩
  | none => simp [insert_eq_none_iff, h] at ht

theorem rows_insert {t' : Table key} (h : t.insert r = some t') : t'.rows = t.rows ++ [r] := by
  unfold insert at h
  split at h
  · cases h
  · cases h; rfl

theorem get_of_insert {t' : Table key} (h : t.insert r = some t') : t.get (key r) = none := by
  cases hg : t.get (key r) with
  | none => rfl
  | some x =>
    have := insert_eq_none_iff.2 (show (t.get (key r)).isSome by simp [hg])
    rw [h] at this
    cases this

theorem get_insert {t' : Table key} (h : t.insert r = some t') (k : κ) :
    t'.get k = if key r = k then some r else t.get k := by
  have hrows := rows_insert h
  have hnone := get_of_insert h
  unfold get at hnone ⊢
  rw [hrows, List.find?_append]
  by_cases hk : key r = k
  · subst hk
    simp [hnone]
  · simp [hk]

theorem get_insertOrIgnore (k : κ) :
    (t.insertOrIgnore r).get k = if key r = k then some ((t.get k).getD r) else t.get k := by
  unfold insertOrIgnore
  cases h : t.insert r with
  | some t' =>
    have hnone := get_of_insert h
    rw [Option.getD_some, get_insert h]
    by_cases hk : key r = k
    · subst hk; simp [hnone]
    · simp [hk]
  | none =>
    obtain ⟨x, hx⟩ := Option.isSome_iff_exists.1 (insert_eq_none_iff.1 h)
    rw [Option.getD_none]
    by_cases hk : key r = k
    · subst hk; simp [hx]
    · simp [hk]

theorem get_set (k : κ) : (t.set r).get k = if key r = k then some r else t.get k := by
  unfold set
  split
  · rename_i h
    obtain ⟨x, hx⟩ := Option.isSome_iff_exists.1 h
    obtain ⟨hx1, hx2⟩ := get_eq_some_iff.1 hx
    by_cases hk : key r = k
    · subst hk
      rw [if_pos rfl, get_eq_some_iff]
      exact ⟨List.mem_map.2 ⟨x, hx1, by simp [hx2]⟩, rfl⟩
    · rw [if_neg hk]
      cases hg : t.get k with
      | none =>
        rw [get_eq_none_iff] at hg ⊢
        intro y hy
        obtain ⟨z, hz, rfl⟩ := List.mem_map.1 hy
        split
        · exact hk
        · exact hg z hz
      | some y =>
        obtain ⟨hy1, hy2⟩ := get_eq_some_iff.1 hg
        have hne : key y ≠ key r := fun e => hk (e.symm.trans hy2)
        exact get_eq_some_iff.2 ⟨List.mem_map.2 ⟨y, hy1, by simp [hne]⟩, hy2⟩
  · rename_i h
    have hnone : t.get (key r) = none := by simpa using h
    rw [get_insertOrIgnore]
    by_cases hk : key r = k
    · subst hk; simp [hnone]
    · simp [hk]

end Get

/-! ## Counting and selecting -/

section Count

variable {t : Table key} {k : κ}

theorem mem_select {p : ρ → Bool} {r : ρ} : r ∈ t.select p ↔ t.get (key r) = some r ∧ p r = true := by
  rw [select, List.mem_filter, get_eq_some_iff]
  simp

/-- An EXISTS on a key is about the row with that key. -/
theorem any_key (q : ρ → Bool) : (t.rows.any fun r => key r == k && q r) = (t.get k).any q := by
  rw [Bool.eq_iff_iff, List.any_eq_true]
  constructor
  · rintro ⟨r, hr, h⟩
    simp only [Bool.and_eq_true, beq_iff_eq] at h
    rw [get_eq_some_iff.2 ⟨hr, h.1⟩]
    exact h.2
  · intro h
    obtain ⟨r, hr, hq⟩ := (Option.any_eq_true _ _).1 h
    obtain ⟨hmem, hk⟩ := get_eq_some_iff.1 hr
    exact ⟨r, hmem, by simp [hk, hq]⟩

/-- A statement guarded by a key affects the row with that key, or none. -/
theorem count_key (q : ρ → Bool) :
    t.count (fun r => key r == k && q r) = if (t.get k).any q then 1 else 0 := by
  have hle : t.count (fun r => key r == k && q r) ≤ 1 := by
    have h1 : t.count (fun r => key r == k && q r) ≤ t.count (fun r => key r == k) :=
      List.countP_mono_left fun r _ h => by simp_all
    have h2 : t.count (fun r => key r == k) = (t.rows.map key).count k := by
      rw [List.count, List.countP_map]; rfl
    have h3 := List.nodup_iff_count_le_one.1 t.nodup k
    omega
  cases hg : t.get k with
  | none =>
    rw [get_eq_none_iff] at hg
    simp only [Option.any_none, Bool.false_eq_true, if_false, count, List.countP_eq_zero]
    intro r hr
    simp [hg r hr]
  | some r =>
    obtain ⟨hr, hk⟩ := get_eq_some_iff.1 hg
    simp only [Option.any_some]
    split
    · rename_i hq
      have : 0 < t.count (fun r => key r == k && q r) :=
        List.countP_pos_iff.2 ⟨r, hr, by simp [hk, hq]⟩
      omega
    · rename_i hq
      rw [count, List.countP_eq_zero]
      intro x hx h
      simp only [Bool.and_eq_true, beq_iff_eq] at h
      obtain rfl : x = r := Option.some.inj ((h.1 ▸ get_of_mem hx).symm.trans hg)
      exact hq h.2

omit [DecidableEq κ] in
theorem nodup_select_keys (p : ρ → Bool) : ((t.select p).map key).Nodup :=
  t.nodup.sublist (List.filter_sublist.map key)

end Count

end Table

end LlmGateway.Lib
