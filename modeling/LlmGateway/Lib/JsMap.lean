import Mathlib.Algebra.BigOperators.Group.List.Basic
import Mathlib.Algebra.Order.Group.Int
import Mathlib.Algebra.Ring.Int.Defs
import LlmGateway.Lib.Table

/-!
# Maps in insertion order

`JsMap κ ν` is the `Map` of the source language: a table of entries keyed by their first component.

* `get`, `set`, `delete` — an entry keeps its place when it is overwritten;
* `assign` — `Object.assign`, `agree` — the same keys with the same values, in any order;
* `Mirrors` — the map has the rows of a table under their keys, and `Mirrors.perm`: its values are the rows.
-/

namespace LlmGateway.Lib

/-- The entries of a map, in insertion order. -/
abbrev JsMap (κ ν : Type*) := Table (Prod.fst : κ × ν → κ)

namespace JsMap

variable {κ ν : Type*} [DecidableEq κ]

def get (m : JsMap κ ν) (k : κ) : Option ν := (Table.get m k).map Prod.snd

def set (m : JsMap κ ν) (k : κ) (v : ν) : JsMap κ ν := Table.set m (k, v)

def delete (m : JsMap κ ν) (k : κ) : JsMap κ ν := Table.delete m fun e => e.1 == k

@[simp] theorem get_empty (k : κ) : get (Table.empty : JsMap κ ν) k = none := rfl

theorem get_set (m : JsMap κ ν) (k j : κ) (v : ν) : (m.set k v).get j = if k = j then some v else m.get j := by
  rw [get, set, Table.get_set]
  split <;> rfl

theorem get_delete (m : JsMap κ ν) (k j : κ) : (m.delete k).get j = if k = j then none else m.get j := by
  rw [get, delete, Table.get_delete]
  cases h : Table.get m j with
  | none => simp [get, h]
  | some e =>
    have hk := Table.key_of_get h
    by_cases hj : k = j
    · simp [Option.filter, hk, hj]
    · simp [Option.filter, hk, hj, get, h, Ne.symm hj]

/-! ## Copies and comparisons -/

/-- Write the entries of `m'` into `m`, in their order. -/
def assign (m m' : JsMap κ ν) : JsMap κ ν := m'.rows.foldl (fun acc e => acc.set e.1 e.2) m

/-- The same keys with the same values. -/
def agree [DecidableEq ν] (m m' : JsMap κ ν) : Bool :=
  m.rows.all (fun e => m'.get e.1 = some e.2) && m'.rows.all fun e => m.get e.1 = some e.2

theorem get_eq_some_iff {m : JsMap κ ν} {k : κ} {v : ν} : m.get k = some v ↔ (k, v) ∈ m.rows := by
  rw [get, Option.map_eq_some_iff]
  constructor
  · rintro ⟨e, he, rfl⟩
    obtain ⟨hmem, rfl⟩ := Table.get_eq_some_iff.1 he
    exact hmem
  · intro h
    exact ⟨(k, v), Table.get_eq_some_iff.2 ⟨h, rfl⟩, rfl⟩

theorem get_of_mem {m : JsMap κ ν} {e : κ × ν} (h : e ∈ m.rows) : m.get e.1 = some e.2 := get_eq_some_iff.2 h

/-- Writing entries of different keys one after another. -/
theorem get_foldl_set (es : List (κ × ν)) (hes : (es.map Prod.fst).Nodup) (m : JsMap κ ν) (k : κ) :
    (es.foldl (fun acc e => acc.set e.1 e.2) m).get k =
      ((es.find? fun e => e.1 == k).map Prod.snd).or (m.get k) := by
  induction es generalizing m with
  | nil => rfl
  | cons e es ih =>
    rw [List.map_cons, List.nodup_cons] at hes
    rw [List.foldl_cons, ih hes.2, get_set, List.find?_cons]
    by_cases hk : e.1 = k
    · have hnone : es.find? (fun x => x.1 == k) = none := by
        rw [List.find?_eq_none]
        intro x hx hxk
        exact hes.1 (List.mem_map.2 ⟨x, hx, (beq_iff_eq.1 hxk).trans hk.symm⟩)
      simp [hk, hnone]
    · simp [hk, beq_eq_false_iff_ne.2 hk]

theorem get_assign (m m' : JsMap κ ν) (k : κ) : (m.assign m').get k = (m'.get k).or (m.get k) :=
  get_foldl_set m'.rows m'.nodup m k

/-- Writing entries whose keys are new appends them. -/
theorem rows_foldl_set (es : List (κ × ν)) (m : JsMap κ ν) (h : ((m.rows ++ es).map Prod.fst).Nodup) :
    (es.foldl (fun acc e => acc.set e.1 e.2) m).rows = m.rows ++ es := by
  induction es generalizing m with
  | nil => simp
  | cons e es ih =>
    have hnone : Table.get m e.1 = none := by
      rw [Table.get_eq_none_iff]
      intro x hx hxe
      rw [List.map_append, List.nodup_append] at h
      exact h.2.2 _ (List.mem_map_of_mem hx) _ (List.mem_map_of_mem List.mem_cons_self) hxe
    have hrows : (m.set e.1 e.2).rows = m.rows ++ [e] := by
      obtain ⟨m', hm'⟩ := Table.insert_eq_some_of_get (r := e) hnone
      have hset : m.set e.1 e.2 = m' := by
        simp [set, Table.set, hnone, Table.insertOrIgnore, hm']
      rw [hset, Table.rows_insert hm']
    rw [List.foldl_cons, ih, hrows, List.append_assoc, List.singleton_append]
    rwa [hrows, List.append_assoc, List.singleton_append]

theorem assign_empty (m : JsMap κ ν) : assign Table.empty m = m := by
  have hrows : (assign Table.empty m).rows = m.rows := rows_foldl_set m.rows Table.empty m.nodup
  cases hm : assign Table.empty m with
  | mk rows nodup =>
    rw [hm] at hrows
    cases m
    simp only at hrows
    subst hrows
    rfl

/-- A loop that writes entries of different keys, and stops at the first that it refuses. -/
theorem foldlM_eq_foldl {f : JsMap κ ν → κ × ν → Option (JsMap κ ν)} (es : List (κ × ν)) (m : JsMap κ ν)
    (hes : (es.map Prod.fst).Nodup) (hm : ∀ e ∈ es, m.get e.1 = none)
    (hf : ∀ m e, e ∈ es → m.get e.1 = none → f m e = some (m.set e.1 e.2)) :
    es.foldlM f m = some (es.foldl (fun acc e => acc.set e.1 e.2) m) := by
  induction es generalizing m with
  | nil => rfl
  | cons e es ih =>
    rw [List.map_cons, List.nodup_cons] at hes
    rw [List.foldlM_cons, hf m e List.mem_cons_self (hm e List.mem_cons_self)]
    refine ih (m.set e.1 e.2) hes.2 (fun x hx => ?_) fun m x hx => hf m x (List.mem_cons_of_mem e hx)
    rw [get_set, if_neg, hm x (List.mem_cons_of_mem e hx)]
    intro he
    exact hes.1 (he ▸ List.mem_map_of_mem hx)

/-- A loop that accepts every entry of a map copies it. -/
theorem foldlM_eq_self {f : JsMap κ ν → κ × ν → Option (JsMap κ ν)} (m : JsMap κ ν)
    (hf : ∀ acc e, m.get e.1 = some e.2 → acc.get e.1 = none → f acc e = some (acc.set e.1 e.2)) :
    m.rows.foldlM f Table.empty = some m := by
  rw [foldlM_eq_foldl m.rows Table.empty m.nodup (fun _ _ => get_empty _) fun acc e he => hf acc e (get_of_mem he)]
  exact congrArg some (assign_empty m)

theorem set_eq_self {m : JsMap κ ν} {k : κ} {v : ν} (h : m.get k = some v) : m.set k v = m := by
  have hmem := get_eq_some_iff.1 h
  have hget : Table.get m (Prod.fst (k, v)) = some (k, v) := Table.get_of_mem hmem
  have hrows : (m.rows.map fun x => if x.1 = k then (k, v) else x) = m.rows := by
    conv_rhs => rw [← List.map_id m.rows]
    refine List.map_congr_left fun x hx => ?_
    split
    · rename_i hx'
      exact (List.inj_on_of_nodup_map m.nodup hx hmem hx').symm
    · rfl
  unfold set Table.set
  rw [if_pos (by rw [hget]; rfl)]
  cases m
  simpa using hrows

/-! ## Loops over the values -/

section Values

omit [DecidableEq κ]

def values (m : JsMap κ ν) : List ν := m.rows.map Prod.snd

/-- Rewrite the values satisfying `p`. -/
def updateWhere (m : JsMap κ ν) (p : ν → Bool) (f : ν → ν) : JsMap κ ν :=
  Table.update m (fun e => p e.2) (fun e => (e.1, f e.2)) fun _ => rfl

/-- Remove the entries whose value satisfies `p`. -/
def deleteWhere (m : JsMap κ ν) (p : ν → Bool) : JsMap κ ν := Table.delete m fun e => p e.2

def countWhere (m : JsMap κ ν) (p : ν → Bool) : ℕ := m.values.countP p

end Values

theorem get_updateWhere (m : JsMap κ ν) (p : ν → Bool) (f : ν → ν) (k : κ) :
    (m.updateWhere p f).get k = (m.get k).map fun v => if p v then f v else v := by
  rw [get, updateWhere, Table.get_update, get]
  cases Table.get m k with
  | none => rfl
  | some e =>
    simp only [Option.map_some]
    split <;> rfl

theorem get_deleteWhere (m : JsMap κ ν) (p : ν → Bool) (k : κ) :
    (m.deleteWhere p).get k = (m.get k).filter fun v => !p v := by
  rw [get, deleteWhere, Table.get_delete, get]
  cases Table.get m k with
  | none => rfl
  | some e => cases h : p e.2 <;> simp [Option.filter, h]

theorem mem_values {m : JsMap κ ν} {v : ν} : v ∈ m.values ↔ ∃ k, m.get k = some v := by
  rw [values, List.mem_map]
  constructor
  · rintro ⟨e, he, rfl⟩
    exact ⟨e.1, by rw [get, Table.get_of_mem he]; rfl⟩
  · rintro ⟨k, hk⟩
    obtain ⟨e, he, rfl⟩ := Option.map_eq_some_iff.1 hk
    exact ⟨e, Table.mem_of_get he, rfl⟩

/-- The map has the rows of the table under their keys. -/
def Mirrors {key : ν → κ} (m : JsMap κ ν) (t : Table key) : Prop := ∀ k, m.get k = Table.get t k

section Mirrors

variable {key : ν → κ} {m : JsMap κ ν} {t : Table key}

/-- The values of a mirror are the rows. -/
theorem Mirrors.perm (h : m.Mirrors t) : m.values.Perm t.rows := by
  have hvalues : m.values.Nodup := by
    refine (List.nodup_map_iff_inj_on (List.Nodup.of_map _ m.nodup)).2 fun a ha b hb hab => ?_
    have hkey : ∀ e ∈ m.rows, key e.2 = e.1 := by
      intro e he
      have hget : m.get e.1 = some e.2 := by rw [get, Table.get_of_mem he]; rfl
      rw [h] at hget
      exact Table.key_of_get hget
    exact Prod.ext (by rw [← hkey a ha, ← hkey b hb, hab]) hab
  refine (List.perm_ext_iff_of_nodup hvalues (List.Nodup.of_map _ t.nodup)).2 fun v => ?_
  rw [mem_values]
  constructor
  · rintro ⟨k, hk⟩
    rw [h] at hk
    exact Table.mem_of_get hk
  · intro hv
    exact ⟨key v, by rw [h, Table.get_of_mem hv]⟩

theorem Mirrors.countWhere (h : m.Mirrors t) (p : ν → Bool) : m.countWhere p = t.count p := h.perm.countP_eq p

end Mirrors

/-! ## Maps of counters -/

/-- The sum of the values. -/
def total (m : JsMap κ ℤ) : ℤ := (m.rows.map Prod.snd).sum

/-- Taking the entries of one key out of a list of entries takes their values out of the sum. -/
theorem sum_filter_ne (es : List (κ × ℤ)) (hes : (es.map Prod.fst).Nodup) (k : κ) :
    ((es.filter fun e => !(e.1 == k)).map Prod.snd).sum =
      (es.map Prod.snd).sum - ((es.find? fun e => e.1 == k).map Prod.snd).getD 0 := by
  induction es with
  | nil => rfl
  | cons e es ih =>
    rw [List.map_cons, List.nodup_cons] at hes
    by_cases hk : e.1 = k
    · have hrest : es.filter (fun e => !(e.1 == k)) = es := by
        rw [List.filter_eq_self]
        intro x hx
        have : x.1 ≠ k := fun h => hes.1 (List.mem_map.2 ⟨x, hx, h.trans hk.symm⟩)
        simpa using this
      simp [hk, hrest]
    · simp [hk, ih hes.2]
      omega

theorem total_delete (m : JsMap κ ℤ) (k : κ) : (m.delete k).total = m.total - (m.get k).getD 0 :=
  sum_filter_ne m.rows m.nodup k

/-- Overwriting the entries of one key, in a list of entries that has one. -/
theorem sum_overwrite (es : List (κ × ℤ)) (hes : (es.map Prod.fst).Nodup) (k : κ) (v : ℤ)
    (hk : k ∈ es.map Prod.fst) :
    ((es.map fun e => if e.1 = k then (k, v) else e).map Prod.snd).sum =
      (es.map Prod.snd).sum - ((es.find? fun e => e.1 == k).map Prod.snd).getD 0 + v := by
  induction es with
  | nil => simp at hk
  | cons e es ih =>
    rw [List.map_cons, List.nodup_cons] at hes
    by_cases he : e.1 = k
    · have hrest : es.map (fun e => if e.1 = k then (k, v) else e) = es := by
        conv_rhs => rw [← List.map_id es]
        refine List.map_congr_left fun x hx => ?_
        have : x.1 ≠ k := fun h => hes.1 (List.mem_map.2 ⟨x, hx, h.trans he.symm⟩)
        simp [this]
      simp only [List.map_cons, List.sum_cons, hrest, he, if_true, List.find?_cons, beq_self_eq_true,
        Option.map_some, Option.getD_some]
      omega
    · have hk' : k ∈ es.map Prod.fst := by
        rcases List.mem_cons.1 hk with h | h
        · exact absurd h.symm he
        · exact h
      have := ih hes.2 hk'
      simp only [List.map_cons, List.sum_cons, he, if_false, this]
      rw [List.find?_cons_of_neg (by simpa using he)]
      omega

theorem total_set (m : JsMap κ ℤ) (k : κ) (v : ℤ) : (m.set k v).total = m.total - (m.get k).getD 0 + v := by
  unfold set Table.set
  split
  · rename_i h
    obtain ⟨e, he⟩ := Option.isSome_iff_exists.1 h
    exact sum_overwrite m.rows m.nodup k v
      (List.mem_map.2 ⟨e, Table.mem_of_get he, Table.key_of_get he⟩)
  · rename_i h
    have hnone : Table.get m k = none := by simpa using h
    obtain ⟨m', hm'⟩ := Table.insert_eq_some_of_get (r := (k, v)) hnone
    simp [Table.insertOrIgnore, hm', total, Table.rows_insert hm', get, hnone]

/-- Count one more under `k`. -/
def increment (m : JsMap κ ℤ) (k : κ) : JsMap κ ℤ := m.set k ((m.get k).getD 0 + 1)

/-- Count one less under `k`; the entry goes when nothing is left. -/
def decrement (m : JsMap κ ℤ) (k : κ) : JsMap κ ℤ :=
  let n := (m.get k).getD 1 - 1
  if n ≤ 0 then m.delete k else m.set k n

/-- The map holds the positive numbers among the `f k`. -/
def Counts (m : JsMap κ ℤ) (f : κ → ℕ) : Prop := ∀ k, m.get k = if f k = 0 then none else some (f k : ℤ)

section Counts

variable {m : JsMap κ ℤ} {f g : κ → ℕ} {k : κ}

theorem Counts.getD (h : m.Counts f) (k : κ) : (m.get k).getD 0 = f k := by
  rw [h k]
  split <;> simp_all

theorem Counts.get_of_pos (h : m.Counts f) (hk : 0 < f k) : m.get k = some (f k : ℤ) := by
  rw [h k, if_neg (by omega)]

theorem Counts.increment (h : m.Counts f) (hk : g k = f k + 1) (hne : ∀ j, k ≠ j → g j = f j) :
    (m.increment k).Counts g := by
  intro j
  rw [JsMap.increment, get_set, h.getD]
  by_cases hj : k = j
  · subst hj
    rw [if_pos rfl, if_neg (by omega), hk]
    push_cast
    rfl
  · rw [if_neg hj, hne j hj, h j]

theorem Counts.decrement (h : m.Counts f) (hk : f k = g k + 1) (hne : ∀ j, k ≠ j → g j = f j) :
    (m.decrement k).Counts g := by
  intro j
  have hn : (f k : ℤ) - 1 = g k := by omega
  simp only [JsMap.decrement, h.get_of_pos (show 0 < f k by omega), Option.getD_some, hn]
  by_cases hj : k = j
  · subst hj
    split
    · rw [get_delete, if_pos rfl, if_pos (by omega)]
    · rw [get_set, if_pos rfl, if_neg (by omega)]
  · rw [hne j hj, ← h j]
    split
    · rw [get_delete, if_neg hj]
    · rw [get_set, if_neg hj]

theorem total_increment (m : JsMap κ ℤ) (k : κ) : (m.increment k).total = m.total + 1 := by
  rw [increment, total_set]
  omega

theorem Counts.total_decrement (h : m.Counts f) (hk : 0 < f k) : (m.decrement k).total = m.total - 1 := by
  simp only [JsMap.decrement, h.get_of_pos hk, Option.getD_some]
  split
  · rw [total_delete, h.get_of_pos hk, Option.getD_some]
    omega
  · rw [total_set, h.get_of_pos hk, Option.getD_some]
    omega

end Counts

end JsMap

end LlmGateway.Lib
