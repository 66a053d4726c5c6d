import LlmGateway.Lib.JsMap

/-!
# Counting the values of a map

What `set` and `delete` make of the number of entries of a map, and of the number of its values with a property.
-/

namespace LlmGateway.Lib.JsMap

variable {κ ν : Type*} [DecidableEq κ] {m : JsMap κ ν} {k : κ} {v w : ν} {p : ν → Bool}

def size (m : JsMap κ ν) : ℕ := m.rows.length

/-- The place of an entry. -/
theorem rows_split (h : m.get k = some w) :
    ∃ a b, m.rows = a ++ (k, w) :: b ∧ (∀ v, (m.set k v).rows = a ++ (k, v) :: b) ∧ (m.delete k).rows = a ++ b := by
  obtain ⟨a, b, hrows⟩ := List.append_of_mem (get_eq_some_iff.1 h)
  have hnodup := m.nodup
  rw [hrows, List.map_append, List.map_cons, List.nodup_append, List.nodup_cons] at hnodup
  obtain ⟨-, ⟨hb, -⟩, hab⟩ := hnodup
  have ha : ∀ x ∈ a, x.1 ≠ k := fun x hx => hab x.1 (List.mem_map_of_mem hx) k List.mem_cons_self
  have hb : ∀ x ∈ b, x.1 ≠ k := by
    rintro x hx rfl
    exact hb (List.mem_map.2 ⟨x, hx, rfl⟩)
  refine ⟨a, b, hrows, fun v => ?_, ?_⟩
  · have hsome : (Table.get m k).isSome = true := by
      have hget := h
      unfold get at hget
      obtain ⟨x, hx, -⟩ := Option.map_eq_some_iff.1 hget
      rw [hx]
      rfl
    have hkeep : ∀ l : List (κ × ν), (∀ x ∈ l, x.1 ≠ k) → l.map (fun x => if x.1 = k then (k, v) else x) = l := by
      intro l hl
      conv_rhs => rw [← List.map_id l]
      apply List.map_congr_left
      intro x hx
      exact if_neg (hl x hx)
    unfold set Table.set
    rw [if_pos hsome]
    change m.rows.map (fun x => if x.1 = k then (k, v) else x) = _
    rw [hrows, List.map_append, List.map_cons, hkeep a ha, hkeep b hb, if_pos rfl]
  · have hkeep : ∀ l : List (κ × ν), (∀ x ∈ l, x.1 ≠ k) → l.filter (fun x => !(x.1 == k)) = l := by
      intro l hl
      rw [List.filter_eq_self]
      intro x hx
      simpa using hl x hx
    change m.rows.filter (fun x => !(x.1 == k)) = _
    rw [hrows, List.filter_append, List.filter_cons, hkeep a ha, hkeep b hb]
    simp

theorem rows_set_of_none (h : m.get k = none) (v : ν) : (m.set k v).rows = m.rows ++ [(k, v)] := by
  have hnone : Table.get m (Prod.fst (k, v)) = none := by
    unfold get at h
    exact Option.map_eq_none_iff.1 h
  obtain ⟨m', hm'⟩ := Table.insert_eq_some_of_get hnone
  have hset : m.set k v = m' := by
    unfold set Table.set
    rw [hnone]
    simp [Table.insertOrIgnore, hm']
  rw [hset, Table.rows_insert hm']

/-! ## The number of entries -/

theorem size_set_of_none (h : m.get k = none) (v : ν) : (m.set k v).size = m.size + 1 := by
  unfold size
  rw [rows_set_of_none h, List.length_append, List.length_singleton]

theorem size_delete (h : m.get k = some w) : (m.delete k).size + 1 = m.size := by
  obtain ⟨a, b, hrows, -, hdelete⟩ := rows_split h
  unfold size
  rw [hrows, hdelete]
  simp only [List.length_append, List.length_cons]
  omega

theorem rows_delete_of_none (h : m.get k = none) : (m.delete k).rows = m.rows := by
  change m.rows.filter (fun x => !(x.1 == k)) = m.rows
  rw [List.filter_eq_self]
  intro x hx
  have hne : x.1 ≠ k := by
    rintro rfl
    rw [get_of_mem hx] at h
    cases h
  simpa using hne

/-! ## The number of values with a property -/

/-- `m'` is `m` with what stands under one key replaced. -/
structure Moved (m m' : JsMap κ ν) (k : κ) (new : Option ν) : Prop where
  get : ∀ j, m'.get j = if k = j then new else m.get j
  count : ∀ p : ν → Bool,
    m'.countWhere p + (if (m.get k).any p then 1 else 0) = m.countWhere p + if new.any p then 1 else 0

theorem moved_set (m : JsMap κ ν) (k : κ) (v : ν) : Moved m (m.set k v) k (some v) where
  get := fun j => get_set m k j v
  count := by
    intro p
    unfold countWhere values
    cases h : m.get k with
    | none =>
      rw [rows_set_of_none h, List.map_append, List.countP_append]
      simp [List.countP_cons]
    | some w =>
      obtain ⟨a, b, hrows, hset, -⟩ := rows_split h
      rw [hrows, hset]
      simp only [List.map_append, List.map_cons, List.countP_append, List.countP_cons, Option.any_some]
      omega

theorem moved_delete (m : JsMap κ ν) (k : κ) : Moved m (m.delete k) k none where
  get := fun j => get_delete m k j
  count := by
    intro p
    unfold countWhere values
    cases h : m.get k with
    | none =>
      rw [rows_delete_of_none h]
    | some w =>
      obtain ⟨a, b, hrows, -, hdelete⟩ := rows_split h
      rw [hrows, hdelete]
      simp [List.countP_cons, Nat.add_assoc]

theorem countWhere_pos (h : m.get k = some v) (hp : p v = true) : 0 < m.countWhere p := by
  unfold countWhere
  rw [List.countP_pos_iff]
  exact ⟨v, mem_values.2 ⟨k, h⟩, hp⟩

theorem countWhere_eq_zero (h : ∀ k v, m.get k = some v → p v = false) : m.countWhere p = 0 := by
  unfold countWhere
  rw [List.countP_eq_zero]
  intro v hv
  obtain ⟨k, hk⟩ := mem_values.1 hv
  simp [h k v hk]

end LlmGateway.Lib.JsMap
