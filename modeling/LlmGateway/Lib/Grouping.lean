import Mathlib.Data.List.Induction
import LlmGateway.Lib.JsMap

/-!
# Values by key

Lists of values in a map, each under the key of its entry, in the order in which the entries come.

* `push`, `collect` — one entry more, or none;
* `get_foldl_collect` — after a loop a key has the values of its entries, and no key without a value;
* `tabulate` — the map of what is made of each entry, and `get_tabulate`.
-/

namespace LlmGateway.Lib.JsMap

variable {κ ν μ ρ : Type*} [DecidableEq κ]

/-- Append to the list of the key. -/
def push (m : JsMap κ (List ν)) (k : κ) (v : ν) : JsMap κ (List ν) := m.set k ((m.get k).getD [] ++ [v])

/-- Append an entry, if there is one. -/
def collect (m : JsMap κ (List ν)) : Option (κ × ν) → JsMap κ (List ν)
  | none => m
  | some (k, v) => m.push k v

/-- The value of an entry of the key. -/
def valueAt (k : κ) (e : Option (κ × ν)) : Option ν := (e.filter fun e => e.1 = k).map Prod.snd

theorem valueAt_eq_some_iff {k : κ} {e : Option (κ × ν)} {v : ν} : valueAt k e = some v ↔ e = some (k, v) := by
  cases e with
  | none => simp [valueAt]
  | some e =>
    obtain ⟨j, w⟩ := e
    by_cases h : j = k
    · simp [valueAt, Option.filter, h]
    · simp [valueAt, Option.filter, h]

/-- A list that is stored only when it is not empty. -/
def ifAny (vs : List ν) : Option (List ν) := if vs = [] then none else some vs

theorem ifAny_append {vs : List ν} (v : ν) : ifAny (vs ++ [v]) = some (vs ++ [v]) := if_neg (by simp)

theorem getD_ifAny (vs : List ν) : (ifAny vs).getD [] = vs := by
  unfold ifAny
  split
  · rename_i h
    exact h.symm
  · rfl

/-- **After the loop a key has the values of its entries**, in their order. -/
theorem get_foldl_collect (sample : ρ → Option (κ × ν)) (rows : List ρ) (k : κ) :
    (rows.foldl (fun m row => collect m (sample row)) (Table.empty : JsMap κ (List ν))).get k =
      ifAny (rows.filterMap fun row => valueAt k (sample row)) := by
  induction rows using List.reverseRecOn with
  | nil => rfl
  | append_singleton rows row ih =>
    rw [List.foldl_append, List.filterMap_append]
    simp only [List.foldl_cons, List.foldl_nil]
    cases hs : sample row with
    | none => simpa [collect, hs, valueAt] using ih
    | some e =>
      obtain ⟨j, v⟩ := e
      rw [collect, push, get_set]
      by_cases hj : j = k
      · subst hj
        have hv : [row].filterMap (fun row => valueAt j (sample row)) = [v] := by
          simp [hs, valueAt, Option.filter]
        rw [if_pos rfl, ih, getD_ifAny, hv, ifAny_append]
      · have hv : [row].filterMap (fun row => valueAt k (sample row)) = [] := by
          simp [hs, valueAt, Option.filter, hj]
        rw [if_neg hj, ih, hv, List.append_nil]

/-- A map of what `f` makes of each entry. -/
def tabulate (f : κ → ν → μ) (m : JsMap κ ν) : JsMap κ μ :=
  m.rows.foldl (fun acc e => JsMap.set acc e.1 (f e.1 e.2)) Table.empty

theorem get_tabulate (f : κ → ν → μ) (m : JsMap κ ν) (k : κ) : (tabulate f m).get k = (m.get k).map (f k) := by
  have hfold : tabulate f m =
      (m.rows.map fun e => (e.1, f e.1 e.2)).foldl (fun (acc : JsMap κ μ) e => acc.set e.1 e.2) Table.empty := by
    rw [tabulate, List.foldl_map]
  have hkeys : ((m.rows.map fun e => (e.1, f e.1 e.2)).map Prod.fst).Nodup := by
    rw [List.map_map]
    exact m.nodup
  rw [hfold, get_foldl_set _ hkeys, get_empty, Option.or_none, List.find?_map]
  have hcomp : ((fun e : κ × μ => e.1 == k) ∘ fun e : κ × ν => (e.1, f e.1 e.2)) = fun e => e.1 == k := rfl
  rw [hcomp, get, Table.get]
  cases he : m.rows.find? fun e => e.1 == k with
  | none => rfl
  | some e =>
    have hk : e.1 = k := by simpa using List.find?_some he
    simp [hk]

end LlmGateway.Lib.JsMap
