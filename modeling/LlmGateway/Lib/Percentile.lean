import Mathlib.Algebra.Order.Floor.Ring
import Mathlib.Data.Rat.Floor
import Mathlib.Tactic.Linarith

/-!
# Percentiles

`percentile l q` interpolates linearly between the entries of an ascending list: at `q = 0` it is the first, at `q = 1` the last.

* `percentile_mem` — it lies between two entries of the list, and so between its least and its greatest.
-/

namespace LlmGateway.Lib

/-- The entry at an index, 0 beyond the end. -/
def entryAt (l : List ℚ) (i : ℤ) : ℚ := (l[i.toNat]?).getD 0

def percentile (sortedAsc : List ℚ) (q : ℚ) : ℚ :=
  match sortedAsc with
  | [] => 0
  | [a] => a
  | _ =>
    let idx : ℚ := ((sortedAsc.length : ℚ) - 1) * q
    let lo := ⌊idx⌋
    let hi := ⌈idx⌉
    let loVal := entryAt sortedAsc lo
    let hiVal := entryAt sortedAsc hi
    if lo = hi then loVal else loVal + (hiVal - loVal) * (idx - lo)

variable {l : List ℚ} {q q' : ℚ}

/-- The interpolation of a list that is not empty. -/
def interpolate (l : List ℚ) (x : ℚ) : ℚ := entryAt l ⌊x⌋ + (entryAt l ⌈x⌉ - entryAt l ⌊x⌋) * Int.fract x

theorem percentile_eq (hl : l ≠ []) (q : ℚ) : percentile l q = interpolate l (((l.length : ℚ) - 1) * q) := by
  unfold percentile interpolate
  split
  · exact absurd rfl hl
  · rename_i a
    simp [entryAt]
  · dsimp only
    split
    · rename_i h
      rw [← h]
      ring
    · rfl

theorem entryAt_mem {i : ℤ} (h0 : 0 ≤ i) (hi : i < l.length) : entryAt l i ∈ l := by
  have hlt : i.toNat < l.length := by omega
  unfold entryAt
  rw [List.getElem?_eq_getElem hlt]
  exact List.getElem_mem hlt

theorem entryAt_mono (hl : l.Pairwise (· ≤ ·)) {i j : ℤ} (h0 : 0 ≤ i) (hij : i ≤ j) (hj : j < l.length) :
    entryAt l i ≤ entryAt l j := by
  have hi' : i.toNat < l.length := by omega
  have hj' : j.toNat < l.length := by omega
  unfold entryAt
  rw [List.getElem?_eq_getElem hi', List.getElem?_eq_getElem hj']
  rcases Nat.lt_or_ge i.toNat j.toNat with hlt | hge
  · exact List.pairwise_iff_getElem.1 hl _ _ hi' hj' hlt
  · have heq : i.toNat = j.toNat := by omega
    simp [heq]

/-- The points between the first index and the last. -/
def Within (l : List ℚ) (x : ℚ) : Prop := 0 ≤ x ∧ x ≤ (l.length : ℚ) - 1

theorem Within.floor {x : ℚ} (h : Within l x) : 0 ≤ ⌊x⌋ ∧ ⌊x⌋ ≤ ⌈x⌉ ∧ ⌈x⌉ < l.length := by
  refine ⟨Int.floor_nonneg.2 h.1, Int.floor_le_ceil x, ?_⟩
  have hle : ⌈x⌉ ≤ (l.length : ℤ) - 1 := Int.ceil_le.2 (by exact_mod_cast h.2)
  omega

theorem interpolate_mem (hl : l.Pairwise (· ≤ ·)) {x : ℚ} (h : Within l x) :
    entryAt l ⌊x⌋ ≤ interpolate l x ∧ interpolate l x ≤ entryAt l ⌈x⌉ := by
  obtain ⟨h0, hle, hlt⟩ := h.floor
  have hstep := entryAt_mono hl h0 hle hlt
  have hfract := Int.fract_nonneg x
  have hone := (Int.fract_lt_one x).le
  unfold interpolate
  constructor
  · have := mul_nonneg (sub_nonneg.2 hstep) hfract
    linarith
  · have := mul_le_mul_of_nonneg_left hone (sub_nonneg.2 hstep)
    linarith

theorem interpolate_mono (hl : l.Pairwise (· ≤ ·)) {x y : ℚ} (hx : Within l x) (hy : Within l y) (hxy : x ≤ y) :
    interpolate l x ≤ interpolate l y := by
  obtain ⟨hx0, hxle, hxlt⟩ := hx.floor
  obtain ⟨hy0, hyle, hylt⟩ := hy.floor
  have hfloor := Int.floor_le_floor hxy
  rcases le_or_gt ⌈x⌉ ⌊y⌋ with hapart | htogether
  · -- an entry lies between the two points
    have hmid := entryAt_mono hl (hx0.trans hxle) hapart (by omega)
    exact (interpolate_mem hl hx).2.trans (hmid.trans (interpolate_mem hl hy).1)
  · -- both points lie between the same two entries
    have hceil : ⌈x⌉ ≤ ⌊x⌋ + 1 := Int.ceil_le_floor_add_one x
    have hsame : ⌊y⌋ = ⌊x⌋ := by omega
    have hceilMono := Int.ceil_le_ceil hxy
    have hceilY : ⌈y⌉ ≤ ⌊y⌋ + 1 := Int.ceil_le_floor_add_one y
    have hsameCeil : ⌈y⌉ = ⌈x⌉ := by omega
    have hfract : Int.fract x ≤ Int.fract y := by
      unfold Int.fract
      rw [hsame]
      linarith
    have hstep := entryAt_mono hl hx0 hxle hxlt
    have := mul_le_mul_of_nonneg_left hfract (sub_nonneg.2 hstep)
    unfold interpolate
    rw [hsame, hsameCeil]
    linarith

theorem within_of_mem_unit (hl : l ≠ []) (h0 : 0 ≤ q) (h1 : q ≤ 1) : Within l (((l.length : ℚ) - 1) * q) := by
  have hlen : (1 : ℚ) ≤ l.length := by exact_mod_cast List.length_pos_of_ne_nil hl
  have hnonneg : (0 : ℚ) ≤ (l.length : ℚ) - 1 := by linarith
  exact ⟨mul_nonneg hnonneg h0, by nlinarith⟩

/-- **A percentile lies between two entries.** -/
theorem percentile_mem (hl : l.Pairwise (· ≤ ·)) (hne : l ≠ []) (h0 : 0 ≤ q) (h1 : q ≤ 1) :
    ∃ lo ∈ l, ∃ hi ∈ l, lo ≤ percentile l q ∧ percentile l q ≤ hi := by
  have hw := within_of_mem_unit hne h0 h1
  obtain ⟨hlo, hle, hlt⟩ := hw.floor
  obtain ⟨hge, hub⟩ := interpolate_mem hl hw
  rw [percentile_eq hne]
  exact ⟨_, entryAt_mem hlo (by omega), _, entryAt_mem (hlo.trans hle) hlt, hge, hub⟩

/-- **A higher percentile is no less.** -/
theorem percentile_mono (hl : l.Pairwise (· ≤ ·)) (hne : l ≠ []) (h0 : 0 ≤ q) (hq : q ≤ q') (h1 : q' ≤ 1) :
    percentile l q ≤ percentile l q' := by
  rw [percentile_eq hne, percentile_eq hne]
  have hlen : (1 : ℚ) ≤ l.length := by exact_mod_cast List.length_pos_of_ne_nil hne
  apply interpolate_mono hl (within_of_mem_unit hne h0 (hq.trans h1)) (within_of_mem_unit hne (h0.trans hq) h1)
  exact mul_le_mul_of_nonneg_left hq (by linarith)

end LlmGateway.Lib
