import Mathlib.Tactic.Linarith
import Mathlib.Tactic.Positivity
import Mathlib.Tactic.Ring
import LlmGateway.Router.Pricing

/-!
# What a cost may be

`composeCost` over all counts and estimates: when a cost is not negative, in which counts it grows, and how the two conventions
for the input are one figure. A cache read is a part of the input where the input is the whole prompt or the family is
inclusive, and a cache write where the input is the whole prompt: the formula subtracts them and does not look whether they are.
-/

namespace LlmGateway.Router

open LlmGateway.Lib Utf16

/-- Rates that a vendor may publish: none is negative, and a cached token costs no more than a fresh one. -/
structure ModelCost.Published (m : ModelCost) : Prop where
  input : 0 ≤ m.inputUsdPerMTok
  output : 0 ≤ m.outputUsdPerMTok
  cacheWrite : 0 ≤ m.cacheWriteUsdPerMTok
  multiplier : 0 ≤ m.cacheReadMultiplier
  discount : m.cacheReadMultiplier ≤ 1

/-! ### The formula -/

section Total

variable {m : ModelCost} {i o r w t : ℚ}

theorem total_inclusive (hmode : m.accountingMode = .inclusive) (b : Bool) :
    composeTotalUsd i o r w t m b =
      ((i - r) * m.inputUsdPerMTok + r * (m.inputUsdPerMTok * m.cacheReadMultiplier) + w * m.cacheWriteUsdPerMTok +
        (o + t) * m.outputUsdPerMTok) / 1000000 := by
  unfold composeTotalUsd
  rw [hmode]
  simp only [reduceCtorEq, if_false]
  ring

theorem total_fresh (hmode : m.accountingMode = .disjoint) :
    composeTotalUsd i o r w t m false =
      (i * m.inputUsdPerMTok + r * (m.inputUsdPerMTok * m.cacheReadMultiplier) + w * m.cacheWriteUsdPerMTok +
        (o + t) * m.outputUsdPerMTok) / 1000000 := by
  unfold composeTotalUsd
  rw [hmode]
  simp only [if_true, Bool.false_eq_true, if_false]
  ring

/-- The whole prompt is the fresh tokens and the two cache parts. -/
theorem total_whole (hmode : m.accountingMode = .disjoint) :
    composeTotalUsd i o r w t m true = composeTotalUsd (i - r - w) o r w t m false := by
  unfold composeTotalUsd
  rw [hmode]
  simp

/-- The four parts of a bill, none of which is negative. -/
theorem bill_nonneg (hm : m.Published) (hi : 0 ≤ i) (hr : 0 ≤ r) (hw : 0 ≤ w) (ho : 0 ≤ o) (ht : 0 ≤ t) :
    0 ≤ (i * m.inputUsdPerMTok + r * (m.inputUsdPerMTok * m.cacheReadMultiplier) + w * m.cacheWriteUsdPerMTok +
        (o + t) * m.outputUsdPerMTok) / 1000000 := by
  have hfresh := mul_nonneg hi hm.input
  have hread := mul_nonneg hr (mul_nonneg hm.input hm.multiplier)
  have hwrite := mul_nonneg hw hm.cacheWrite
  have hout := mul_nonneg (add_nonneg ho ht) hm.output
  apply div_nonneg _ (by norm_num)
  linarith

theorem total_inclusive_nonneg (hm : m.Published) (hmode : m.accountingMode = .inclusive) (hri : r ≤ i) (hr : 0 ≤ r)
    (hw : 0 ≤ w) (ho : 0 ≤ o) (ht : 0 ≤ t) (b : Bool) : 0 ≤ composeTotalUsd i o r w t m b := by
  rw [total_inclusive hmode]
  exact bill_nonneg hm (sub_nonneg.2 hri) hr hw ho ht

theorem total_fresh_nonneg (hm : m.Published) (hmode : m.accountingMode = .disjoint) (hi : 0 ≤ i) (hr : 0 ≤ r)
    (hw : 0 ≤ w) (ho : 0 ≤ o) (ht : 0 ≤ t) : 0 ≤ composeTotalUsd i o r w t m false := by
  rw [total_fresh hmode]
  exact bill_nonneg hm hi hr hw ho ht

variable {i' o' w' : ℚ}

theorem total_inclusive_mono (hm : m.Published) (hmode : m.accountingMode = .inclusive) (hi : i ≤ i') (hw : w ≤ w')
    (ho : o ≤ o') (b : Bool) : composeTotalUsd i o r w t m b ≤ composeTotalUsd i' o' r w' t m b := by
  have hin := mul_le_mul_of_nonneg_right (sub_le_sub_right hi r) hm.input
  have hwrite := mul_le_mul_of_nonneg_right hw hm.cacheWrite
  have hout := mul_le_mul_of_nonneg_right (add_le_add_left ho t) hm.output
  rw [total_inclusive hmode, total_inclusive hmode]
  gcongr ?_ / _
  linarith

theorem total_fresh_mono (hm : m.Published) (hmode : m.accountingMode = .disjoint) (hi : i ≤ i') (hw : w ≤ w')
    (ho : o ≤ o') : composeTotalUsd i o r w t m false ≤ composeTotalUsd i' o' r w' t m false := by
  have hin := mul_le_mul_of_nonneg_right hi hm.input
  have hwrite := mul_le_mul_of_nonneg_right hw hm.cacheWrite
  have hout := mul_le_mul_of_nonneg_right (add_le_add_left ho t) hm.output
  rw [total_fresh hmode, total_fresh hmode]
  gcongr ?_ / _
  linarith

/-- A token of the whole prompt that is written to the cache is no fresh token: the cost grows by the difference of the rates. -/
theorem total_whole_mono (hm : m.Published) (hmode : m.accountingMode = .disjoint) (hi : i ≤ i') (hw : w ≤ w') (ho : o ≤ o')
    (hrate : w = w' ∨ m.inputUsdPerMTok ≤ m.cacheWriteUsdPerMTok) :
    composeTotalUsd i o r w t m true ≤ composeTotalUsd i' o' r w' t m true := by
  have hin := mul_le_mul_of_nonneg_right hi hm.input
  have hout := mul_le_mul_of_nonneg_right (add_le_add_left ho t) hm.output
  have hcache : w * (m.cacheWriteUsdPerMTok - m.inputUsdPerMTok) ≤ w' * (m.cacheWriteUsdPerMTok - m.inputUsdPerMTok) := by
    rcases hrate with rfl | hrate
    · exact le_rfl
    · exact mul_le_mul_of_nonneg_right hw (sub_nonneg.2 hrate)
  rw [total_whole hmode, total_whole hmode, total_fresh hmode, total_fresh hmode]
  gcongr ?_ / _
  linarith

end Total

/-! ### Counts and estimates -/

structure TokenCounts.Nonneg (c : TokenCounts) : Prop where
  input : 0 ≤ c.inputTokens
  output : 0 ≤ c.outputTokens
  cacheRead : 0 ≤ c.cacheReadTokens.getD 0
  cacheCreation : 0 ≤ c.cacheCreationTokens.getD 0
  reasoning : 0 ≤ c.reasoningTokens.getD 0

structure TokenEstimate.Nonneg (e : TokenEstimate) : Prop where
  input : 0 ≤ e.estInputTokens
  output : 0 ≤ e.estOutputTokens
  cacheRead : 0 ≤ e.estCacheReadTokens.getD 0
  cacheWrite : 0 ≤ e.estCacheWriteTokens.getD 0

/-- What the input of a family has of the cache is part of it. -/
def TokenCounts.CacheWithin (m : ModelCost) (c : TokenCounts) : Prop :=
  m.accountingMode = .inclusive → c.cacheReadTokens.getD 0 ≤ c.inputTokens

def TokenEstimate.CacheWithin (m : ModelCost) (e : TokenEstimate) : Prop :=
  match m.accountingMode with
  | .inclusive => e.estCacheReadTokens.getD 0 ≤ e.estInputTokens
  | .disjoint => e.estCacheReadTokens.getD 0 + e.estCacheWriteTokens.getD 0 ≤ e.estInputTokens

/-- No fewer input, output and cache-write tokens, and the others the same. -/
structure TokenCounts.Below (c c' : TokenCounts) : Prop where
  input : c.inputTokens ≤ c'.inputTokens
  output : c.outputTokens ≤ c'.outputTokens
  cacheCreation : c.cacheCreationTokens.getD 0 ≤ c'.cacheCreationTokens.getD 0
  cacheRead : c.cacheReadTokens.getD 0 = c'.cacheReadTokens.getD 0
  reasoning : c.reasoningTokens.getD 0 = c'.reasoningTokens.getD 0

structure TokenEstimate.Below (e e' : TokenEstimate) : Prop where
  input : e.estInputTokens ≤ e'.estInputTokens
  output : e.estOutputTokens ≤ e'.estOutputTokens
  cacheWrite : e.estCacheWriteTokens.getD 0 ≤ e'.estCacheWriteTokens.getD 0
  cacheRead : e.estCacheReadTokens.getD 0 = e'.estCacheReadTokens.getD 0

/-- A report that has no price of its own. -/
def TokenCounts.Unpriced (c : TokenCounts) : Prop := c.reportedCostUsd = none

section Cost

variable {m : ModelCost}

theorem composeCost_counts {c : TokenCounts} (hc : c.Unpriced) (e : TokenEstimate) :
    (composeCost (some c) e m).costUsd =
      composeTotalUsd c.inputTokens c.outputTokens (c.cacheReadTokens.getD 0) (c.cacheCreationTokens.getD 0)
        (c.reasoningTokens.getD 0) m false := by
  have hreported : (some c).bind (·.reportedCostUsd) = none := hc
  unfold composeCost
  rw [hreported]
  by_cases hs : m.source = .unknown
  · have hfilter : (some c).filter (fun _ => m.source ≠ .unknown) = none := by simp [hs]
    rw [hfilter]
    show composeTotalUsd _ _ _ _ _ m true = _
    rw [composeTotalUsd_unknown hs, composeTotalUsd_unknown hs]
  · have hfilter : (some c).filter (fun _ => m.source ≠ .unknown) = some c := by simp [hs]
    rw [hfilter]

theorem composeCost_estimate (e : TokenEstimate) :
    (composeCost none e m).costUsd =
      composeTotalUsd e.estInputTokens e.estOutputTokens (e.estCacheReadTokens.getD 0) (e.estCacheWriteTokens.getD 0) 0 m true :=
  rfl

theorem counts_nonneg (hm : m.Published) {c : TokenCounts} (hc : c.Unpriced) (hn : c.Nonneg) (hw : c.CacheWithin m)
    (e : TokenEstimate) : 0 ≤ (composeCost (some c) e m).costUsd := by
  rw [composeCost_counts hc]
  cases hmode : m.accountingMode with
  | inclusive => exact total_inclusive_nonneg hm hmode (hw hmode) hn.cacheRead hn.cacheCreation hn.output hn.reasoning _
  | disjoint => exact total_fresh_nonneg hm hmode hn.input hn.cacheRead hn.cacheCreation hn.output hn.reasoning

theorem estimate_nonneg (hm : m.Published) {e : TokenEstimate} (hn : e.Nonneg) (hw : e.CacheWithin m) :
    0 ≤ (composeCost none e m).costUsd := by
  rw [composeCost_estimate]
  unfold TokenEstimate.CacheWithin at hw
  cases hmode : m.accountingMode with
  | inclusive =>
    rw [hmode] at hw
    exact total_inclusive_nonneg hm hmode hw hn.cacheRead hn.cacheWrite hn.output le_rfl _
  | disjoint =>
    rw [hmode] at hw
    rw [total_whole hmode]
    apply total_fresh_nonneg hm hmode _ hn.cacheRead hn.cacheWrite hn.output le_rfl
    linarith

theorem counts_mono (hm : m.Published) {c c' : TokenCounts} (hc : c.Unpriced) (hc' : c'.Unpriced) (h : c.Below c')
    (e : TokenEstimate) : (composeCost (some c) e m).costUsd ≤ (composeCost (some c') e m).costUsd := by
  rw [composeCost_counts hc, composeCost_counts hc', h.cacheRead, h.reasoning]
  cases hmode : m.accountingMode with
  | inclusive => exact total_inclusive_mono hm hmode h.input h.cacheCreation h.output _
  | disjoint => exact total_fresh_mono hm hmode h.input h.cacheCreation h.output

/-- A cache write of a whole prompt costs no less than a fresh token, or the cache writes are the same. -/
def WritesPaid (m : ModelCost) (e e' : TokenEstimate) : Prop :=
  m.accountingMode = .disjoint →
    e.estCacheWriteTokens.getD 0 = e'.estCacheWriteTokens.getD 0 ∨ m.inputUsdPerMTok ≤ m.cacheWriteUsdPerMTok

theorem estimate_mono (hm : m.Published) {e e' : TokenEstimate} (h : e.Below e') (hpaid : WritesPaid m e e') :
    (composeCost none e m).costUsd ≤ (composeCost none e' m).costUsd := by
  rw [composeCost_estimate, composeCost_estimate, h.cacheRead]
  cases hmode : m.accountingMode with
  | inclusive => exact total_inclusive_mono hm hmode h.input h.cacheWrite h.output _
  | disjoint => exact total_whole_mono hm hmode h.input h.cacheWrite h.output (hpaid hmode)

end Cost

/-- The counts that a provider reports, and the estimate of them. -/
def reported (input read write output : ℚ) : TokenCounts := ⟨input, output, some read, some write, none, none⟩

def estimated (input read write output : ℚ) : TokenEstimate := ⟨input, output, some read, some write⟩

/-- **A cost that was derived or estimated is not negative where the cache counts are parts of the input, grows with the input,
the output and the cache writes, where these are paid, and the two conventions say the same.** -/
theorem composeCost_laws {m : ModelCost} (hm : m.Published) :
    (∀ c e, c.Unpriced → c.Nonneg → c.CacheWithin m → 0 ≤ (composeCost (some c) e m).costUsd) ∧
    (∀ e, e.Nonneg → e.CacheWithin m → 0 ≤ (composeCost none e m).costUsd) ∧
    (∀ c c' e, c.Unpriced → c'.Unpriced → c.Below c' →
      (composeCost (some c) e m).costUsd ≤ (composeCost (some c') e m).costUsd) ∧
    (∀ e e', e.Below e' → WritesPaid m e e' → (composeCost none e m).costUsd ≤ (composeCost none e' m).costUsd) ∧
    (m.accountingMode = .disjoint → ∀ fresh read write output e,
      (composeCost (some (reported fresh read write output)) e m).costUsd =
        (composeCost none (estimated (fresh + read + write) read write output) m).costUsd) ∧
    (m.accountingMode = .inclusive → ∀ input read write output e,
      (composeCost (some (reported input read write output)) e m).costUsd =
        (composeCost none (estimated input read write output) m).costUsd) := by
  refine ⟨fun c e hc hn hw => counts_nonneg hm hc hn hw e, fun e hn hw => estimate_nonneg hm hn hw,
    fun c c' e hc hc' h => counts_mono hm hc hc' h e, fun e e' h hp => estimate_mono hm h hp, ?_, ?_⟩
  · intro hmode fresh read write output e
    have hfresh : fresh + read + write - read - write = fresh := by ring
    have hpriced : (reported fresh read write output).Unpriced := rfl
    rw [composeCost_counts hpriced, composeCost_estimate]
    simp only [reported, estimated, Option.getD_some, Option.getD_none]
    rw [total_whole hmode, hfresh]
  · intro hmode input read write output e
    have hpriced : (reported input read write output).Unpriced := rfl
    rw [composeCost_counts hpriced, composeCost_estimate]
    simp only [reported, estimated, Option.getD_some, Option.getD_none]
    rw [total_inclusive hmode, total_inclusive hmode]

/-- An OpenAI family, half price for what was cached. -/
def halfPriceReads : ModelCost where
  inputUsdPerMTok := 5 / 4
  outputUsdPerMTok := 10
  cacheReadMultiplier := 1 / 2
  cacheWriteUsdPerMTok := 5 / 4
  accountingMode := .inclusive
  family := text "openai-gpt5"
  source := .table
  asOf := text "2026-06-13"
  zeroed := nofun

/-- An Anthropic family that writes to the cache for nothing. -/
def freeWrites : ModelCost where
  inputUsdPerMTok := 3
  outputUsdPerMTok := 15
  cacheReadMultiplier := 1 / 10
  cacheWriteUsdPerMTok := 0
  accountingMode := .disjoint
  family := text "claude-sonnet"
  source := .table
  asOf := text "2026-06-13"
  zeroed := nofun

theorem halfPriceReads_published : halfPriceReads.Published := by
  constructor <;> norm_num [halfPriceReads]

theorem composeCost_laws_halfPriceReads :
    0 ≤ (composeCost (some (reported 1000 400 0 20)) (estimated 0 0 0 0) halfPriceReads).costUsd := by
  have h := (composeCost_laws halfPriceReads_published).1 (reported 1000 400 0 20) (estimated 0 0 0 0)
  apply h rfl
  · constructor <;> norm_num [reported]
  · norm_num [TokenCounts.CacheWithin, reported]

/-- A report of cached tokens without the input that they are part of costs less than nothing, and an estimate gets cheaper with
the tokens that it writes where a write costs less than a fresh token. -/
theorem composeCost_not_lawful :
    (halfPriceReads.Published ∧ (reported 0 400000 0 0).Nonneg ∧ (reported 0 400000 0 0).Unpriced ∧
      (composeCost (some (reported 0 400000 0 0)) (estimated 0 0 0 0) halfPriceReads).costUsd < 0) ∧
    (freeWrites.Published ∧ (estimated 1000 0 0 0).Nonneg ∧ (estimated 1000 0 1000 0).Nonneg ∧
      (estimated 1000 0 0 0).Below (estimated 1000 0 1000 0) ∧
      (composeCost none (estimated 1000 0 1000 0) freeWrites).costUsd <
        (composeCost none (estimated 1000 0 0 0) freeWrites).costUsd) := by
  refine ⟨⟨halfPriceReads_published, ?_, rfl, ?_⟩, ?_, ?_, ?_, ?_, ?_⟩
  · constructor <;> norm_num [reported]
  · have hpriced : (reported 0 400000 0 0).Unpriced := rfl
    rw [composeCost_counts hpriced, total_inclusive rfl]
    norm_num [reported, halfPriceReads]
  · constructor <;> norm_num [freeWrites]
  · constructor <;> norm_num [estimated]
  · constructor <;> norm_num [estimated]
  · constructor <;> norm_num [estimated]
  · rw [composeCost_estimate, composeCost_estimate]
    norm_num [composeTotalUsd, estimated, freeWrites]

end LlmGateway.Router
