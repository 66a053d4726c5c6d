import LlmGateway.Lib.StableSort
import LlmGateway.Router.Selection

/-!
# The cheapest of each tier

`selectCheapestPerTier` of `least-cost-router.ts`, and how it agrees with `selectCandidate`.

* `cheapestPerTier`, `selectCheapestPerTier` — the loop over the ranked pool, and its decisions by tier;
* `selectCheapestPerTier_agrees` — the decision for a tier is that of the selection from the candidates of the tier.
-/

namespace LlmGateway.Router

open LlmGateway.Lib Utf16

/-! ## The loop -/

section Loop

variable (req : RouteRequestInput) (config : RouterConfig) (consideredCount : ℕ) (rejected : List RejectedCandidate)

/-- The first candidate of a tier resolves it, whether the budget lets it pass or not. -/
def cheapestPerTier (decidedTiers : Finset QualityTier) : List RankedCandidate → List RouteDecision
  | [] => []
  | candidate :: rest =>
    match candidate.tier with
    | none => cheapestPerTier decidedTiers rest
    | some tier =>
      if tier ∈ decidedTiers then cheapestPerTier decidedTiers rest
      else
        match checkBudget candidate req config false with
        | .error _ => cheapestPerTier (insert tier decidedTiers) rest
        | .ok () =>
          toDecisionFromRanked candidate consideredCount rejected false :: cheapestPerTier (insert tier decidedTiers) rest

/-- `TIER_ORDER[d.tier]` -/
def RouteDecision.tierOrder (d : RouteDecision) : ℕ := (d.tier.map QualityTier.order).getD 0

/-- The decision on the first candidate of the tier. -/
def cheapestOf (ranked : List RankedCandidate) (tier : QualityTier) : Option RouteDecision :=
  (ranked.find? fun r => r.tier = some tier).bind fun r =>
    match checkBudget r req config false with
    | .error _ => none
    | .ok () => some (toDecisionFromRanked r consideredCount rejected false)

variable {req config consideredCount rejected}

theorem cheapestOf_eq_some_iff {ranked : List RankedCandidate} {tier : QualityTier} {d : RouteDecision} :
    cheapestOf req config consideredCount rejected ranked tier = some d ↔
      ∃ r, ranked.find? (fun r => r.tier = some tier) = some r ∧ checkBudget r req config false = .ok () ∧
        d = toDecisionFromRanked r consideredCount rejected false := by
  unfold cheapestOf
  rw [Option.bind_eq_some_iff]
  constructor
  · rintro ⟨r, hr, hd⟩
    cases hb : checkBudget r req config false with
    | error reason =>
      rw [hb] at hd
      cases hd
    | ok u =>
      rw [hb] at hd
      exact ⟨r, hr, hb, (Option.some.inj hd).symm⟩
  · rintro ⟨r, hr, hb, rfl⟩
    refine ⟨r, hr, ?_⟩
    rw [hb]

theorem tier_of_cheapestOf {ranked : List RankedCandidate} {tier : QualityTier} {d : RouteDecision}
    (h : cheapestOf req config consideredCount rejected ranked tier = some d) : d.tier = some tier := by
  obtain ⟨r, hr, -, rfl⟩ := cheapestOf_eq_some_iff.1 h
  have htier := List.find?_some hr
  exact of_decide_eq_true htier

theorem cheapestOf_cons_of_ne {r : RankedCandidate} {ranked : List RankedCandidate} {tier : QualityTier}
    (h : r.tier ≠ some tier) :
    cheapestOf req config consideredCount rejected (r :: ranked) tier =
      cheapestOf req config consideredCount rejected ranked tier := by
  unfold cheapestOf
  rw [List.find?_cons_of_neg (by simpa using h)]

theorem cheapestOf_cons_of_eq {r : RankedCandidate} {ranked : List RankedCandidate} {tier : QualityTier}
    (h : r.tier = some tier) :
    cheapestOf req config consideredCount rejected (r :: ranked) tier =
      match checkBudget r req config false with
      | .error _ => none
      | .ok () => some (toDecisionFromRanked r consideredCount rejected false) := by
  unfold cheapestOf
  rw [List.find?_cons_of_pos (by simpa using h)]
  rfl

/-- The loop decides each tier that is not decided yet, by its first candidate. -/
theorem mem_cheapestPerTier {decidedTiers : Finset QualityTier} {ranked : List RankedCandidate} {d : RouteDecision} :
    d ∈ cheapestPerTier req config consideredCount rejected decidedTiers ranked ↔
      ∃ tier ∉ decidedTiers, cheapestOf req config consideredCount rejected ranked tier = some d := by
  induction ranked generalizing decidedTiers with
  | nil => simp [cheapestPerTier, cheapestOf]
  | cons r ranked ih =>
    unfold cheapestPerTier
    cases htier : r.tier with
    | none =>
      have hne : ∀ tier, r.tier ≠ some tier := by simp [htier]
      dsimp only
      rw [ih]
      simp only [cheapestOf_cons_of_ne (hne _)]
    | some t =>
      have hne : ∀ tier, tier ≠ t → r.tier ≠ some tier := by
        intro tier h heq
        rw [htier] at heq
        exact h (Option.some.inj heq).symm
      dsimp only
      split_ifs with ht
      · rw [ih]
        apply exists_congr
        intro tier
        apply and_congr_right
        intro hn
        rw [cheapestOf_cons_of_ne (hne tier fun h => hn (h ▸ ht))]
      · -- the tier of the first is decided now; the others are left to the rest
        have hrest : (∃ tier ∉ insert t decidedTiers, cheapestOf req config consideredCount rejected ranked tier = some d) ↔
            ∃ tier, tier ≠ t ∧ tier ∉ decidedTiers ∧
              cheapestOf req config consideredCount rejected (r :: ranked) tier = some d := by
          apply exists_congr
          intro tier
          rw [Finset.mem_insert, not_or, and_assoc]
          apply and_congr_right
          intro hn
          rw [cheapestOf_cons_of_ne (hne tier hn)]
        have hsplit : (∃ tier ∉ decidedTiers, cheapestOf req config consideredCount rejected (r :: ranked) tier = some d) ↔
            cheapestOf req config consideredCount rejected (r :: ranked) t = some d ∨
              ∃ tier, tier ≠ t ∧ tier ∉ decidedTiers ∧
                cheapestOf req config consideredCount rejected (r :: ranked) tier = some d := by
          constructor
          · rintro ⟨tier, hn, h⟩
            by_cases heq : tier = t
            · exact .inl (heq ▸ h)
            · exact .inr ⟨tier, heq, hn, h⟩
          · rintro (h | ⟨tier, -, hn, h⟩)
            · exact ⟨t, ht, h⟩
            · exact ⟨tier, hn, h⟩
        rw [hsplit, ← hrest, cheapestOf_cons_of_eq htier]
        cases hb : checkBudget r req config false with
        | error reason => simp only [reduceCtorEq, false_or, ih]
        | ok u =>
          simp only [List.mem_cons, ih, Option.some.injEq, eq_comm]

theorem pairwise_cheapestPerTier (decidedTiers : Finset QualityTier) (ranked : List RankedCandidate) :
    (cheapestPerTier req config consideredCount rejected decidedTiers ranked).Pairwise fun d d' => d.tier ≠ d'.tier := by
  induction ranked generalizing decidedTiers with
  | nil => exact .nil
  | cons r ranked ih =>
    unfold cheapestPerTier
    cases htier : r.tier with
    | none => exact ih decidedTiers
    | some t =>
      dsimp only
      split_ifs with ht
      · exact ih decidedTiers
      · cases hb : checkBudget r req config false with
        | error reason => exact ih _
        | ok u =>
          refine List.pairwise_cons.2 ⟨?_, ih _⟩
          intro d hd heq
          obtain ⟨tier, hn, h⟩ := mem_cheapestPerTier.1 hd
          rw [tier_of_cheapestOf h] at heq
          have hsame : t = tier := Option.some.inj (htier.symm.trans heq)
          exact hn (hsame ▸ Finset.mem_insert_self _ _)

/-- `TIER_ORDER`, ascending -/
def tiers : List QualityTier := [.economy, .standard, .frontier]

theorem mem_tiers (tier : QualityTier) : tier ∈ tiers := by cases tier <;> decide

theorem order_injective : Function.Injective QualityTier.order := by
  intro a b h
  cases a <;> cases b <;> first | rfl | cases h

/-- The decisions for the tiers come in the order of the tiers. -/
theorem pairwise_tiers (ranked : List RankedCandidate) :
    (tiers.filterMap (cheapestOf req config consideredCount rejected ranked)).Pairwise fun d d' =>
      d.tierOrder < d'.tierOrder := by
  have htiers : tiers.Pairwise fun t t' => t.order < t'.order := by decide
  apply htiers.filterMap
  intro t t' hlt d hd d' hd'
  unfold RouteDecision.tierOrder
  rw [tier_of_cheapestOf hd, tier_of_cheapestOf hd']
  exact hlt

/-- **Sorted, the decisions of the loop are one search for each tier.** -/
theorem mergeSort_cheapestPerTier (ranked : List RankedCandidate) :
    ((cheapestPerTier req config consideredCount rejected ∅ ranked).mergeSort fun d d' => d.tierOrder ≤ d'.tierOrder) =
      tiers.filterMap (cheapestOf req config consideredCount rejected ranked) := by
  have hmem : ∀ d, d ∈ cheapestPerTier req config consideredCount rejected ∅ ranked ↔
      d ∈ tiers.filterMap (cheapestOf req config consideredCount rejected ranked) := by
    intro d
    rw [mem_cheapestPerTier, List.mem_filterMap]
    simp [mem_tiers]
  have hloop : (cheapestPerTier req config consideredCount rejected ∅ ranked).Nodup :=
    (pairwise_cheapestPerTier ∅ ranked).imp fun hne heq => hne (congrArg RouteDecision.tier heq)
  have hsearch : (tiers.filterMap (cheapestOf req config consideredCount rejected ranked)).Nodup :=
    (pairwise_tiers ranked).imp fun hlt heq => hlt.ne (congrArg RouteDecision.tierOrder heq)
  have hperm := (List.perm_ext_iff_of_nodup hloop hsearch).2 hmem
  have hsorted : (tiers.filterMap (cheapestOf req config consideredCount rejected ranked)).Pairwise fun d d' =>
      decide (d.tierOrder ≤ d'.tierOrder) = true :=
    (pairwise_tiers ranked).imp fun hlt => decide_eq_true hlt.le
  rw [mergeSort_perm_eq _ _ hperm, List.mergeSort_of_pairwise hsorted]
  · -- two decisions of one tier are one decision
    intro d hd d' hd' hle hge
    obtain ⟨t, -, h⟩ := mem_cheapestPerTier.1 hd
    obtain ⟨t', -, h'⟩ := mem_cheapestPerTier.1 hd'
    have horder : d.tierOrder = d'.tierOrder := le_antisymm (of_decide_eq_true hle) (of_decide_eq_true hge)
    unfold RouteDecision.tierOrder at horder
    rw [tier_of_cheapestOf h, tier_of_cheapestOf h'] at horder
    have htier : t = t' := order_injective horder
    rw [htier] at h
    exact Option.some.inj (h.symm.trans h')
  · intro a b d hab hbd
    exact decide_eq_true ((of_decide_eq_true hab).trans (of_decide_eq_true hbd))
  · intro a b
    simpa using le_total a.tierOrder b.tierOrder

end Loop

/-! ## Both selections, from a pool -/

section Select

variable {κ : Type*} [LinearOrder κ] (toLowerCase : Text → Text) (collationKey : Text → κ) (req : RouteRequestInput)
  (env : RouterEnv) (config : RouterConfig) (excluded : Finset Text)

def selectCheapestPerTier : List RouteDecision :=
  let pool := buildRankedPool toLowerCase collationKey req env config excluded
  (cheapestPerTier req config pool.ranked.length pool.rejected ∅ pool.ranked).mergeSort fun a b =>
    a.tierOrder ≤ b.tierOrder

/-- The rank of a candidate that may be ranked. -/
def rankIfEligible (candidate : Candidate) : Option RankedCandidate :=
  match evaluateCandidate toLowerCase req env config candidate with
  | .error _ => none
  | .ok (tier, modelCost) => some (rankCandidate toLowerCase candidate tier modelCost req config env)

def rejectIfNot (candidate : Candidate) : Option RejectedCandidate :=
  match evaluateCandidate toLowerCase req env config candidate with
  | .error reason => some ⟨candidate, reason⟩
  | .ok _ => none

/-- `buildRankedPool` from a given pool -/
def rankPool (pool : List Candidate) : RankedPool :=
  ⟨(pool.filterMap (rankIfEligible toLowerCase req env config)).mergeSort fun a b =>
      compareCandidates collationKey a b env config != .gt,
    pool.filterMap (rejectIfNot toLowerCase req env config)⟩

/-- `selectCandidate` from a ranked pool -/
def selectRanked (pool : RankedPool) : RouteDecision :=
  match pool.ranked with
  | [] =>
    match req.fallback with
    | some fallback => selectFallback toLowerCase req env config pool.rejected fallback
    | none => refusal 0 pool.rejected .NoEligibleCandidate
  | best :: rest =>
    match checkBudget best req config false with
    | .error reason => refusal (rest.length + 1) (pool.rejected ++ [⟨best.candidate, reason⟩]) .BudgetExceeded
    | .ok () => toDecisionFromRanked best (rest.length + 1) pool.rejected (isNearTie (best :: rest))

/-- The selection from a given pool. -/
def selectFrom (pool : List Candidate) : RouteDecision :=
  selectRanked toLowerCase req env config (rankPool toLowerCase collationKey req env config pool)

theorem selectCandidate_eq :
    selectCandidate toLowerCase collationKey req env config excluded =
      selectFrom toLowerCase collationKey req env config (remainingPool req env config excluded) :=
  rfl

theorem selectCheapestPerTier_eq :
    selectCheapestPerTier toLowerCase collationKey req env config excluded =
      let pool := rankPool toLowerCase collationKey req env config (remainingPool req env config excluded)
      tiers.filterMap (cheapestOf req config pool.ranked.length pool.rejected pool.ranked) :=
  mergeSort_cheapestPerTier _

/-- The candidates of a pool whose configured tier is `tier`. -/
def ofTier (tier : QualityTier) (pool : List Candidate) : List Candidate :=
  pool.filter fun c => config.tiers.get (tierKey toLowerCase c) = some tier

variable {toLowerCase req env config}

theorem compare_trans (a b d : RankedCandidate) (hab : (compareCandidates collationKey a b env config != .gt) = true)
    (hbd : (compareCandidates collationKey b d env config != .gt) = true) :
    (compareCandidates collationKey a d env config != .gt) = true := by
  rw [compareCandidates_ne_gt_iff] at hab hbd ⊢
  exact hab.trans hbd

theorem compare_total (a b : RankedCandidate) :
    (compareCandidates collationKey a b env config != .gt || compareCandidates collationKey b a env config != .gt) = true := by
  rw [Bool.or_eq_true, compareCandidates_ne_gt_iff, compareCandidates_ne_gt_iff]
  exact le_total _ _

/-- What is ranked is ranked with its configured tier. -/
theorem rankIfEligible_eq_some {c : Candidate} {r : RankedCandidate}
    (h : rankIfEligible toLowerCase req env config c = some r) : r = rankOf toLowerCase req env config c := by
  unfold rankIfEligible at h
  cases hev : evaluateCandidate toLowerCase req env config c with
  | error reason =>
    rw [hev] at h
    cases h
  | ok p =>
    obtain ⟨-, htier, hcost⟩ := evaluateCandidate_eq_ok_iff.1 (show _ = Except.ok (p.1, p.2) from hev)
    rw [hev] at h
    rw [← Option.some.inj h, rankOf, ← htier, ← hcost]

theorem filterMap_rankIfEligible_ofTier (tier : QualityTier) (pool : List Candidate) :
    (ofTier toLowerCase config tier pool).filterMap (rankIfEligible toLowerCase req env config) =
      (pool.filterMap (rankIfEligible toLowerCase req env config)).filter fun r => r.tier = some tier := by
  unfold ofTier
  rw [List.filterMap_filter, List.filter_filterMap]
  apply List.filterMap_congr
  intro c _
  cases hr : rankIfEligible toLowerCase req env config c with
  | none => simp
  | some r =>
    rw [rankIfEligible_eq_some hr, Option.filter_some]
    rfl

/-- **Ranking the candidates of a tier is keeping them of the ranking.** -/
theorem ranked_ofTier (tier : QualityTier) (pool : List Candidate) :
    (rankPool toLowerCase collationKey req env config (ofTier toLowerCase config tier pool)).ranked =
      (rankPool toLowerCase collationKey req env config pool).ranked.filter fun r => r.tier = some tier := by
  unfold rankPool
  rw [filterMap_rankIfEligible_ofTier, filter_mergeSort (compare_trans collationKey) (compare_total collationKey)]

/-- A selection without a fallback chooses the first of the ranking, under the budget. -/
theorem selectRanked_chosen_iff (hf : req.fallback = none) {pool : RankedPool} {c : Candidate} :
    (selectRanked toLowerCase req env config pool).chosen = some c ↔
      ∃ r, pool.ranked.head? = some r ∧ checkBudget r req config false = .ok () ∧ r.candidate = c := by
  unfold selectRanked
  cases hranked : pool.ranked with
  | nil =>
    rw [hf]
    simp [refusal]
  | cons best rest =>
    dsimp only
    cases hb : checkBudget best req config false with
    | error reason => simp [refusal, hb]
    | ok u => simp [toDecisionFromRanked, hb]

theorem selectRanked_of_ok {pool : RankedPool} {r : RankedCandidate} (hr : pool.ranked.head? = some r)
    (hb : checkBudget r req config false = .ok ()) :
    ∃ n rejected nearTie, selectRanked toLowerCase req env config pool = toDecisionFromRanked r n rejected nearTie := by
  unfold selectRanked
  cases hranked : pool.ranked with
  | nil =>
    rw [hranked] at hr
    cases hr
  | cons best rest =>
    rw [hranked] at hr
    obtain rfl : best = r := Option.some.inj hr
    dsimp only
    rw [hb]
    exact ⟨_, _, _, rfl⟩

end Select

/-! ## Agreement -/

/-- What two decisions say of the choice itself. -/
structure SameChoice (d d' : RouteDecision) : Prop where
  chosen : d.chosen = d'.chosen
  tier : d.tier = d'.tier
  estCostUsd : d.estCostUsd = d'.estCostUsd
  costBasis : d.costBasis = d'.costBasis
  confidence : d.confidence = d'.confidence
  estInputTokens : d.estInputTokens = d'.estInputTokens
  estOutputTokens : d.estOutputTokens = d'.estOutputTokens
  priceAsOf : d.priceAsOf = d'.priceAsOf
  priceSource : d.priceSource = d'.priceSource

theorem SameChoice.of_ranked (r : RankedCandidate) {n n' : ℕ} {rejected rejected' : List RejectedCandidate} {b b' : Bool} :
    SameChoice (toDecisionFromRanked r n rejected b) (toDecisionFromRanked r n' rejected' b') := by
  constructor <;> rfl

section Agree

variable {κ : Type*} [LinearOrder κ] {toLowerCase : Text → Text} (collationKey : Text → κ) {req : RouteRequestInput}
  {env : RouterEnv} {config : RouterConfig} {excluded : Finset Text}

/-- The first of the ranking of a tier is the first of the ranking that has the tier. -/
theorem head_ofTier (tier : QualityTier) (pool : List Candidate) :
    (rankPool toLowerCase collationKey req env config (ofTier toLowerCase config tier pool)).ranked.head? =
      (rankPool toLowerCase collationKey req env config pool).ranked.find? fun r => r.tier = some tier := by
  rw [ranked_ofTier, List.head?_filter]

/-- A decision of the list is that on the first of its tier, within the budget. -/
theorem mem_selectCheapestPerTier {d : RouteDecision} :
    d ∈ selectCheapestPerTier toLowerCase collationKey req env config excluded ↔
      let pool := rankPool toLowerCase collationKey req env config (remainingPool req env config excluded)
      ∃ tier r, pool.ranked.find? (fun r => r.tier = some tier) = some r ∧ checkBudget r req config false = .ok () ∧
        d = toDecisionFromRanked r pool.ranked.length pool.rejected false := by
  rw [selectCheapestPerTier_eq]
  dsimp only
  rw [List.mem_filterMap]
  simp only [mem_tiers, true_and, cheapestOf_eq_some_iff]

theorem tier_of_find {ranked : List RankedCandidate} {tier : QualityTier} {r : RankedCandidate}
    (h : ranked.find? (fun r => r.tier = some tier) = some r) : r.tier = some tier := by
  have htier := List.find?_some h
  exact of_decide_eq_true htier

/-- The sort key is the cost, of what is priced. -/
theorem rankKey_of_mem {pool : List Candidate} {r : RankedCandidate}
    (h : r ∈ (rankPool toLowerCase collationKey req env config pool).ranked) :
    r.rankKey = if r.modelCost.source = .unknown then ⊤ else (r.rankCostUsd : WithTop ℚ) := by
  obtain ⟨c, -, hr⟩ := List.mem_filterMap.1 (List.mem_mergeSort.1 h)
  have heq := rankIfEligible_eq_some hr
  subst heq
  rfl

/-- A priced candidate costs no less than the first of the ranking. -/
theorem cost_le_of_head {pool : List Candidate} {best r : RankedCandidate}
    (hbest : (rankPool toLowerCase collationKey req env config pool).ranked.head? = some best)
    (hr : r ∈ (rankPool toLowerCase collationKey req env config pool).ranked) (hpriced : r.modelCost.source ≠ .unknown) :
    best.rankCostUsd ≤ r.rankCostUsd := by
  have hle : best.rankKey ≤ r.rankKey := by
    have hsorted : (rankPool toLowerCase collationKey req env config pool).ranked.Pairwise fun a b =>
        (compareCandidates collationKey a b env config != .gt) = true :=
      List.pairwise_mergeSort (compare_trans collationKey) (compare_total collationKey) _
    obtain ⟨rest, hranked⟩ := List.head?_eq_some_iff.1 hbest
    have hmem := hr
    rw [hranked] at hmem hsorted
    rcases List.mem_cons.1 hmem with rfl | hrest
    · exact le_rfl
    · have hkey := (compareCandidates_ne_gt_iff collationKey).1 (List.rel_of_pairwise_cons hsorted hrest)
      rcases Prod.Lex.le_iff.1 hkey with hlt | ⟨heq, -⟩
      · exact le_of_lt hlt
      · exact le_of_eq heq
  rw [rankKey_of_mem collationKey hr, if_neg hpriced, rankKey_of_mem collationKey (List.mem_of_head? hbest)] at hle
  split at hle
  · exact absurd hle (not_le.2 (WithTop.coe_lt_top _))
  · exact WithTop.coe_le_coe.1 hle

/-- **The decision for a tier is that of the selection among the candidates of the tier**: the list has one exactly where this
chooses, in the order of the tiers. The choice among all is the decision for its tier, and no priced one costs less. -/
theorem selectCheapestPerTier_agrees (hf : req.fallback = none) :
    (∀ tier, (∃ d ∈ selectCheapestPerTier toLowerCase collationKey req env config excluded, d.tier = some tier) ↔
      ∃ c, (selectFrom toLowerCase collationKey req env config
        (ofTier toLowerCase config tier (remainingPool req env config excluded))).chosen = some c) ∧
    (∀ d ∈ selectCheapestPerTier toLowerCase collationKey req env config excluded, ∃ tier, d.tier = some tier ∧
      SameChoice d (selectFrom toLowerCase collationKey req env config
        (ofTier toLowerCase config tier (remainingPool req env config excluded)))) ∧
    (selectCheapestPerTier toLowerCase collationKey req env config excluded).Pairwise
      (fun d d' => d.tierOrder < d'.tierOrder) ∧
    ∀ c tier, (selectCandidate toLowerCase collationKey req env config excluded).chosen = some c →
      (selectCandidate toLowerCase collationKey req env config excluded).tier = some tier →
      (∃ d ∈ selectCheapestPerTier toLowerCase collationKey req env config excluded, d.tier = some tier ∧ d.chosen = some c) ∧
        ∀ d ∈ selectCheapestPerTier toLowerCase collationKey req env config excluded, d.priceSource ≠ some .unknown →
          ∀ x y, (selectCandidate toLowerCase collationKey req env config excluded).estCostUsd = some x →
            d.estCostUsd = some y → x ≤ y := by
  refine ⟨?_, ?_, ?_, ?_⟩
  · intro tier
    constructor
    · rintro ⟨d, hd, htier⟩
      obtain ⟨t, r, hr, hb, rfl⟩ := (mem_selectCheapestPerTier collationKey).1 hd
      obtain rfl : t = tier := Option.some.inj ((tier_of_find hr).symm.trans htier)
      exact ⟨r.candidate, (selectRanked_chosen_iff hf).2 ⟨r, (head_ofTier collationKey t _).trans hr, hb, rfl⟩⟩
    · rintro ⟨c, hc⟩
      obtain ⟨r, hr, hb, -⟩ := (selectRanked_chosen_iff hf).1 hc
      rw [head_ofTier] at hr
      exact ⟨_, (mem_selectCheapestPerTier collationKey).2 ⟨tier, r, hr, hb, rfl⟩, tier_of_find hr⟩
  · intro d hd
    obtain ⟨tier, r, hr, hb, rfl⟩ := (mem_selectCheapestPerTier collationKey).1 hd
    obtain ⟨n, rejected, nearTie, heq⟩ := selectRanked_of_ok ((head_ofTier collationKey tier _).trans hr) hb
    refine ⟨tier, tier_of_find hr, ?_⟩
    unfold selectFrom
    rw [heq]
    exact .of_ranked r
  · rw [selectCheapestPerTier_eq]
    exact pairwise_tiers _
  · intro c tier hc htier
    rw [selectCandidate_eq] at hc htier ⊢
    obtain ⟨best, hbest, hb, rfl⟩ := (selectRanked_chosen_iff hf).1 hc
    obtain ⟨n, rejected, nearTie, heq⟩ := @selectRanked_of_ok toLowerCase req env config _ _ hbest hb
    unfold selectFrom at htier ⊢
    rw [heq] at htier ⊢
    constructor
    · -- the first of all that has a tier is the first of its tier
      obtain ⟨rest, hranked⟩ := List.head?_eq_some_iff.1 hbest
      have hfind : (rankPool toLowerCase collationKey req env config (remainingPool req env config excluded)).ranked.find?
          (fun r => r.tier = some tier) = some best := by
        rw [hranked, List.find?_cons_of_pos]
        exact decide_eq_true htier
      exact ⟨_, (mem_selectCheapestPerTier collationKey).2 ⟨tier, best, hfind, hb, rfl⟩, htier, rfl⟩
    · intro d hd hpriced x y hx hy
      obtain ⟨t, r, hr, -, rfl⟩ := (mem_selectCheapestPerTier collationKey).1 hd
      obtain rfl : best.rankCostUsd = x := Option.some.inj hx
      obtain rfl : r.rankCostUsd = y := Option.some.inj hy
      apply cost_le_of_head collationKey hbest (List.mem_of_find?_eq_some hr)
      intro hs
      exact hpriced (congrArg some hs)

end Agree

section Fixed

/-- `UNKNOWN_MODEL_COST` -/
def unknownCost : ModelCost where
  inputUsdPerMTok := 0
  outputUsdPerMTok := 0
  cacheReadMultiplier := 0
  cacheWriteUsdPerMTok := 0
  accountingMode := .inclusive
  family := text "unknown"
  source := .unknown
  asOf := text "2026-06-13"
  zeroed := fun _ => ⟨rfl, rfl, rfl⟩

/-- A priced provider and one whose model has no price, in two tiers. -/
def pricedAndUnpriced : RouterEnv :=
  { twoProviders with
    providers := [text "codex", text "local"]
    models := fun provider => if provider == text "codex" then [text "gpt-5"] else [text "mystery"]
    isAuthed := fun _ => true
    modelCost := fun provider _ => if provider == text "codex" then gpt5Cost else unknownCost }

def unpricedInFrontier : RouterConfig :=
  { denyCodex with
    deny := []
    allowUnpriced := true
    tiers := JsMap.set (JsMap.set Table.empty (text "codex:openai-gpt5") .standard) (text "local:unknown") .frontier }

def waivedHello : RouteRequestInput := { fallbackToCodex with fallback := none, budgetWaiver := some true }

theorem ranked_waivedHello :
    (rankPool id (fun s : Text => s.map UInt16.toNat) waivedHello pricedAndUnpriced unpricedInFrontier
        (remainingPool waivedHello pricedAndUnpriced unpricedInFrontier ∅)).ranked =
      (remainingPool waivedHello pricedAndUnpriced unpricedInFrontier ∅).filterMap
        (rankIfEligible id waivedHello pricedAndUnpriced unpricedInFrontier) := by
  apply List.mergeSort_of_pairwise
  decide +kernel

theorem selectCheapestPerTier_agrees_waivedHello :
    ∃ d ∈ selectCheapestPerTier id (fun s : Text => s.map UInt16.toNat) waivedHello pricedAndUnpriced unpricedInFrontier ∅,
      d.tier = some .standard ∧ d.chosen = some ⟨text "codex", text "gpt-5"⟩ := by
  have hsel : (selectCandidate id (fun s : Text => s.map UInt16.toNat) waivedHello pricedAndUnpriced unpricedInFrontier ∅).chosen =
        some ⟨text "codex", text "gpt-5"⟩ ∧
      (selectCandidate id (fun s : Text => s.map UInt16.toNat) waivedHello pricedAndUnpriced unpricedInFrontier ∅).tier =
        some .standard := by
    rw [selectCandidate_eq]
    unfold selectFrom selectRanked
    rw [ranked_waivedHello]
    decide +kernel
  exact ((selectCheapestPerTier_agrees _ (show waivedHello.fallback = none from rfl)).2.2.2 _ _ hsel.1 hsel.2).1

/-- An unpriced candidate has the figure 0, which is less than that of the priced one that is chosen. -/
theorem cheaper_figure_in_list :
    ¬∀ d ∈ selectCheapestPerTier id (fun s : Text => s.map UInt16.toNat) waivedHello pricedAndUnpriced unpricedInFrontier ∅,
      ∀ x y, (selectCandidate id (fun s : Text => s.map UInt16.toNat) waivedHello pricedAndUnpriced unpricedInFrontier
          ∅).estCostUsd = some x → d.estCostUsd = some y → x ≤ y := by
  intro h
  have hsel : (selectCandidate id (fun s : Text => s.map UInt16.toNat) waivedHello pricedAndUnpriced unpricedInFrontier
      ∅).estCostUsd = some (100025 / 10000000) := by
    rw [selectCandidate_eq]
    unfold selectFrom selectRanked
    rw [ranked_waivedHello]
    decide +kernel
  have hlist : ∃ d ∈ selectCheapestPerTier id (fun s : Text => s.map UInt16.toNat) waivedHello pricedAndUnpriced
      unpricedInFrontier ∅, d.estCostUsd = some 0 := by
    rw [selectCheapestPerTier_eq]
    dsimp only
    rw [ranked_waivedHello]
    decide +kernel
  obtain ⟨d, hd, hcost⟩ := hlist
  exact absurd (h d hd _ _ hsel hcost) (by norm_num)

end Fixed

end LlmGateway.Router
