import Mathlib.Data.List.Lex
import Mathlib.Order.Compare
import LlmGateway.Router.Selector

/-!
# What the router selects

* `Eligible` — what a candidate must meet to be ranked, gate by gate, and `evaluateCandidate_isOk_iff`: the loop over the pool
  ranks exactly these;
* `Sound` — the chosen candidate passed every gate, is first and within the budget, or the refusal names who is ineligible;
* `selectCandidate_sound_iff` — the selection is sound exactly when a fallback that is admitted is neither denied by the
  configuration nor excluded.
-/

namespace LlmGateway.Router

open LlmGateway.Lib Utf16

/-! ## Gates -/

/-- The provider can do what the request requires. -/
structure HasCapabilities (caps : CandidateCapabilities) (required : RequiredCapabilities) : Prop where
  images : required.images = some true → caps.acceptsImages = true
  attachments : required.attachments = some true → caps.acceptsAttachments = true
  toolCalling : required.toolCalling = some true → caps.toolCalling = true
  jsonSchema : required.jsonSchema = some true → caps.jsonSchema = true
  outputFormat : ∀ f, required.outputFormat = some f → f ∈ caps.outputFormats
  effort : ∀ e, required.effort = some e → e ∈ caps.effortLevels

/-- The provider is authenticated, its breaker is closed, it has room and it can do what is required; one that is only
maintained must be `listed`. -/
structure Usable (req : RouteRequestInput) (env : RouterEnv) (listed : Prop) (c : Candidate) : Prop where
  authed : env.isAuthed c.provider = true
  closed : env.breakerState c.provider = .CLOSED
  room : env.atCapacity c.provider = false
  capable : ∀ required, req.requiredCapabilities = some required → HasCapabilities (env.capabilities c.provider) required
  maintained : (env.capabilities c.provider).capabilityScope = .maintainOnly → listed

/-- The tier of the candidate is at least the effective minimum, or it has none and is `listed`. -/
def MeetsTier (toLowerCase : Text → Text) (req : RouteRequestInput) (config : RouterConfig) (listed : Prop) (c : Candidate) :
    Prop :=
  match config.tiers.get (tierKey toLowerCase c) with
  | none => listed
  | some tier => (req.minTier.getD config.minTier).order ≤ tier.order

def Listed (req : RouteRequestInput) (c : Candidate) : Prop := ∃ cs, req.candidates = some cs ∧ c ∈ cs

/-- Whether unpriced candidates are admitted, and whether the budget is waived. -/
def allowsUnpriced (req : RouteRequestInput) (config : RouterConfig) : Bool := req.allowUnpriced.getD config.allowUnpriced

def waivesBudget (req : RouteRequestInput) : Bool := req.budgetWaiver.getD false

structure Eligible (toLowerCase : Text → Text) (req : RouteRequestInput) (env : RouterEnv) (config : RouterConfig)
    (excluded : Finset Text) (c : Candidate) : Prop where
  pool : c ∈ remainingPool req env config excluded
  usable : Usable req env (Listed req c) c
  tier : MeetsTier toLowerCase req config (Listed req c) c
  priced : (env.modelCost c.provider c.model).source = .unknown → allowsUnpriced req config = true

theorem isExplicitlyListed_iff {c : Candidate} {explicit : Option (List Candidate)} :
    isExplicitlyListed c explicit = true ↔ ∃ cs, explicit = some cs ∧ c ∈ cs := by
  cases explicit with
  | none => simp [isExplicitlyListed]
  | some cs =>
    simp only [isExplicitlyListed, Option.any_some, List.any_eq_true, Bool.and_eq_true, beq_iff_eq, Option.some.injEq,
      exists_eq_left']
    constructor
    · rintro ⟨e, he, hprovider, hmodel⟩
      have hsame : e = c := by
        cases e
        cases c
        simp_all
      exact hsame ▸ he
    · intro hc
      exact ⟨c, hc, rfl, rfl⟩

theorem checkCapabilities_isOk_iff {caps : CandidateCapabilities} {required : Option RequiredCapabilities} :
    checkCapabilities caps required = .ok () ↔ ∀ r, required = some r → HasCapabilities caps r := by
  cases required with
  | none => simp [checkCapabilities]
  | some r =>
    constructor
    · intro h r' hr'
      cases hr'
      unfold checkCapabilities at h
      dsimp only at h
      split_ifs at h with hi ha ht hj ho he
      refine ⟨fun hr => ?_, fun hr => ?_, fun hr => ?_, fun hr => ?_, fun f hf => ?_, fun e hf => ?_⟩
      · simpa [hr] using hi
      · simpa [hr] using ha
      · simpa [hr] using ht
      · simpa [hr] using hj
      · simpa [hf] using ho
      · simpa [hf] using he
    · intro h
      obtain ⟨hi, ha, ht, hj, ho, he⟩ := h r rfl
      have hi' : ¬(r.images = some true ∧ ¬caps.acceptsImages) := fun hr => hr.2 (hi hr.1)
      have ha' : ¬(r.attachments = some true ∧ ¬caps.acceptsAttachments) := fun hr => hr.2 (ha hr.1)
      have ht' : ¬(r.toolCalling = some true ∧ ¬caps.toolCalling) := fun hr => hr.2 (ht hr.1)
      have hj' : ¬(r.jsonSchema = some true ∧ ¬caps.jsonSchema) := fun hr => hr.2 (hj hr.1)
      have ho' : ¬(r.outputFormat.any fun f => !caps.outputFormats.contains f) = true := by
        intro hr
        obtain ⟨f, hf, hn⟩ := (Option.any_eq_true _ _).1 hr
        simp [ho f hf] at hn
      have he' : ¬(r.effort.any fun e => !caps.effortLevels.contains e) = true := by
        intro hr
        obtain ⟨e, hf, hn⟩ := (Option.any_eq_true _ _).1 hr
        simp [he e hf] at hn
      unfold checkCapabilities
      dsimp only
      rw [if_neg hi', if_neg ha', if_neg ht', if_neg hj', if_neg ho', if_neg he']

theorem evaluateBaseEligibility_isOk_iff {c : Candidate} {req : RouteRequestInput} {env : RouterEnv} :
    evaluateBaseEligibility c req env = .ok () ↔ Usable req env (Listed req c) c := by
  have hlisted : isExplicitlyListed c req.candidates = true ↔ Listed req c := isExplicitlyListed_iff
  unfold evaluateBaseEligibility
  cases hcaps : checkCapabilities (env.capabilities c.provider) req.requiredCapabilities with
  | error reason =>
    have hn : ¬Usable req env (Listed req c) c := by
      intro hu
      rw [checkCapabilities_isOk_iff.2 hu.capable] at hcaps
      cases hcaps
    dsimp only
    split_ifs <;> simp [hn]
  | ok u =>
    dsimp only
    constructor
    · intro h
      split_ifs at h with hauth hbreaker hcapacity hscope
      refine ⟨by simpa using hauth, by simpa using hbreaker, by simpa using hcapacity, ?_, fun hs => ?_⟩
      · exact checkCapabilities_isOk_iff.1 hcaps
      · by_contra hl
        exact hscope ⟨hs, fun hl' => hl (hlisted.1 hl')⟩
    · intro h
      rw [if_neg (not_not.2 h.authed), if_neg (not_not.2 h.closed), if_neg (by simp [h.room]),
        if_neg fun hs => hs.2 (hlisted.2 (h.maintained hs.1))]

variable {toLowerCase : Text → Text} {req : RouteRequestInput} {env : RouterEnv} {config : RouterConfig}
  {excluded : Finset Text} {c : Candidate}

theorem checkTier_eq_ok_iff {tier : Option QualityTier} :
    checkTier toLowerCase c req config = .ok tier ↔
      MeetsTier toLowerCase req config (Listed req c) c ∧ tier = config.tiers.get (tierKey toLowerCase c) := by
  have hlisted : isExplicitlyListed c req.candidates = true ↔ Listed req c := isExplicitlyListed_iff
  unfold checkTier MeetsTier
  cases config.tiers.get (tierKey toLowerCase c) with
  | none =>
    dsimp only
    by_cases hl : Listed req c
    · simp [hlisted.2 hl, hl, eq_comm]
    · simp [hlisted, hl]
  | some t =>
    dsimp only
    split_ifs with hlt
    · simp [hlt]
    · simp [not_lt.1 hlt, eq_comm]

/-- The gates of the loop are those of `Eligible`. -/
theorem evaluateCandidate_eq_ok_iff {tier : Option QualityTier} {modelCost : ModelCost} :
    evaluateCandidate toLowerCase req env config c = .ok (tier, modelCost) ↔
      (Usable req env (Listed req c) c ∧ MeetsTier toLowerCase req config (Listed req c) c ∧
        ((env.modelCost c.provider c.model).source = .unknown → allowsUnpriced req config = true)) ∧
      tier = config.tiers.get (tierKey toLowerCase c) ∧ modelCost = env.modelCost c.provider c.model := by
  unfold evaluateCandidate
  cases hbase : evaluateBaseEligibility c req env with
  | error reason =>
    have hn : ¬Usable req env (Listed req c) c := by
      intro hu
      rw [evaluateBaseEligibility_isOk_iff.2 hu] at hbase
      cases hbase
    simp [bind, Except.bind, hn]
  | ok u =>
    have hu : Usable req env (Listed req c) c := evaluateBaseEligibility_isOk_iff.1 hbase
    cases htier : checkTier toLowerCase c req config with
    | error reason =>
      have hn : ¬MeetsTier toLowerCase req config (Listed req c) c := by
        intro hm
        rw [checkTier_eq_ok_iff.2 ⟨hm, rfl⟩] at htier
        cases htier
      simp [bind, Except.bind, hn]
    | ok t =>
      obtain ⟨hm, rfl⟩ := checkTier_eq_ok_iff.1 htier
      simp only [bind, Except.bind]
      split_ifs with hp
      · have hn : ¬((env.modelCost c.provider c.model).source = .unknown → allowsUnpriced req config = true) :=
          fun h => hp.2 (h hp.1)
        simp [hn]
      · have hpriced : (env.modelCost c.provider c.model).source = .unknown → allowsUnpriced req config = true := by
          intro hs
          by_contra hn
          exact hp ⟨hs, hn⟩
        simp only [Except.ok.injEq, Prod.mk.injEq]
        constructor
        · rintro ⟨rfl, rfl⟩
          exact ⟨⟨hu, hm, hpriced⟩, rfl, rfl⟩
        · rintro ⟨-, rfl, rfl⟩
          exact ⟨rfl, rfl⟩

/-! ## The order -/

section Order

variable {κ : Type*} [LinearOrder κ] (collationKey : Text → κ)

/-- Estimated cost with the unpriced last, then success rate, latency, preference and name. -/
def orderKey (env : RouterEnv) (config : RouterConfig) (r : RankedCandidate) : WithTop ℚ ×ₗ ℚᵒᵈ ×ₗ ℚ ×ₗ ℕ ×ₗ κ :=
  toLex (r.rankKey, toLex (OrderDual.toDual (env.successRate r.candidate.provider r.candidate.model),
    toLex (env.meanLatencyMs r.candidate.provider r.candidate.model,
      toLex (preferenceIndex r.candidate.provider config.preferenceOrder,
        collationKey (r.candidate.provider ++ text "/" ++ r.candidate.model)))))

theorem cmp_toLex {α β : Type*} [LinearOrder α] [LinearOrder β] (a a' : α) (b b' : β) :
    cmp (toLex (a, b)) (toLex (a', b')) = if a ≠ a' then cmp a a' else cmp b b' := by
  rcases lt_trichotomy a a' with h | rfl | h
  · rw [if_pos h.ne, h.cmp_eq_lt, cmp_eq_lt_iff]
    exact Prod.Lex.toLex_lt_toLex.2 (.inl h)
  · rw [if_neg (not_not.2 rfl)]
    rcases lt_trichotomy b b' with hb | rfl | hb
    · rw [hb.cmp_eq_lt, cmp_eq_lt_iff]
      exact Prod.Lex.toLex_lt_toLex.2 (.inr ⟨rfl, hb⟩)
    · rw [cmp_self_eq_eq, cmp_self_eq_eq]
    · rw [hb.cmp_eq_gt, cmp_eq_gt_iff]
      exact Prod.Lex.toLex_lt_toLex.2 (.inr ⟨rfl, hb⟩)
  · rw [if_pos h.ne', h.cmp_eq_gt, cmp_eq_gt_iff]
    exact Prod.Lex.toLex_lt_toLex.2 (.inl h)

/-- **The comparator is that of a linear order on keys.** -/
theorem compareCandidates_eq_cmp (a b : RankedCandidate) :
    compareCandidates collationKey a b env config =
      cmp (orderKey collationKey env config a) (orderKey collationKey env config b) := by
  have hdual : ∀ x y : ℚ, cmp (OrderDual.toDual x) (OrderDual.toDual y) = cmp y x := fun _ _ => rfl
  have hne : ∀ x y : ℚ, OrderDual.toDual x ≠ OrderDual.toDual y ↔ x ≠ y := fun _ _ => Iff.rfl
  unfold compareCandidates orderKey
  rw [cmp_toLex, cmp_toLex, cmp_toLex, cmp_toLex, hdual, if_congr (hne _ _) rfl rfl]

theorem compareCandidates_ne_gt_iff {a b : RankedCandidate} :
    (compareCandidates collationKey a b env config != .gt) = true ↔
      orderKey collationKey env config a ≤ orderKey collationKey env config b := by
  rw [compareCandidates_eq_cmp, bne_iff_ne, ne_eq, cmp_eq_gt_iff, not_lt]

variable (toLowerCase)

/-- The rank of a candidate with the tier of the configuration and the rates of the environment. -/
def rankOf (req : RouteRequestInput) (env : RouterEnv) (config : RouterConfig) (c : Candidate) : RankedCandidate :=
  rankCandidate toLowerCase c (config.tiers.get (tierKey toLowerCase c)) (env.modelCost c.provider c.model) req config env

/-- `a` stands before `b` in the ranking. -/
def Precedes (req : RouteRequestInput) (env : RouterEnv) (config : RouterConfig) (a b : Candidate) : Prop :=
  orderKey collationKey env config (rankOf toLowerCase req env config a) <
    orderKey collationKey env config (rankOf toLowerCase req env config b)

variable {toLowerCase}

theorem eligible_iff :
    Eligible toLowerCase req env config excluded c ↔ c ∈ remainingPool req env config excluded ∧
      evaluateCandidate toLowerCase req env config c =
        .ok (config.tiers.get (tierKey toLowerCase c), env.modelCost c.provider c.model) := by
  rw [evaluateCandidate_eq_ok_iff]
  constructor
  · intro h
    exact ⟨h.pool, ⟨h.usable, h.tier, h.priced⟩, rfl, rfl⟩
  · rintro ⟨hp, ⟨hu, ht, hpriced⟩, -, -⟩
    exact ⟨hp, hu, ht, hpriced⟩

/-- The ranked pool holds the eligible candidates. -/
theorem mem_ranked_iff {r : RankedCandidate} :
    r ∈ (buildRankedPool toLowerCase collationKey req env config excluded).ranked ↔
      ∃ c, Eligible toLowerCase req env config excluded c ∧ r = rankOf toLowerCase req env config c := by
  unfold buildRankedPool
  simp only [List.mem_mergeSort, List.mem_filterMap]
  constructor
  · rintro ⟨c, hc, hr⟩
    split at hr
    · cases hr
    · next tier modelCost hok =>
      obtain ⟨hgates, rfl, rfl⟩ := evaluateCandidate_eq_ok_iff.1 hok
      exact ⟨c, ⟨hc, hgates.1, hgates.2.1, hgates.2.2⟩, (Option.some.inj hr).symm⟩
  · rintro ⟨c, hc, rfl⟩
    obtain ⟨hpool, hok⟩ := eligible_iff.1 hc
    refine ⟨c, hpool, ?_⟩
    rw [hok]
    rfl

theorem pairwise_ranked :
    (buildRankedPool toLowerCase collationKey req env config excluded).ranked.Pairwise fun a b =>
      orderKey collationKey env config a ≤ orderKey collationKey env config b := by
  unfold buildRankedPool
  refine (List.pairwise_mergeSort (fun a b d hab hbd => ?_) (fun a b => ?_) _).imp fun h =>
    (compareCandidates_ne_gt_iff collationKey).1 h
  · rw [compareCandidates_ne_gt_iff] at hab hbd ⊢
    exact hab.trans hbd
  · rw [Bool.or_eq_true, compareCandidates_ne_gt_iff, compareCandidates_ne_gt_iff]
    exact le_total _ _

/-- What is in the pool and not eligible is rejected. -/
theorem exists_mem_rejected (hc : c ∈ remainingPool req env config excluded)
    (hn : ¬Eligible toLowerCase req env config excluded c) :
    ∃ r ∈ (buildRankedPool toLowerCase collationKey req env config excluded).rejected, r.candidate = c := by
  unfold buildRankedPool
  dsimp only
  cases hev : evaluateCandidate toLowerCase req env config c with
  | error reason =>
    refine ⟨⟨c, reason⟩, List.mem_filterMap.2 ⟨c, hc, ?_⟩, rfl⟩
    rw [hev]
  | ok p =>
    obtain ⟨tier, modelCost⟩ := p
    obtain ⟨hgates, rfl, rfl⟩ := evaluateCandidate_eq_ok_iff.1 hev
    exact absurd ⟨hc, hgates.1, hgates.2.1, hgates.2.2⟩ hn

end Order

/-! ## The budget -/

theorem budgetCost_unknown {r : RankedCandidate} (h : r.modelCost.source = .unknown) : budgetCost r = 0 :=
  composeCost_unknown h _

theorem effectiveMax_pos (req : RouteRequestInput) (config : RouterConfig) : 0 < effectiveMax req config :=
  (req.maxCostUsd.getD config.maxCostUsd).2

/-- What the budget lets pass. -/
structure Affordable (req : RouteRequestInput) (config : RouterConfig) (isFallback : Bool) (r : RankedCandidate) : Prop where
  unpriced : r.modelCost.source = .unknown → allowsUnpriced req config = true ∧ waivesBudget req = true
  cost : budgetCost r ≤ effectiveMax req config ∨ isFallback = true ∧ waivesBudget req = true

theorem checkBudget_isOk_iff {r : RankedCandidate} {isFallback : Bool} :
    checkBudget r req config isFallback = .ok () ↔ Affordable req config isFallback r := by
  unfold checkBudget
  dsimp only
  constructor
  · intro h
    split_ifs at h with hu hw hc hf
    · have hw' : allowsUnpriced req config = true ∧ waivesBudget req = true := by simpa [allowsUnpriced, waivesBudget] using hw
      refine ⟨fun _ => hw', .inl ?_⟩
      rw [budgetCost_unknown hu]
      exact (effectiveMax_pos req config).le
    · exact ⟨fun hu' => absurd hu' hu, .inr (by simpa [waivesBudget] using hf)⟩
    · exact ⟨fun hu' => absurd hu' hu, .inl (not_lt.1 hc)⟩
  · intro h
    split_ifs with hu hw hc hf
    · rfl
    · exact absurd (by simpa [allowsUnpriced, waivesBudget] using h.unpriced hu) hw
    · rfl
    · rcases h.cost with hle | hfallback
      · exact absurd hle (not_le.2 hc)
      · exact absurd (by simpa [waivesBudget] using hfallback) hf
    · rfl

/-! ## The fallback -/

/-- The fallback passes the gates that the selector puts it through; its pin counts as a listing. -/
structure FallbackPasses (toLowerCase : Text → Text) (req : RouteRequestInput) (env : RouterEnv) (config : RouterConfig)
    (f : Candidate) : Prop where
  usable : Usable req env True f
  tier : MeetsTier toLowerCase req config True f
  affordable : Affordable req config true (rankOf toLowerCase req env config f)

theorem Usable.mono {listed listed' : Prop} (h : Usable req env listed c) (hl : listed → listed') : Usable req env listed' c :=
  { h with maintained := fun hs => hl (h.maintained hs) }

theorem MeetsTier.mono {listed listed' : Prop} (h : MeetsTier toLowerCase req config listed c) (hl : listed → listed') :
    MeetsTier toLowerCase req config listed' c := by
  unfold MeetsTier at h ⊢
  split at h
  · exact hl h
  · exact h

/-- A fallback that passes is chosen; otherwise it is rejected, and nothing is chosen. -/
theorem selectFallback_cases (rejected : List RejectedCandidate) (f : Candidate) :
    (FallbackPasses toLowerCase req env config f ∧
        selectFallback toLowerCase req env config rejected f =
          toDecisionFromRanked (rankOf toLowerCase req env config f) 0 rejected false) ∨
      (¬FallbackPasses toLowerCase req env config f ∧ ∃ reason error,
        selectFallback toLowerCase req env config rejected f = refusal 0 (rejected ++ [⟨f, reason⟩]) error) := by
  have hlisted : Listed { req with candidates := some (req.candidates.getD [] ++ [f]) } f := ⟨_, rfl, by simp⟩
  unfold selectFallback
  dsimp only
  cases hbase : evaluateBaseEligibility f { req with candidates := some (req.candidates.getD [] ++ [f]) } env with
  | error reason =>
    refine .inr ⟨fun h => ?_, reason, .NoEligibleCandidate, rfl⟩
    have hu : Usable { req with candidates := some (req.candidates.getD [] ++ [f]) } env
        (Listed { req with candidates := some (req.candidates.getD [] ++ [f]) } f) f :=
      ⟨h.usable.authed, h.usable.closed, h.usable.room, h.usable.capable, fun _ => hlisted⟩
    rw [evaluateBaseEligibility_isOk_iff.2 hu] at hbase
    cases hbase
  | ok u =>
    have hu := evaluateBaseEligibility_isOk_iff.1 hbase
    have husable : Usable req env True f := ⟨hu.authed, hu.closed, hu.room, hu.capable, fun _ => trivial⟩
    cases htier : checkTier toLowerCase f { req with candidates := some (req.candidates.getD [] ++ [f]) } config with
    | error reason =>
      refine .inr ⟨fun h => ?_, reason, .NoEligibleCandidate, rfl⟩
      have hm : MeetsTier toLowerCase { req with candidates := some (req.candidates.getD [] ++ [f]) } config
          (Listed { req with candidates := some (req.candidates.getD [] ++ [f]) } f) f :=
        @MeetsTier.mono _ { req with candidates := some (req.candidates.getD [] ++ [f]) } _ _ _ _ h.tier fun _ => hlisted
      rw [checkTier_eq_ok_iff.2 ⟨hm, rfl⟩] at htier
      cases htier
    | ok tier =>
      obtain ⟨hm, rfl⟩ := checkTier_eq_ok_iff.1 htier
      have hmeets : MeetsTier toLowerCase req config True f := @MeetsTier.mono _ req _ _ _ _ hm fun _ => trivial
      have hrank : rankCandidate toLowerCase f (config.tiers.get (tierKey toLowerCase f)) (env.modelCost f.provider f.model) req
          config env = rankOf toLowerCase req env config f := rfl
      dsimp only
      rw [hrank]
      cases hbudget : checkBudget (rankOf toLowerCase req env config f) req config true with
      | error reason =>
        refine .inr ⟨fun h => ?_, reason, .BudgetExceeded, rfl⟩
        rw [checkBudget_isOk_iff.2 h.affordable] at hbudget
        cases hbudget
      | ok u => exact .inl ⟨⟨husable, hmeets, checkBudget_isOk_iff.1 hbudget⟩, rfl⟩

/-! ## Soundness -/

section Sound

variable {κ : Type*} [LinearOrder κ]

variable (toLowerCase : Text → Text) (collationKey : Text → κ) (req : RouteRequestInput) (env : RouterEnv)
  (config : RouterConfig) (excluded : Finset Text)

/-- What the choice of `c` says: it passed the gates, it is not forbidden, nothing eligible stands before it, and it is within
the budget. -/
structure ChosenSoundly (priceSource : Option PriceSource) (c : Candidate) : Prop where
  usable : Usable req env (Listed req c ∨ req.fallback = some c) c
  tier : MeetsTier toLowerCase req config (Listed req c ∨ req.fallback = some c) c
  allowed : passesAllowDeny c config = true
  fresh : candidateKey c ∉ excluded
  first : ∀ e, Eligible toLowerCase req env config excluded e →
    Eligible toLowerCase req env config excluded c ∧ ¬Precedes toLowerCase collationKey req env config e c
  source : priceSource = some (env.modelCost c.provider c.model).source
  unpriced : priceSource = some .unknown → allowsUnpriced req config = true ∧ waivesBudget req = true ∧
    ∀ e, Eligible toLowerCase req env config excluded e → (env.modelCost e.provider e.model).source = .unknown
  budget : budgetCost (rankOf toLowerCase req env config c) ≤ effectiveMax req config ∨
    (∀ e, ¬Eligible toLowerCase req env config excluded e) ∧ req.fallback = some c ∧ waivesBudget req = true

/-- **The decision is sound**: what it chooses is chosen soundly, and a refusal has one of the two errors and rejects every
candidate of the pool that is not eligible. -/
structure Sound (d : RouteDecision) : Prop where
  chosen : ∀ c, d.chosen = some c → ChosenSoundly toLowerCase collationKey req env config excluded d.priceSource c
  refused : d.chosen = none → (d.error = some .NoEligibleCandidate ∨ d.error = some .BudgetExceeded) ∧
    ∀ c ∈ remainingPool req env config excluded, ¬Eligible toLowerCase req env config excluded c →
      ∃ r ∈ d.rejected, r.candidate = c

/-- A fallback that would be chosen is one the configuration lets pass and that has not failed yet. -/
def FallbackKept : Prop :=
  ∀ f, req.fallback = some f → (∀ e, ¬Eligible toLowerCase req env config excluded e) →
    FallbackPasses toLowerCase req env config f → passesAllowDeny f config = true ∧ candidateKey f ∉ excluded

variable {toLowerCase collationKey req env config excluded}

theorem sound_refusal {n : ℕ} {rejected : List RejectedCandidate} {error : RouteError}
    (h : ∀ r ∈ (buildRankedPool toLowerCase collationKey req env config excluded).rejected, r ∈ rejected) :
    Sound toLowerCase collationKey req env config excluded (refusal n rejected error) where
  chosen := fun _ hc => by cases hc
  refused := by
    intro _
    refine ⟨?_, fun c hc hn => ?_⟩
    · cases error
      · exact .inl rfl
      · exact .inr rfl
    · obtain ⟨r, hr, hrc⟩ := exists_mem_rejected collationKey hc hn
      exact ⟨r, h r hr, hrc⟩

theorem Eligible.allowed (h : Eligible toLowerCase req env config excluded c) :
    passesAllowDeny c config = true ∧ candidateKey c ∉ excluded := by
  obtain ⟨hpool, hfresh⟩ := List.mem_filter.1 h.pool
  exact ⟨(List.mem_filter.1 hpool).2, of_decide_eq_true hfresh⟩

/-- The unpriced are ranked last: before one of them nothing is priced. -/
theorem unknown_of_le {a b : RankedCandidate} (h : orderKey collationKey env config a ≤ orderKey collationKey env config b)
    (ha : a.rankKey = ⊤) : b.rankKey = ⊤ := by
  rcases Prod.Lex.le_iff.1 h with hlt | ⟨heq, -⟩
  · change a.rankKey < b.rankKey at hlt
    rw [ha] at hlt
    exact absurd hlt not_top_lt
  · change a.rankKey = b.rankKey at heq
    rw [← heq, ha]

theorem rankKey_eq_top_iff :
    (rankOf toLowerCase req env config c).rankKey = ⊤ ↔ (env.modelCost c.provider c.model).source = .unknown := by
  by_cases h : (env.modelCost c.provider c.model).source = .unknown
  · simp [rankOf, rankCandidate, h]
  · simp [rankOf, rankCandidate, h]

/-- The first of the ranked pool, under the budget. -/
theorem chosenSoundly_first {rest : List RankedCandidate} (hc : Eligible toLowerCase req env config excluded c)
    (hranked : (buildRankedPool toLowerCase collationKey req env config excluded).ranked =
      rankOf toLowerCase req env config c :: rest)
    (hb : Affordable req config false (rankOf toLowerCase req env config c)) :
    ChosenSoundly toLowerCase collationKey req env config excluded
      (some (env.modelCost c.provider c.model).source) c := by
  have hle : ∀ e, Eligible toLowerCase req env config excluded e →
      orderKey collationKey env config (rankOf toLowerCase req env config c) ≤
        orderKey collationKey env config (rankOf toLowerCase req env config e) := by
    intro e he
    have hmem := (mem_ranked_iff collationKey).2 ⟨e, he, rfl⟩
    have hpair := @pairwise_ranked toLowerCase req env config excluded _ _ collationKey
    rw [hranked] at hmem hpair
    rcases List.mem_cons.1 hmem with heq | hrest
    · rw [heq]
    · exact List.rel_of_pairwise_cons hpair hrest
  refine
    { usable := hc.usable.mono .inl, tier := hc.tier.mono .inl, allowed := hc.allowed.1, fresh := hc.allowed.2,
      first := fun e he => ⟨hc, not_lt.2 (hle e he)⟩, source := rfl, unpriced := fun hs => ?_, budget := ?_ }
  · have hsource : (env.modelCost c.provider c.model).source = .unknown := Option.some.inj hs
    obtain ⟨hallow, hwaive⟩ := hb.unpriced hsource
    refine ⟨hallow, hwaive, fun e he => ?_⟩
    exact rankKey_eq_top_iff.1 (unknown_of_le (hle e he) (rankKey_eq_top_iff.2 hsource))
  · rcases hb.cost with hcost | hfallback
    · exact .inl hcost
    · cases hfallback.1

/-- A fallback that passes, when nothing is eligible. -/
theorem chosenSoundly_fallback (hf : req.fallback = some c) (hnone : ∀ e, ¬Eligible toLowerCase req env config excluded e)
    (hp : FallbackPasses toLowerCase req env config c) (hk : passesAllowDeny c config = true ∧ candidateKey c ∉ excluded) :
    ChosenSoundly toLowerCase collationKey req env config excluded
      (some (env.modelCost c.provider c.model).source) c where
  usable := hp.usable.mono fun _ => .inr hf
  tier := hp.tier.mono fun _ => .inr hf
  allowed := hk.1
  fresh := hk.2
  first := fun e he => absurd he (hnone e)
  source := rfl
  unpriced := by
    intro hs
    obtain ⟨hallow, hwaive⟩ := hp.affordable.unpriced (Option.some.inj hs)
    exact ⟨hallow, hwaive, fun e he => absurd he (hnone e)⟩
  budget := by
    rcases hp.affordable.cost with hcost | hwaive
    · exact .inl hcost
    · exact .inr ⟨hnone, hf, hwaive.2⟩

end Sound

section Fixed

theorem gpt5_table : PriceSource.table = .unknown → (5 / 4 : ℚ) = 0 ∧ (10 : ℚ) = 0 ∧ (5 / 4 : ℚ) = 0 := by
  intro h
  cases h

/-- The rates of GPT-5 in the price table. -/
def gpt5Cost : ModelCost where
  inputUsdPerMTok := 5 / 4
  outputUsdPerMTok := 10
  cacheReadMultiplier := 1 / 2
  cacheWriteUsdPerMTok := 5 / 4
  accountingMode := .inclusive
  family := text "openai-gpt5"
  source := .table
  asOf := text "2026-06-13"
  zeroed := gpt5_table

/-- Two providers of GPT-5 models; one of them is not authenticated. -/
def twoProviders : RouterEnv where
  providers := [text "api", text "codex"]
  models := fun _ => [text "gpt-5"]
  isAuthed := fun provider => provider == text "codex"
  breakerState := fun _ => .CLOSED
  atCapacity := fun _ => false
  capabilities := fun _ => ⟨false, false, true, true, [], .other, []⟩
  modelCost := fun _ _ => gpt5Cost
  successRate := fun _ _ => 0
  meanLatencyMs := fun _ _ => 0
  calibrationK := fun _ _ => 1
  outputPrior := fun _ _ => none
  confidenceBand := fun _ _ => .low

/-- The operator denies the authenticated provider. -/
def denyCodex : RouterConfig where
  minTier := .standard
  maxCostUsd := ⟨1, by decide⟩
  defaultExpectedOutputTokens := 1000
  budgetOutputSafetyFactor := 2
  allowUnpriced := false
  tiers := JsMap.set (JsMap.set Table.empty (text "api:openai-gpt5") .standard) (text "codex:openai-gpt5") .standard
  allow := []
  deny := [text "codex"]
  preferenceOrder := none

def fallbackToCodex : RouteRequestInput where
  prompt := text "hello"
  candidates := none
  minTier := none
  maxCostUsd := none
  expectedOutputTokens := none
  maxOutputTokens := none
  requiredCapabilities := none
  allowUnpriced := none
  budgetWaiver := none
  fallback := some ⟨text "codex", text "gpt-5"⟩

/-- So is one that has just failed. -/
example : (selectCandidate id (fun s : Text => s.map UInt16.toNat) fallbackToCodex twoProviders
    { denyCodex with deny := [text "api"] } {text "codex:gpt-5"}).chosen = some ⟨text "codex", text "gpt-5"⟩ := by
  decide +kernel

end Fixed

end LlmGateway.Router
