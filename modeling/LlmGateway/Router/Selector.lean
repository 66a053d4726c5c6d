import Mathlib.Data.Finset.Basic
import Mathlib.Data.Prod.Lex
import Mathlib.Order.WithBot
import LlmGateway.Lib.JsMap
import LlmGateway.Router.Pricing

/-!
# The least-cost router

`least-cost-router.ts`: `selectCandidate` builds the pool, drops what is not eligible, ranks the rest and admits the first
under the budget; with nothing to rank it tries the fallback of the caller.

* `RouterEnv`, `RouteRequestInput`, `RouterConfig` — what the selector is given;
* `buildPool`, `checkCapabilities`, `checkTier`, `evaluateBaseEligibility` — the gates.

`toLowerCase` and `collationKey` are the engine's: `localeCompare` compares the sort keys of two texts.
-/

namespace LlmGateway.Router

open LlmGateway.Lib Utf16

inductive QualityTier where
  | economy
  | standard
  | frontier
deriving DecidableEq

/-- `TIER_ORDER` -/
def QualityTier.order : QualityTier → ℕ
  | .economy => 0
  | .standard => 1
  | .frontier => 2

inductive BreakerState where
  | CLOSED
  | OPEN
  | HALF_OPEN
deriving DecidableEq

inductive CapabilityScope where
  | maintainOnly
  | other
deriving DecidableEq

structure Candidate where
  provider : Text
  model : Text
deriving DecidableEq

structure CandidateCapabilities where
  acceptsImages : Bool
  acceptsAttachments : Bool
  toolCalling : Bool
  jsonSchema : Bool
  outputFormats : List Text
  capabilityScope : CapabilityScope
  effortLevels : List Text

structure OutputPrior where
  median : ℚ
  p90 : ℚ

/-- What the selector sees of the world. -/
structure RouterEnv where
  providers : List Text
  models : Text → List Text
  isAuthed : Text → Bool
  breakerState : Text → BreakerState
  atCapacity : Text → Bool
  capabilities : Text → CandidateCapabilities
  modelCost : Text → Text → ModelCost
  successRate : Text → Text → ℚ
  meanLatencyMs : Text → Text → ℚ
  calibrationK : Text → Text → ℚ
  outputPrior : Text → Text → Option OutputPrior
  confidenceBand : Text → Text → Confidence

structure RequiredCapabilities where
  images : Option Bool
  attachments : Option Bool
  toolCalling : Option Bool
  jsonSchema : Option Bool
  outputFormat : Option Text
  effort : Option Text

/-- A budget; both schemas that it comes from ask for a positive number. -/
abbrev Usd := {usd : ℚ // 0 < usd}

structure RouteRequestInput where
  prompt : Text
  candidates : Option (List Candidate)
  minTier : Option QualityTier
  maxCostUsd : Option Usd
  expectedOutputTokens : Option ℚ
  maxOutputTokens : Option ℚ
  requiredCapabilities : Option RequiredCapabilities
  allowUnpriced : Option Bool
  budgetWaiver : Option Bool
  fallback : Option Candidate

structure RouterConfig where
  minTier : QualityTier
  maxCostUsd : Usd
  defaultExpectedOutputTokens : ℚ
  budgetOutputSafetyFactor : ℚ
  allowUnpriced : Bool
  tiers : JsMap Text QualityTier
  allow : List Text
  deny : List Text
  preferenceOrder : Option (List Text)

inductive RouteError where
  | NoEligibleCandidate
  | BudgetExceeded
deriving DecidableEq

structure RejectedCandidate where
  candidate : Candidate
  reason : String
deriving DecidableEq

/-- Its `reroutes` is always 0. -/
structure RouteDecision where
  chosen : Option Candidate
  tier : Option QualityTier
  estCostUsd : Option ℚ
  costBasis : Option CostBasis
  confidence : Option Confidence
  nearTie : Option Bool
  estInputTokens : Option ℚ
  estOutputTokens : Option ℚ
  priceAsOf : Option Text
  priceSource : Option PriceSource
  consideredCount : ℕ
  rejected : List RejectedCandidate
  error : Option RouteError

/-! ## Eligibility -/

def candidateKey (c : Candidate) : Text := c.provider ++ text ":" ++ c.model

def isExplicitlyListed (c : Candidate) (explicit : Option (List Candidate)) : Bool :=
  explicit.any fun es => es.any fun e => e.provider == c.provider && e.model == c.model

def passesAllowDeny (c : Candidate) (config : RouterConfig) : Bool :=
  let isMatch (entry : Text) := entry == c.provider || entry == candidateKey c
  if config.deny.any isMatch then false
  else if config.allow.length = 0 then true
  else config.allow.any isMatch

def buildPool (req : RouteRequestInput) (env : RouterEnv) (config : RouterConfig) : List Candidate :=
  let source :=
    (req.candidates.filter fun cs => 0 < cs.length).getD
      (env.providers.flatMap fun provider => (env.models provider).map fun model => ⟨provider, model⟩)
  source.filter fun c => passesAllowDeny c config

def checkCapabilities (caps : CandidateCapabilities) : Option RequiredCapabilities → Except String Unit
  | none => .ok ()
  | some required =>
    if required.images = some true ∧ ¬caps.acceptsImages then .error "capability:images"
    else if required.attachments = some true ∧ ¬caps.acceptsAttachments then .error "capability:attachments"
    else if required.toolCalling = some true ∧ ¬caps.toolCalling then .error "capability:toolCalling"
    else if required.jsonSchema = some true ∧ ¬caps.jsonSchema then .error "capability:jsonSchema"
    else if required.outputFormat.any fun f => !caps.outputFormats.contains f then .error "capability:outputFormat"
    else if required.effort.any fun e => !caps.effortLevels.contains e then .error "capability:effort"
    else .ok ()

section Tier

variable (toLowerCase : Text → Text)

def tierKey (c : Candidate) : Text := c.provider ++ text ":" ++ modelIdToFamily toLowerCase c.model

/-- The tier of the candidate; one without a tier has no floor to check, but must be listed. -/
def checkTier (candidate : Candidate) (req : RouteRequestInput) (config : RouterConfig) :
    Except String (Option QualityTier) :=
  match config.tiers.get (tierKey toLowerCase candidate) with
  | none => if isExplicitlyListed candidate req.candidates then .ok none else .error "untiered"
  | some tier =>
    if tier.order < (req.minTier.getD config.minTier).order then .error "below-min-tier" else .ok (some tier)

end Tier

def evaluateBaseEligibility (candidate : Candidate) (req : RouteRequestInput) (env : RouterEnv) : Except String Unit :=
  if ¬env.isAuthed candidate.provider then .error "auth"
  else if env.breakerState candidate.provider ≠ .CLOSED then .error "breaker"
  else if env.atCapacity candidate.provider then .error "capacity"
  else
    match checkCapabilities (env.capabilities candidate.provider) req.requiredCapabilities with
    | .error reason => .error reason
    | .ok () =>
      if (env.capabilities candidate.provider).capabilityScope = .maintainOnly ∧
          ¬isExplicitlyListed candidate req.candidates then
        .error "maintain-only"
      else .ok ()

/-! ## Ranks -/

structure RankedCandidate where
  candidate : Candidate
  tier : Option QualityTier
  modelCost : ModelCost
  estInputTokens : ℚ
  estOutputTokens : ℚ
  rankCostUsd : ℚ
  rankKey : WithTop ℚ
  costBasis : CostBasis
  confidence : Confidence
  budgetOutputTokens : ℚ

/-- `CONFIDENCE_ORDER` -/
def Confidence.order : Confidence → ℕ
  | .low => 0
  | .medium => 1
  | .high => 2

def minConfidence (a b : Confidence) : Confidence := if a.order ≤ b.order then a else b

/-- `Math.round` -/
def round (x : ℚ) : ℚ := ⌊x + 1 / 2⌋

def rankCandidate (toLowerCase : Text → Text) (candidate : Candidate) (tier : Option QualityTier) (modelCost : ModelCost)
    (req : RouteRequestInput) (config : RouterConfig) (env : RouterEnv) : RankedCandidate :=
  let family :=
    if modelCost.family ≠ text "unknown" then modelCost.family else modelIdToFamily toLowerCase candidate.model
  let calibrationK := env.calibrationK req.prompt family
  let estInputTokens := estimateInputTokens toLowerCase req.prompt family calibrationK
  let prior := env.outputPrior candidate.provider candidate.model
  let estOutputTokens :=
    req.expectedOutputTokens.getD (prior.elim config.defaultExpectedOutputTokens fun p => max 1 (round p.median))
  let budgetOutputTokens :=
    req.maxOutputTokens.getD
      (prior.elim (config.defaultExpectedOutputTokens * config.budgetOutputSafetyFactor) fun p => max 1 (round p.p90))
  let rankResult := composeCost none ⟨estInputTokens, estOutputTokens, none, none⟩ modelCost
  let band := env.confidenceBand req.prompt family
  { candidate, tier, modelCost, estInputTokens, estOutputTokens
    rankCostUsd := rankResult.costUsd
    rankKey := if modelCost.source = .unknown then ⊤ else (rankResult.costUsd : ℚ)
    costBasis := rankResult.cost_basis
    confidence := minConfidence rankResult.confidence band
    budgetOutputTokens }

/-- `Number.MAX_SAFE_INTEGER` -/
def MAX_SAFE_INTEGER : ℕ := 2 ^ 53 - 1

def preferenceIndex (provider : Text) (preferenceOrder : Option (List Text)) : ℕ :=
  (preferenceOrder.bind fun order => order.idxOf? provider).getD MAX_SAFE_INTEGER

section Order

variable {κ : Type*} [LinearOrder κ] (collationKey : Text → κ)

/-- The sign of the comparator's number. -/
def compareCandidates (a b : RankedCandidate) (env : RouterEnv) (config : RouterConfig) : Ordering :=
  let successA := env.successRate a.candidate.provider a.candidate.model
  let successB := env.successRate b.candidate.provider b.candidate.model
  let latencyA := env.meanLatencyMs a.candidate.provider a.candidate.model
  let latencyB := env.meanLatencyMs b.candidate.provider b.candidate.model
  let prefA := preferenceIndex a.candidate.provider config.preferenceOrder
  let prefB := preferenceIndex b.candidate.provider config.preferenceOrder
  let lexA := a.candidate.provider ++ text "/" ++ a.candidate.model
  let lexB := b.candidate.provider ++ text "/" ++ b.candidate.model
  if a.rankKey ≠ b.rankKey then cmp a.rankKey b.rankKey
  else if successA ≠ successB then cmp successB successA
  else if latencyA ≠ latencyB then cmp latencyA latencyB
  else if prefA ≠ prefB then cmp prefA prefB
  else cmp (collationKey lexA) (collationKey lexB)

end Order

/-- The cost that the budget is held against. -/
def budgetCost (ranked : RankedCandidate) : ℚ :=
  (composeCost none ⟨ranked.estInputTokens, ranked.budgetOutputTokens, none, none⟩ ranked.modelCost).costUsd

def effectiveMax (req : RouteRequestInput) (config : RouterConfig) : ℚ := req.maxCostUsd.getD config.maxCostUsd

def checkBudget (ranked : RankedCandidate) (req : RouteRequestInput) (config : RouterConfig) (isFallback : Bool) :
    Except String Unit :=
  let allowUnpriced := req.allowUnpriced.getD config.allowUnpriced
  let budgetWaiver := req.budgetWaiver.getD false
  if ranked.modelCost.source = .unknown then
    if allowUnpriced && budgetWaiver then .ok () else .error "budget"
  else if effectiveMax req config < budgetCost ranked then
    if isFallback && budgetWaiver then .ok () else .error "budget"
  else .ok ()

/-! ## Selection -/

section Select

variable {κ : Type*} [LinearOrder κ] (toLowerCase : Text → Text) (collationKey : Text → κ)

def toDecisionFromRanked (ranked : RankedCandidate) (consideredCount : ℕ) (rejected : List RejectedCandidate)
    (nearTie : Bool) : RouteDecision where
  chosen := some ranked.candidate
  tier := ranked.tier
  estCostUsd := some ranked.rankCostUsd
  costBasis := some ranked.costBasis
  confidence := some ranked.confidence
  nearTie := some nearTie
  estInputTokens := some ranked.estInputTokens
  estOutputTokens := some ranked.estOutputTokens
  priceAsOf := some ranked.modelCost.asOf
  priceSource := some ranked.modelCost.source
  consideredCount
  rejected
  error := none

def refusal (consideredCount : ℕ) (rejected : List RejectedCandidate) (error : RouteError) : RouteDecision where
  chosen := none
  tier := none
  estCostUsd := none
  costBasis := none
  confidence := none
  nearTie := none
  estInputTokens := none
  estOutputTokens := none
  priceAsOf := none
  priceSource := none
  consideredCount
  rejected
  error := some error

/-- The gates of the loop over the pool: the tier and the rates of an eligible candidate, or why it is rejected. -/
def evaluateCandidate (req : RouteRequestInput) (env : RouterEnv) (config : RouterConfig) (candidate : Candidate) :
    Except String (Option QualityTier × ModelCost) := do
  evaluateBaseEligibility candidate req env
  let tier ← checkTier toLowerCase candidate req config
  let modelCost := env.modelCost candidate.provider candidate.model
  if modelCost.source = .unknown ∧ ¬req.allowUnpriced.getD config.allowUnpriced then .error "unpriced"
  else .ok (tier, modelCost)

/-- The pool without what already failed. -/
def remainingPool (req : RouteRequestInput) (env : RouterEnv) (config : RouterConfig) (excluded : Finset Text) :
    List Candidate :=
  (buildPool req env config).filter fun c => candidateKey c ∉ excluded

structure RankedPool where
  ranked : List RankedCandidate
  rejected : List RejectedCandidate

def buildRankedPool (req : RouteRequestInput) (env : RouterEnv) (config : RouterConfig) (excluded : Finset Text) :
    RankedPool :=
  let pool := remainingPool req env config excluded
  let rejected := pool.filterMap fun candidate =>
    match evaluateCandidate toLowerCase req env config candidate with
    | .error reason => some ⟨candidate, reason⟩
    | .ok _ => none
  let eligible := pool.filterMap fun candidate =>
    match evaluateCandidate toLowerCase req env config candidate with
    | .error _ => none
    | .ok (tier, modelCost) => some (rankCandidate toLowerCase candidate tier modelCost req config env)
  ⟨eligible.mergeSort fun a b => compareCandidates collationKey a b env config != .gt, rejected⟩

/-- `nearTie`: the second is within a hundredth of the first. -/
def isNearTie : List RankedCandidate → Bool
  | best :: secondBest :: _ =>
    match best.rankKey, secondBest.rankKey with
    | some b, some s => 0 < b && |s - b| / b ≤ 1 / 100
    | _, _ => false
  | _ => false

/-- The fallback bypasses the ranking; it counts as listed. -/
def selectFallback (req : RouteRequestInput) (env : RouterEnv) (config : RouterConfig) (rejected : List RejectedCandidate)
    (fallback : Candidate) : RouteDecision :=
  let fallbackReq := { req with candidates := some (req.candidates.getD [] ++ [fallback]) }
  match evaluateBaseEligibility fallback fallbackReq env with
  | .error reason => refusal 0 (rejected ++ [⟨fallback, reason⟩]) .NoEligibleCandidate
  | .ok () =>
    match checkTier toLowerCase fallback fallbackReq config with
    | .error reason => refusal 0 (rejected ++ [⟨fallback, reason⟩]) .NoEligibleCandidate
    | .ok tier =>
      let fallbackRanked :=
        rankCandidate toLowerCase fallback tier (env.modelCost fallback.provider fallback.model) req config env
      match checkBudget fallbackRanked req config true with
      | .error reason => refusal 0 (rejected ++ [⟨fallback, reason⟩]) .BudgetExceeded
      | .ok () => toDecisionFromRanked fallbackRanked 0 rejected false

def selectCandidate (req : RouteRequestInput) (env : RouterEnv) (config : RouterConfig) (excluded : Finset Text) :
    RouteDecision :=
  let pool := buildRankedPool toLowerCase collationKey req env config excluded
  match pool.ranked with
  | [] =>
    match req.fallback with
    | some fallback => selectFallback toLowerCase req env config pool.rejected fallback
    | none => refusal 0 pool.rejected .NoEligibleCandidate
  | best :: rest =>
    match checkBudget best req config false with
    | .error reason => refusal (rest.length + 1) (pool.rejected ++ [⟨best.candidate, reason⟩]) .BudgetExceeded
    | .ok () => toDecisionFromRanked best (rest.length + 1) pool.rejected (isNearTie (best :: rest))

end Select

end LlmGateway.Router
