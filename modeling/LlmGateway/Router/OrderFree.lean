import LlmGateway.Router.PerTier

/-!
# Selection and the order of the pool

Whether what `selectCandidate` and `selectCheapestPerTier` choose depends on the order in which the environment or the request
lists the candidates.

* `Reordered` — the same request and facts, the candidates in another order;
* `OrderFree` — the same choices, and a comparator that is a strict total order on what is ranked;
* `Separated`, `orderFree_iff` — this is so exactly when no two different candidates tie to the end, where the name is
  `provider/model` in one text.
-/

namespace LlmGateway.Router

open LlmGateway.Lib Utf16

/-- The candidates that an environment lists. -/
def enumerate (env : RouterEnv) : List Candidate :=
  env.providers.flatMap fun provider => (env.models provider).map fun model => ⟨provider, model⟩

/-- The same listing in another order, or none. -/
inductive SameListing : Option (List Candidate) → Option (List Candidate) → Prop where
  | none : SameListing none none
  | some {cs cs' : List Candidate} (h : cs.Perm cs') : SameListing (some cs) (some cs')

/-- Another order of the candidates, of the environment and of the request, and nothing else. -/
structure Reordered (req req' : RouteRequestInput) (env env' : RouterEnv) : Prop where
  listing : SameListing req.candidates req'.candidates
  request : req' = { req with candidates := req'.candidates }
  enumeration : (enumerate env).Perm (enumerate env')
  facts : env' = { env with providers := env'.providers, models := env'.models }

/-- The same decision; its rejections may come in another order. -/
structure SameDecision (d d' : RouteDecision) : Prop where
  rejected : d.rejected.Perm d'.rejected
  rest : d' = { d with rejected := d'.rejected }

section Order

variable {κ : Type*} [LinearOrder κ] (toLowerCase : Text → Text) (collationKey : Text → κ) (req : RouteRequestInput)
  (env : RouterEnv) (config : RouterConfig) (excluded : Finset Text)

/-- `compareCandidates` on the candidates themselves. -/
def compareEligible (a b : Candidate) : Ordering :=
  compareCandidates collationKey (rankOf toLowerCase req env config a) (rankOf toLowerCase req env config b) env config

/-- A strict total order on the candidates that are ranked. -/
structure StrictlyOrdered : Prop where
  irrefl : ∀ a, compareEligible toLowerCase collationKey req env config a a ≠ .lt
  trans : ∀ a b c, compareEligible toLowerCase collationKey req env config a b = .lt →
    compareEligible toLowerCase collationKey req env config b c = .lt →
    compareEligible toLowerCase collationKey req env config a c = .lt
  total : ∀ a b, Eligible toLowerCase req env config excluded a → Eligible toLowerCase req env config excluded b → a ≠ b →
    compareEligible toLowerCase collationKey req env config a b = .lt ∨
      compareEligible toLowerCase collationKey req env config b a = .lt

/-- The choices do not depend on the order of the pool. -/
structure OrderFree : Prop where
  single : ∀ req' env', Reordered req req' env env' →
    SameDecision (selectCandidate toLowerCase collationKey req env config excluded)
      (selectCandidate toLowerCase collationKey req' env' config excluded)
  perTier : ∀ req' env', Reordered req req' env env' →
    List.Forall₂ SameDecision (selectCheapestPerTier toLowerCase collationKey req env config excluded)
      (selectCheapestPerTier toLowerCase collationKey req' env' config excluded)
  ordered : StrictlyOrdered toLowerCase collationKey req env config excluded

/-- Equal in all that the comparator looks at, down to the name. -/
structure Tied (a b : Candidate) : Prop where
  rankKey : (rankOf toLowerCase req env config a).rankKey = (rankOf toLowerCase req env config b).rankKey
  successRate : env.successRate a.provider a.model = env.successRate b.provider b.model
  meanLatencyMs : env.meanLatencyMs a.provider a.model = env.meanLatencyMs b.provider b.model
  preference : preferenceIndex a.provider config.preferenceOrder = preferenceIndex b.provider config.preferenceOrder
  name : collationKey (a.provider ++ text "/" ++ a.model) = collationKey (b.provider ++ text "/" ++ b.model)

/-- No two different candidates tie. -/
def Separated : Prop :=
  ∀ a b, Eligible toLowerCase req env config excluded a → Eligible toLowerCase req env config excluded b →
    Tied toLowerCase collationKey req env config a b → a = b

variable {toLowerCase req env config excluded}

omit [LinearOrder κ] in
theorem orderKey_eq_iff {a b : Candidate} :
    orderKey collationKey env config (rankOf toLowerCase req env config a) =
        orderKey collationKey env config (rankOf toLowerCase req env config b) ↔
      Tied toLowerCase collationKey req env config a b := by
  unfold orderKey
  simp only [EmbeddingLike.apply_eq_iff_eq, Prod.mk.injEq]
  constructor
  · rintro ⟨hrank, hsuccess, hlatency, hpref, hname⟩
    exact ⟨hrank, hsuccess, hlatency, hpref, hname⟩
  · rintro ⟨hrank, hsuccess, hlatency, hpref, hname⟩
    exact ⟨hrank, hsuccess, hlatency, hpref, hname⟩

theorem compareEligible_lt_iff {a b : Candidate} :
    compareEligible toLowerCase collationKey req env config a b = .lt ↔
      Precedes toLowerCase collationKey req env config a b := by
  unfold compareEligible Precedes
  rw [compareCandidates_eq_cmp, cmp_eq_lt_iff]

/-- The comparator is a strict total order exactly where nothing ties. -/
theorem strictlyOrdered_iff :
    StrictlyOrdered toLowerCase collationKey req env config excluded ↔
      Separated toLowerCase collationKey req env config excluded := by
  constructor
  · intro h a b ha hb htied
    have hkey := (orderKey_eq_iff collationKey).2 htied
    by_contra hne
    rcases h.total a b ha hb hne with hlt | hlt
    · exact ((compareEligible_lt_iff collationKey).1 hlt).ne hkey
    · exact ((compareEligible_lt_iff collationKey).1 hlt).ne hkey.symm
  · intro h
    refine ⟨fun a ha => ?_, fun a b c hab hbc => ?_, fun a b ha hb hne => ?_⟩
    · exact lt_irrefl _ ((compareEligible_lt_iff collationKey).1 ha)
    · rw [compareEligible_lt_iff] at hab hbc ⊢
      exact lt_trans hab hbc
    · rw [compareEligible_lt_iff, compareEligible_lt_iff]
      apply lt_or_gt_of_ne
      intro hkey
      exact hne (h a b ha hb ((orderKey_eq_iff collationKey).1 hkey))

end Order

/-! ### The same candidates in another order -/

section Reorder

variable {req : RouteRequestInput} {cs' : Option (List Candidate)} {env : RouterEnv} {ps : List Text} {ms : Text → List Text}
  {config : RouterConfig} {excluded : Finset Text} {toLowerCase : Text → Text}

def RouteRequestInput.listing (req : RouteRequestInput) (cs' : Option (List Candidate)) : RouteRequestInput :=
  { req with candidates := cs' }

def RouterEnv.listing (env : RouterEnv) (ps : List Text) (ms : Text → List Text) : RouterEnv :=
  { env with providers := ps, models := ms }

theorem SameListing.isExplicitlyListed {cs : Option (List Candidate)} (h : SameListing cs cs') (c : Candidate) :
    isExplicitlyListed c cs' = isExplicitlyListed c cs := by
  have hiff : Router.isExplicitlyListed c cs' = true ↔ Router.isExplicitlyListed c cs = true := by
    rw [isExplicitlyListed_iff, isExplicitlyListed_iff]
    cases h with
    | none => rfl
    | some hperm => simp [hperm.mem_iff]
  exact Bool.eq_iff_iff.2 hiff

/-- Each listing has what the fallback adds to it. -/
theorem SameListing.append {cs : Option (List Candidate)} (h : SameListing cs cs') (f : Candidate) :
    SameListing (.some (cs.getD [] ++ [f])) (.some (cs'.getD [] ++ [f])) := by
  cases h with
  | none => exact .some (.refl _)
  | some hperm => exact .some (hperm.append_right [f])

theorem evaluateBaseEligibility_listing (h : SameListing req.candidates cs') (c : Candidate) :
    evaluateBaseEligibility c (req.listing cs') (env.listing ps ms) = evaluateBaseEligibility c req env := by
  unfold evaluateBaseEligibility RouteRequestInput.listing RouterEnv.listing
  dsimp only
  rw [h.isExplicitlyListed]

theorem checkTier_listing (h : SameListing req.candidates cs') (c : Candidate) :
    checkTier toLowerCase c (req.listing cs') config = checkTier toLowerCase c req config := by
  unfold checkTier RouteRequestInput.listing
  dsimp only
  rw [h.isExplicitlyListed]

theorem evaluateCandidate_listing (h : SameListing req.candidates cs') (c : Candidate) :
    evaluateCandidate toLowerCase (req.listing cs') (env.listing ps ms) config c =
      evaluateCandidate toLowerCase req env config c := by
  unfold evaluateCandidate
  rw [evaluateBaseEligibility_listing h, checkTier_listing h]
  rfl

theorem rankIfEligible_listing (h : SameListing req.candidates cs') :
    rankIfEligible toLowerCase (req.listing cs') (env.listing ps ms) config = rankIfEligible toLowerCase req env config := by
  funext c
  unfold rankIfEligible
  rw [evaluateCandidate_listing h]
  rfl

theorem rejectIfNot_listing (h : SameListing req.candidates cs') :
    rejectIfNot toLowerCase (req.listing cs') (env.listing ps ms) config = rejectIfNot toLowerCase req env config := by
  funext c
  unfold rejectIfNot
  rw [evaluateCandidate_listing h]

theorem remainingPool_listing (h : SameListing req.candidates cs') (he : (enumerate env).Perm (enumerate (env.listing ps ms))) :
    (remainingPool req env config excluded).Perm (remainingPool (req.listing cs') (env.listing ps ms) config excluded) := by
  have hsource : ((req.candidates.filter fun cs => 0 < cs.length).getD (enumerate env)).Perm
      ((cs'.filter fun cs => 0 < cs.length).getD (enumerate (env.listing ps ms))) := by
    cases hc : req.candidates with
    | none =>
      rw [hc] at h
      cases h
      exact he
    | some cs =>
      rw [hc] at h
      cases h with
      | some hperm =>
        rw [Option.filter_some, Option.filter_some, hperm.length_eq]
        split
        · exact hperm
        · exact he
  exact (hsource.filter _).filter _

section Choice

variable {κ : Type*} [LinearOrder κ] (collationKey : Text → κ)

theorem ranked_listing (h : SameListing req.candidates cs') (he : (enumerate env).Perm (enumerate (env.listing ps ms)))
    (hsep : Separated toLowerCase collationKey req env config excluded) :
    (rankPool toLowerCase collationKey (req.listing cs') (env.listing ps ms) config
        (remainingPool (req.listing cs') (env.listing ps ms) config excluded)).ranked =
      (rankPool toLowerCase collationKey req env config (remainingPool req env config excluded)).ranked := by
  have hperm : ((remainingPool req env config excluded).filterMap (rankIfEligible toLowerCase req env config)).Perm
      ((remainingPool (req.listing cs') (env.listing ps ms) config excluded).filterMap
        (rankIfEligible toLowerCase (req.listing cs') (env.listing ps ms) config)) := by
    rw [rankIfEligible_listing h]
    exact (remainingPool_listing h he).filterMap _
  have heligible : ∀ r ∈ (remainingPool req env config excluded).filterMap (rankIfEligible toLowerCase req env config),
      ∃ c, Eligible toLowerCase req env config excluded c ∧ r = rankOf toLowerCase req env config c := by
    intro r hr
    exact (mem_ranked_iff collationKey).1 (List.mem_mergeSort.2 hr)
  apply Eq.symm
  apply mergeSort_perm_eq (compare_trans collationKey) (compare_total collationKey) hperm
  intro a ha b hb hab hba
  obtain ⟨c, hc, rfl⟩ := heligible a ha
  obtain ⟨c', hc', rfl⟩ := heligible b hb
  rw [compareCandidates_ne_gt_iff] at hab hba
  rw [hsep c c' hc hc' ((orderKey_eq_iff collationKey).1 (le_antisymm hab hba))]

theorem rejected_listing (h : SameListing req.candidates cs') (he : (enumerate env).Perm (enumerate (env.listing ps ms))) :
    (rankPool toLowerCase collationKey req env config (remainingPool req env config excluded)).rejected.Perm
      (rankPool toLowerCase collationKey (req.listing cs') (env.listing ps ms) config
        (remainingPool (req.listing cs') (env.listing ps ms) config excluded)).rejected := by
  unfold rankPool
  rw [rejectIfNot_listing h]
  exact (remainingPool_listing h he).filterMap _

theorem sameDecision_refusal {n : ℕ} {rejected rejected' : List RejectedCandidate} (h : rejected.Perm rejected')
    (error : RouteError) : SameDecision (refusal n rejected error) (refusal n rejected' error) :=
  ⟨h, rfl⟩

theorem sameDecision_ranked (r : RankedCandidate) {n : ℕ} {rejected rejected' : List RejectedCandidate}
    (h : rejected.Perm rejected') (b : Bool) :
    SameDecision (toDecisionFromRanked r n rejected b) (toDecisionFromRanked r n rejected' b) :=
  ⟨h, rfl⟩

theorem selectFallback_listing (h : SameListing req.candidates cs') {rejected rejected' : List RejectedCandidate}
    (hr : rejected.Perm rejected') (f : Candidate) :
    SameDecision (selectFallback toLowerCase req env config rejected f)
      (selectFallback toLowerCase (req.listing cs') (env.listing ps ms) config rejected' f) := by
  have hadd := h.append f
  have hbase : evaluateBaseEligibility f { req.listing cs' with candidates := some (cs'.getD [] ++ [f]) } (env.listing ps ms) =
      evaluateBaseEligibility f { req with candidates := some (req.candidates.getD [] ++ [f]) } env :=
    @evaluateBaseEligibility_listing { req with candidates := some (req.candidates.getD [] ++ [f]) } _ env ps ms hadd f
  have htier : checkTier toLowerCase f { req.listing cs' with candidates := some (cs'.getD [] ++ [f]) } config =
      checkTier toLowerCase f { req with candidates := some (req.candidates.getD [] ++ [f]) } config :=
    @checkTier_listing { req with candidates := some (req.candidates.getD [] ++ [f]) } _ config toLowerCase hadd f
  have hlisting : (req.listing cs').candidates = cs' := rfl
  unfold selectFallback
  dsimp only
  rw [hlisting, hbase, htier]
  cases evaluateBaseEligibility f { req with candidates := some (req.candidates.getD [] ++ [f]) } env with
  | error reason => exact sameDecision_refusal (hr.append_right _) _
  | ok u =>
    dsimp only
    cases checkTier toLowerCase f { req with candidates := some (req.candidates.getD [] ++ [f]) } config with
    | error reason => exact sameDecision_refusal (hr.append_right _) _
    | ok tier =>
      have hrank : rankCandidate toLowerCase f tier ((env.listing ps ms).modelCost f.provider f.model) (req.listing cs') config
          (env.listing ps ms) = rankCandidate toLowerCase f tier (env.modelCost f.provider f.model) req config env := rfl
      have hbudget : ∀ r, checkBudget r (req.listing cs') config true = checkBudget r req config true := fun _ => rfl
      dsimp only
      rw [hrank, hbudget]
      cases checkBudget (rankCandidate toLowerCase f tier (env.modelCost f.provider f.model) req config env) req config true with
      | error reason => exact sameDecision_refusal (hr.append_right _) _
      | ok u => exact sameDecision_ranked _ hr _

theorem selectRanked_listing (h : SameListing req.candidates cs') {pool pool' : RankedPool}
    (hranked : pool'.ranked = pool.ranked) (hrejected : pool.rejected.Perm pool'.rejected) :
    SameDecision (selectRanked toLowerCase req env config pool)
      (selectRanked toLowerCase (req.listing cs') (env.listing ps ms) config pool') := by
  unfold selectRanked
  rw [hranked]
  cases pool.ranked with
  | nil =>
    have hf : (req.listing cs').fallback = req.fallback := rfl
    rw [hf]
    cases req.fallback with
    | none => exact sameDecision_refusal hrejected _
    | some f => exact selectFallback_listing h hrejected f
  | cons best rest =>
    have hb : checkBudget best (req.listing cs') config false = checkBudget best req config false := rfl
    dsimp only
    rw [hb]
    cases checkBudget best req config false with
    | error reason => exact sameDecision_refusal (hrejected.append_right _) _
    | ok u => exact sameDecision_ranked best hrejected _

/-- The search for the first of a tier, in the same ranking. -/
theorem cheapestOf_listing {n : ℕ} {rejected rejected' : List RejectedCandidate} (hr : rejected.Perm rejected')
    (ranked : List RankedCandidate) (tier : QualityTier) :
    Option.Rel SameDecision (cheapestOf req config n rejected ranked tier)
      (cheapestOf (req.listing cs') config n rejected' ranked tier) := by
  have hb : ∀ r, checkBudget r (req.listing cs') config false = checkBudget r req config false := fun _ => rfl
  unfold cheapestOf
  cases ranked.find? fun r => r.tier = some tier with
  | none => exact .none
  | some r =>
    simp only [Option.bind_some, hb]
    cases checkBudget r req config false with
    | error reason => exact .none
    | ok u => exact .some (sameDecision_ranked r hr false)

/-- A reordered request and environment is one with another listing. -/
theorem Reordered.eq {req' : RouteRequestInput} {env' : RouterEnv} (h : Reordered req req' env env') :
    req' = req.listing req'.candidates ∧ env' = env.listing env'.providers env'.models :=
  ⟨h.request, h.facts⟩

/-- Where no two candidates tie, both selections are free of the order. -/
theorem Separated.selectCandidate (hsep : Separated toLowerCase collationKey req env config excluded)
    {req' : RouteRequestInput} {env' : RouterEnv} (h : Reordered req req' env env') :
    SameDecision (selectCandidate toLowerCase collationKey req env config excluded)
      (Router.selectCandidate toLowerCase collationKey req' env' config excluded) := by
  obtain ⟨hreq, henv⟩ := h.eq
  have he := h.enumeration
  rw [henv] at he
  rw [hreq, henv, selectCandidate_eq, selectCandidate_eq]
  exact selectRanked_listing h.listing (ranked_listing collationKey h.listing he hsep)
    (rejected_listing collationKey h.listing he)

theorem forall₂_filterMap {α β : Type*} {R : β → β → Prop} {f g : α → Option β} (h : ∀ a, Option.Rel R (f a) (g a))
    (l : List α) : List.Forall₂ R (l.filterMap f) (l.filterMap g) := by
  induction l with
  | nil => exact .nil
  | cons a l ih =>
    have ha := h a
    rw [List.filterMap_cons, List.filterMap_cons]
    generalize f a = x at ha ⊢
    generalize g a = y at ha ⊢
    cases ha with
    | none => exact ih
    | some hab => exact .cons hab ih

theorem Separated.selectCheapestPerTier (hsep : Separated toLowerCase collationKey req env config excluded)
    {req' : RouteRequestInput} {env' : RouterEnv} (h : Reordered req req' env env') :
    List.Forall₂ SameDecision (selectCheapestPerTier toLowerCase collationKey req env config excluded)
      (Router.selectCheapestPerTier toLowerCase collationKey req' env' config excluded) := by
  obtain ⟨hreq, henv⟩ := h.eq
  have he := h.enumeration
  rw [henv] at he
  rw [hreq, henv, selectCheapestPerTier_eq, selectCheapestPerTier_eq]
  dsimp only
  rw [ranked_listing collationKey h.listing he hsep]
  exact forall₂_filterMap (cheapestOf_listing (rejected_listing collationKey h.listing he) _) _

/-- A name is cut at its first slash. -/
theorem slash_inj {x y m n : Text} (hx : 47 ∉ x) (hy : 47 ∉ y) (h : x ++ 47 :: m = y ++ 47 :: n) : x = y ∧ m = n := by
  have hone : ∀ {x y m n e : Text}, 47 ∉ y → y = x ++ e → 47 :: m = e ++ 47 :: n → x = y ∧ m = n := by
    intro x y m n e hy hxy he
    cases e with
    | nil => exact ⟨by rw [hxy, List.append_nil], (List.cons_eq_cons.1 he).2⟩
    | cons u e =>
      have hu := (List.cons_eq_cons.1 he).1
      rw [hxy, ← hu] at hy
      exact absurd (List.mem_append_right x List.mem_cons_self) hy
  rcases List.append_eq_append_iff.1 h with ⟨e, hxy, he⟩ | ⟨e, hxy, he⟩
  · exact hone hy hxy he
  · obtain ⟨hprovider, hmodel⟩ := hone hx hxy he
    exact ⟨hprovider.symm, hmodel.symm⟩

omit [LinearOrder κ] in
/-- Names without a slash in the provider, which collate apart, do not tie. -/
theorem separated_of_names (hinj : Function.Injective collationKey)
    (hslash : ∀ c, Eligible toLowerCase req env config excluded c → 47 ∉ c.provider) :
    Separated toLowerCase collationKey req env config excluded := by
  intro a b ha hb htied
  have hname : a.provider ++ 47 :: a.model = b.provider ++ 47 :: b.model := by
    have h := hinj htied.name
    rwa [List.append_assoc, List.append_assoc] at h
  obtain ⟨hprovider, hmodel⟩ := slash_inj (hslash a ha) (hslash b hb) hname
  cases a
  cases b
  exact congrArg₂ Candidate.mk hprovider hmodel

end Choice

end Reorder

section Fixed

/-- Two API providers; the name of one is the other's with a part of its model. -/
def slashedProviders : RouterEnv :=
  { twoProviders with
    providers := [text "router", text "router/openai"]
    models := fun provider => if provider == text "router" then [text "openai/gpt-5"] else [text "gpt-5"]
    isAuthed := fun _ => true }

def listedSlashed (cs : List Candidate) : RouteRequestInput := { fallbackToCodex with fallback := none, candidates := some cs }

def viaRouter : Candidate := ⟨text "router", text "openai/gpt-5"⟩

def viaOpenai : Candidate := ⟨text "router/openai", text "gpt-5"⟩

theorem chosen_first {cs : List Candidate}
    (hsorted : (((remainingPool (listedSlashed cs) slashedProviders { denyCodex with deny := [] } ∅).filterMap
      (rankIfEligible id (listedSlashed cs) slashedProviders { denyCodex with deny := [] })).Pairwise fun a b =>
        (compareCandidates (fun s : Text => s.map UInt16.toNat) a b slashedProviders { denyCodex with deny := [] } != .gt) =
          true)) :
    selectCandidate id (fun s : Text => s.map UInt16.toNat) (listedSlashed cs) slashedProviders { denyCodex with deny := [] } ∅ =
      selectRanked id (listedSlashed cs) slashedProviders { denyCodex with deny := [] }
        ⟨(remainingPool (listedSlashed cs) slashedProviders { denyCodex with deny := [] } ∅).filterMap
            (rankIfEligible id (listedSlashed cs) slashedProviders { denyCodex with deny := [] }),
          (remainingPool (listedSlashed cs) slashedProviders { denyCodex with deny := [] } ∅).filterMap
            (rejectIfNot id (listedSlashed cs) slashedProviders { denyCodex with deny := [] })⟩ := by
  rw [selectCandidate_eq]
  unfold selectFrom rankPool
  rw [List.mergeSort_of_pairwise hsorted]

end Fixed

end LlmGateway.Router
