import Mathlib.Data.Finset.Insert
import Mathlib.Data.List.Sort
import LlmGateway.Lib.Grouping
import LlmGateway.Lib.Percentile
import LlmGateway.Router.Pricing

/-!
# Priors

`lcr-priors.ts`: what the router learns from the recorded requests, with exact numbers.

* `loadLcrPriorRows` — the rows of the recorder, with the mark of a continued session;
* `computeLcrPriors` — output priors, calibration and accuracy buckets, of the rows in scope.

A number that is missing or not finite is `none`.
-/

namespace LlmGateway.Router

open LlmGateway.Lib Utf16 Substring Sessions.Kit

/-! ## Rows -/

inductive PriorsScope where
  | global
  | principal
  | off
deriving DecidableEq

structure Derivation where
  promptChars : ℚ
  contentClass : ContentType

/-- A row of `readLcrPriorRows`, which are in the order of their `datetime_utc`. -/
structure LcrPriorSourceRow where
  cli : Text
  model : Text
  derived_prompt_chars : Option ℚ
  derived_content_class : Option Text
  input_tokens : Option ℚ
  output_tokens : Option ℚ
  cache_read_tokens : Option ℚ
  cache_creation_tokens : Option ℚ
  cost_basis : Option Text
  owner_principal : Option Text
  session_id : Option Text
  cost_usd : Option ℚ
  route_est_cost_usd : Option ℚ

structure LcrPriorRow where
  provider : Text
  model : Text
  derivation : Option Derivation
  inputTokens : Option ℚ
  outputTokens : Option ℚ
  cacheReadTokens : Option ℚ
  cacheCreationTokens : Option ℚ
  costUsd : Option ℚ
  costBasis : Option Text
  routeEstCostUsd : Option ℚ
  ownerPrincipal : Option Text
  sessionContinued : Bool

def toDerivation (row : LcrPriorSourceRow) : Option Derivation :=
  match row.derived_prompt_chars, row.derived_content_class with
  | some chars, some cls =>
    if cls = text "prose" then some ⟨chars, .prose⟩
    else if cls = text "code" then some ⟨chars, .code⟩
    else if cls = text "cjk" then some ⟨chars, .cjk⟩
    else none
  | _, _ => none

def toLcrPriorRow (row : LcrPriorSourceRow) (sessionContinued : Bool) : LcrPriorRow where
  provider := row.cli
  model := row.model
  derivation := toDerivation row
  inputTokens := row.input_tokens
  outputTokens := row.output_tokens
  cacheReadTokens := row.cache_read_tokens
  cacheCreationTokens := row.cache_creation_tokens
  costUsd := row.cost_usd
  costBasis := row.cost_basis
  routeEstCostUsd := row.route_est_cost_usd
  ownerPrincipal := row.owner_principal
  sessionContinued

/-- The session of a mistral row, if it has one. -/
def mistralSession (row : LcrPriorSourceRow) : Option Text :=
  if row.cli = text "mistral" then row.session_id.filter fun s => s ≠ [] else none

/-- The rows, with the sessions that were seen before them. -/
def markContinued (seenMistralSessions : Finset Text) : List LcrPriorSourceRow → List LcrPriorRow
  | [] => []
  | row :: rows =>
    match mistralSession row with
    | none => toLcrPriorRow row false :: markContinued seenMistralSessions rows
    | some s =>
      toLcrPriorRow row (s ∈ seenMistralSessions) :: markContinued (insert s seenMistralSessions) rows

def loadLcrPriorRows (db : List LcrPriorSourceRow) : List LcrPriorRow := markContinued ∅ db

/-! ## Buckets -/

structure RecordedPrior where
  median : ℚ
  p90 : ℚ
  samples : ℕ
deriving DecidableEq

structure CalibrationBucket where
  k : ℚ
  samples : ℕ
  p10 : ℚ
  p50 : ℚ
  p90 : ℚ
  confidence : Confidence
deriving DecidableEq

structure AccuracyBucket where
  provider : Text
  model : Text
  costBasis : Text
  medianAccuracy : ℚ
  samples : ℕ
  p10 : ℚ
  p50 : ℚ
  p90 : ℚ
deriving DecidableEq

structure LcrPriors where
  outputPriors : JsMap Text RecordedPrior
  calibration : JsMap Text CalibrationBucket
  accuracyByBasis : JsMap Text AccuracyBucket

structure ComputeLcrPriorsOptions where
  priorsScope : PriorsScope
  ownerPrincipal : Option Text

def CONFIDENCE_HIGH_MIN_SAMPLES : ℕ := 30
def CONFIDENCE_HIGH_MAX_SPREAD : ℚ := 15 / 10
def CONFIDENCE_MEDIUM_MIN_SAMPLES : ℕ := 10
def CONFIDENCE_MEDIUM_MAX_SPREAD : ℚ := 3

def outputKey (provider model : Text) : Text := provider ++ text ":" ++ model

/-- The name of a content type. -/
def ContentType.name : ContentType → Text
  | .prose => text "prose"
  | .code => text "code"
  | .cjk => text "cjk"

def calibrationKey (contentType : ContentType) (family : Text) : Text := contentType.name ++ text ":" ++ family

def accuracyKey (provider model costBasis : Text) : Text := provider ++ text ":" ++ model ++ text "::" ++ costBasis

/-- A disjoint family reports the fresh tokens; the cached ones are added back. -/
def reconstructActualInput (row : LcrPriorRow) (family : Text) : ℚ :=
  let input := row.inputTokens.getD 0
  if (text "claude-").isPrefixOf family then input + row.cacheReadTokens.getD 0 + row.cacheCreationTokens.getD 0 else input

def confidenceFromQuality (samples : ℕ) (p10 p90 : ℚ) : Confidence :=
  if p10 ≤ 0 then .low
  else
    let spread := p90 / p10
    if CONFIDENCE_HIGH_MIN_SAMPLES ≤ samples ∧ spread ≤ CONFIDENCE_HIGH_MAX_SPREAD then .high
    else if CONFIDENCE_MEDIUM_MIN_SAMPLES ≤ samples ∧ spread ≤ CONFIDENCE_MEDIUM_MAX_SPREAD then .medium
    else .low

/-- `key.lastIndexOf(pat)` -/
def lastIndexOf (s pat : Text) : Option ℕ := (search pat.reverse s.reverse).map fun i => s.length - i - pat.length

section Compute

variable (toLowerCase : Text → Text)

/-- `estimateInputTokensFromDerived` of `token-estimator.ts`, without a calibration. -/
def estimateInputTokensFromDerived (derived : Derivation) (family : Text) : ℚ :=
  if derived.promptChars ≤ 0 then 0
  else ⌈derived.promptChars / derived.contentClass.divisor * familyMultiplier toLowerCase family⌉

/-- (1) Any row with a finite count of output tokens. -/
def outputSample (row : LcrPriorRow) : Option (Text × ℚ) :=
  (row.outputTokens.filter fun n => 0 ≤ n).map fun n => (outputKey row.provider row.model, n)

/-- (2) The actual input over its estimate, of a row that can be calibrated. -/
def calibrationSample (row : LcrPriorRow) : Option (Text × ℚ) :=
  let family := modelIdToFamily toLowerCase row.model
  match row.derivation with
  | none => none
  | some derivation =>
    if family ≠ text "unknown" ∧ row.sessionContinued = false ∧ row.inputTokens.isSome then
      let base := estimateInputTokensFromDerived toLowerCase derivation family
      if 0 < base then some (calibrationKey derivation.contentClass family, reconstructActualInput row family / base)
      else none
    else none

/-- (3) The estimated cost over the actual one. -/
def accuracySample (row : LcrPriorRow) : Option (Text × ℚ) :=
  match row.routeEstCostUsd, row.costUsd, row.costBasis with
  | some est, some cost, some basis =>
    if 0 < cost ∧ basis ≠ [] then some (accuracyKey row.provider row.model basis, est / cost) else none
  | _, _, _ => none

def sortAsc (values : List ℚ) : List ℚ := values.insertionSort (· ≤ ·)

def toOutputPrior (values : List ℚ) : RecordedPrior where
  median := percentile (sortAsc values) (5 / 10)
  p90 := percentile (sortAsc values) (9 / 10)
  samples := values.length

def toCalibrationBucket (values : List ℚ) : CalibrationBucket where
  k := percentile (sortAsc values) (5 / 10)
  samples := values.length
  p10 := percentile (sortAsc values) (1 / 10)
  p50 := percentile (sortAsc values) (5 / 10)
  p90 := percentile (sortAsc values) (9 / 10)
  confidence :=
    confidenceFromQuality values.length (percentile (sortAsc values) (1 / 10)) (percentile (sortAsc values) (9 / 10))

/-- The parts of the key are recovered from its text, which has both separators. -/
def toAccuracyBucket (key : Text) (values : List ℚ) : AccuracyBucket :=
  let sep := (lastIndexOf key (text "::")).getD 0
  let pm := key.take sep
  let colon := (indexOf pm (text ":") 0).getD 0
  { provider := pm.take colon
    model := pm.drop (colon + 1)
    costBasis := key.drop (sep + 2)
    medianAccuracy := percentile (sortAsc values) (5 / 10)
    samples := values.length
    p10 := percentile (sortAsc values) (1 / 10)
    p50 := percentile (sortAsc values) (5 / 10)
    p90 := percentile (sortAsc values) (9 / 10) }

/-- The samples of the loop over the rows. -/
structure Samples where
  output : JsMap Text (List ℚ)
  calibration : JsMap Text (List ℚ)
  accuracy : JsMap Text (List ℚ)

def Samples.add (acc : Samples) (row : LcrPriorRow) : Samples where
  output := acc.output.collect (outputSample row)
  calibration := acc.calibration.collect (calibrationSample toLowerCase row)
  accuracy := acc.accuracy.collect (accuracySample row)

def Samples.empty : Samples := ⟨Table.empty, Table.empty, Table.empty⟩

/-- The rows of the scope; no scope for "off", nor for a principal that is not given. -/
def scopedRows (rows : List LcrPriorRow) (opts : ComputeLcrPriorsOptions) : Option (List LcrPriorRow) :=
  match opts.priorsScope with
  | .off => none
  | .principal => opts.ownerPrincipal.map fun owner => rows.filter fun r => r.ownerPrincipal = some owner
  | .global => some rows

def computeLcrPriors (rows : List LcrPriorRow) (opts : ComputeLcrPriorsOptions) : LcrPriors :=
  match scopedRows rows opts with
  | none => ⟨Table.empty, Table.empty, Table.empty⟩
  | some inScope =>
    let samples := inScope.foldl (Samples.add toLowerCase) Samples.empty
    { outputPriors := samples.output.tabulate fun _ values => toOutputPrior values
      calibration := samples.calibration.tabulate fun _ values => toCalibrationBucket values
      accuracyByBasis := samples.accuracy.tabulate toAccuracyBucket }

def computeLcrPriorsFromDb (db : List LcrPriorSourceRow) (opts : ComputeLcrPriorsOptions) : LcrPriors :=
  computeLcrPriors toLowerCase (loadLcrPriorRows db) opts

end Compute

/-! ## Buckets and their samples -/

/-- The same buckets under the same keys. -/
structure SamePriors (p p' : LcrPriors) : Prop where
  outputPriors : ∀ k, p.outputPriors.get k = p'.outputPriors.get k
  calibration : ∀ k, p.calibration.get k = p'.calibration.get k
  accuracyByBasis : ∀ k, p.accuracyByBasis.get k = p'.accuracyByBasis.get k

/-- The samples of a key, in the order of the rows. -/
def samplesAt (sample : LcrPriorRow → Option (Text × ℚ)) (rows : List LcrPriorRow) (k : Text) : List ℚ :=
  rows.filterMap fun row => JsMap.valueAt k (sample row)

/-- The samples of a key that are in scope; none outside it. -/
def samplesInScope (sample : LcrPriorRow → Option (Text × ℚ)) (rows : List LcrPriorRow) (opts : ComputeLcrPriorsOptions)
    (k : Text) : List ℚ :=
  ((scopedRows rows opts).map fun inScope => samplesAt sample inScope k).getD []

section Get

variable {toLowerCase : Text → Text} {rows rows' : List LcrPriorRow} {opts : ComputeLcrPriorsOptions}

/-- The three parts of the loop do not see each other. -/
theorem foldl_add (acc : Samples) :
    rows.foldl (Samples.add toLowerCase) acc =
      ⟨rows.foldl (fun m row => m.collect (outputSample row)) acc.output,
        rows.foldl (fun m row => m.collect (calibrationSample toLowerCase row)) acc.calibration,
        rows.foldl (fun m row => m.collect (accuracySample row)) acc.accuracy⟩ := by
  induction rows generalizing acc with
  | nil => rfl
  | cons row rows ih => exact ih (acc.add toLowerCase row)

theorem get_outputPriors (k : Text) :
    (computeLcrPriors toLowerCase rows opts).outputPriors.get k =
      (JsMap.ifAny (samplesInScope outputSample rows opts k)).map toOutputPrior := by
  unfold computeLcrPriors samplesInScope
  cases scopedRows rows opts with
  | none => rfl
  | some inScope =>
    dsimp only
    rw [foldl_add, JsMap.get_tabulate]
    exact congrArg (Option.map _) (JsMap.get_foldl_collect outputSample inScope k)

theorem get_calibration (k : Text) :
    (computeLcrPriors toLowerCase rows opts).calibration.get k =
      (JsMap.ifAny (samplesInScope (calibrationSample toLowerCase) rows opts k)).map toCalibrationBucket := by
  unfold computeLcrPriors samplesInScope
  cases scopedRows rows opts with
  | none => rfl
  | some inScope =>
    dsimp only
    rw [foldl_add, JsMap.get_tabulate]
    exact congrArg (Option.map _) (JsMap.get_foldl_collect (calibrationSample toLowerCase) inScope k)

theorem get_accuracyByBasis (k : Text) :
    (computeLcrPriors toLowerCase rows opts).accuracyByBasis.get k =
      (JsMap.ifAny (samplesInScope accuracySample rows opts k)).map (toAccuracyBucket k) := by
  unfold computeLcrPriors samplesInScope
  cases scopedRows rows opts with
  | none => rfl
  | some inScope =>
    dsimp only
    rw [foldl_add, JsMap.get_tabulate]
    exact congrArg (Option.map _) (JsMap.get_foldl_collect accuracySample inScope k)

/-! ### The order of the rows -/

theorem sortAsc_perm {vs ws : List ℚ} (h : vs.Perm ws) : sortAsc vs = sortAsc ws := by
  have hperm : (sortAsc vs).Perm (sortAsc ws) :=
    (List.perm_insertionSort _ vs).trans (h.trans (List.perm_insertionSort _ ws).symm)
  exact hperm.eq_of_pairwise (fun _ _ _ _ => le_antisymm) (List.pairwise_insertionSort _ vs) (List.pairwise_insertionSort _ ws)

/-- A summary of samples does not see their order. -/
theorem summary_perm {vs ws : List ℚ} (h : vs.Perm ws) (k : Text) :
    (JsMap.ifAny vs).map toOutputPrior = (JsMap.ifAny ws).map toOutputPrior ∧
      (JsMap.ifAny vs).map toCalibrationBucket = (JsMap.ifAny ws).map toCalibrationBucket ∧
      (JsMap.ifAny vs).map (toAccuracyBucket k) = (JsMap.ifAny ws).map (toAccuracyBucket k) := by
  unfold JsMap.ifAny
  by_cases hv : vs = []
  · subst hv
    rw [List.nil_perm.1 h]
    exact ⟨rfl, rfl, rfl⟩
  · have hw : ws ≠ [] := by
      rintro rfl
      exact hv (List.perm_nil.1 h)
    rw [if_neg hv, if_neg hw]
    simp only [Option.map_some, toOutputPrior, toCalibrationBucket, toAccuracyBucket, sortAsc_perm h, h.length_eq, and_self]

theorem samplesInScope_perm (sample : LcrPriorRow → Option (Text × ℚ)) (h : rows.Perm rows') (k : Text) :
    (samplesInScope sample rows opts k).Perm (samplesInScope sample rows' opts k) := by
  unfold samplesInScope scopedRows
  cases opts.priorsScope with
  | off => exact .refl _
  | global => exact h.filterMap _
  | principal =>
    cases opts.ownerPrincipal with
    | none => exact .refl _
    | some owner => exact (h.filter _).filterMap _

/-- **The priors do not depend on the order of the rows.** -/
theorem computeLcrPriors_perm (h : rows.Perm rows') :
    SamePriors (computeLcrPriors toLowerCase rows opts) (computeLcrPriors toLowerCase rows' opts) := by
  refine ⟨fun k => ?_, fun k => ?_, fun k => ?_⟩
  · rw [get_outputPriors, get_outputPriors]
    exact (summary_perm (samplesInScope_perm outputSample h k) k).1
  · rw [get_calibration, get_calibration]
    exact (summary_perm (samplesInScope_perm (calibrationSample toLowerCase) h k) k).2.1
  · rw [get_accuracyByBasis, get_accuracyByBasis]
    exact (summary_perm (samplesInScope_perm accuracySample h k) k).2.2

/-! ### Percentiles -/

/-- Ascending figures, between the least and the greatest of the samples. -/
def OrderedWithin (samples figures : List ℚ) : Prop :=
  figures.Pairwise (· ≤ ·) ∧ ∀ x ∈ figures, ∃ lo ∈ samples, ∃ hi ∈ samples, lo ≤ x ∧ x ≤ hi

theorem percentiles_ordered {vs : List ℚ} (hne : vs ≠ []) {qs : List ℚ} (hqs : qs.Pairwise (· ≤ ·))
    (hunit : ∀ q ∈ qs, 0 ≤ q ∧ q ≤ 1) : OrderedWithin vs (qs.map (percentile (sortAsc vs))) := by
  have hsorted : (sortAsc vs).Pairwise (· ≤ ·) := List.pairwise_insertionSort _ vs
  have hperm : (sortAsc vs).Perm vs := List.perm_insertionSort _ vs
  have hsortedNe : sortAsc vs ≠ [] := by
    intro h
    rw [h] at hperm
    exact hne (List.nil_perm.1 hperm)
  constructor
  · rw [List.pairwise_map]
    refine hqs.imp_of_mem ?_
    intro q q' hq hq' hle
    exact percentile_mono hsorted hsortedNe (hunit q hq).1 hle (hunit q' hq').2
  · intro x hx
    obtain ⟨q, hq, rfl⟩ := List.mem_map.1 hx
    obtain ⟨lo, hlo, hi, hhi, hbounds⟩ := percentile_mem hsorted hsortedNe (hunit q hq).1 (hunit q hq).2
    exact ⟨lo, hperm.mem_iff.1 hlo, hi, hperm.mem_iff.1 hhi, hbounds⟩

theorem of_get_summary {β : Type*} {f : List ℚ → β} {vs : List ℚ} {b : β} (h : (JsMap.ifAny vs).map f = some b) :
    vs ≠ [] ∧ b = f vs := by
  unfold JsMap.ifAny at h
  split at h
  · cases h
  · rename_i hne
    exact ⟨hne, (Option.some.inj h).symm⟩

theorem three_percentiles {vs : List ℚ} (hne : vs ≠ []) :
    OrderedWithin vs [percentile (sortAsc vs) (1 / 10), percentile (sortAsc vs) (5 / 10), percentile (sortAsc vs) (9 / 10)] := by
  apply @percentiles_ordered _ hne [1 / 10, 5 / 10, 9 / 10]
  · norm_num
  · norm_num

/-- **The percentiles of every bucket are in order, between its samples.** -/
structure BucketsOrdered (toLowerCase : Text → Text) (rows : List LcrPriorRow) (opts : ComputeLcrPriorsOptions) : Prop where
  output : ∀ k b, (computeLcrPriors toLowerCase rows opts).outputPriors.get k = some b →
    OrderedWithin (samplesInScope outputSample rows opts k) [b.median, b.p90]
  calibration : ∀ k b, (computeLcrPriors toLowerCase rows opts).calibration.get k = some b →
    OrderedWithin (samplesInScope (calibrationSample toLowerCase) rows opts k) [b.p10, b.p50, b.p90]
  accuracy : ∀ k b, (computeLcrPriors toLowerCase rows opts).accuracyByBasis.get k = some b →
    OrderedWithin (samplesInScope accuracySample rows opts k) [b.p10, b.p50, b.p90]

theorem bucketsOrdered : BucketsOrdered toLowerCase rows opts where
  output := by
    intro k b hb
    rw [get_outputPriors] at hb
    obtain ⟨hne, rfl⟩ := of_get_summary hb
    have h := three_percentiles hne
    exact ⟨(List.pairwise_cons.1 h.1).2, fun x hx => h.2 x (List.mem_cons_of_mem _ hx)⟩
  calibration := by
    intro k b hb
    rw [get_calibration] at hb
    obtain ⟨hne, rfl⟩ := of_get_summary hb
    exact three_percentiles hne
  accuracy := by
    intro k b hb
    rw [get_accuracyByBasis] at hb
    obtain ⟨hne, rfl⟩ := of_get_summary hb
    exact three_percentiles hne

end Get

end LlmGateway.Router
