import LlmGateway.Validation.Normalizer
import Mathlib.Data.Finset.Card

/-!
# `validation-report.ts`: the report on the results of a run

* `ValidationReportV1Content` — `structuredContent`, what a receipt hashes and stores;
* `summarizeDisagreement`, `confidenceFor`, `deriveValidationRunStatus`, `buildValidationReport` — the source's functions.

The texts of a report are built from the texts of the jobs; `toLowerCase` is a parameter.
-/

namespace LlmGateway.Validation

open LlmGateway.Lib LlmGateway.Lib.Utf16

/-- `incomplete` is the status `"partial"`. -/
inductive ValidationReportStatus where
  | running
  | incomplete
  | not_started
  | completed
deriving DecidableEq

def ValidationReportStatus.toText : ValidationReportStatus → Text
  | .running => text "running"
  | .incomplete => text "partial"
  | .not_started => text "not_started"
  | .completed => text "completed"

inductive SynthesisStatus where
  | not_requested
  | waiting_for_provider_results
  | running
  | skipped
  | completed
deriving DecidableEq

def SynthesisStatus.toText : SynthesisStatus → Text
  | .not_requested => text "not_requested"
  | .waiting_for_provider_results => text "waiting_for_provider_results"
  | .running => text "running"
  | .skipped => text "skipped"
  | .completed => text "completed"

inductive ValidationReportConfidence where
  | none
  | low
  | medium
  | high
deriving DecidableEq

def ValidationReportConfidence.toText : ValidationReportConfidence → Text
  | .none => text "none"
  | .low => text "low"
  | .medium => text "medium"
  | .high => text "high"

structure OriginalRequest where
  question : Option Text
  content : Option Text
  focus : Option Text
deriving DecidableEq

structure Synthesis where
  status : SynthesisStatus
  judgeModel : Option Text
  rawJobReference : Option RawJobReference
  note : Text
deriving DecidableEq

structure ValidationReportInput where
  validationId : Text
  status : ValidationReportStatus
  startedAt : Text
  intent : Text
  originalRequest : OriginalRequest
  modelList : List Text
  results : List NormalizedValidationResult
  synthesis : Synthesis

structure PerModelOutput where
  provider : Text
  model : Option Text
  status : NormalizedValidationStatus
  verdict : Option Text
  rationale : Option Text
  risks : List Text
  jobId : Option Text
  correlationId : Option Text
  warning : Option Text
  error : Option Text
deriving DecidableEq

structure Disagreements where
  hasMaterialDisagreement : Bool
  summary : Text
  signals : List Text
deriving DecidableEq

/-- `ValidationReport["structuredContent"]` -/
structure ValidationReportV1Content where
  validationId : Text
  status : ValidationReportStatus
  startedAt : Text
  intent : Text
  originalRequest : OriginalRequest
  modelList : List Text
  perModelOutputs : List PerModelOutput
  disagreements : Disagreements
  finalRecommendation : Text
  confidence : ValidationReportConfidence
  limitations : List Text
  jobIds : List Text
  synthesis : Synthesis
deriving DecidableEq

def deriveValidationRunStatus (results : List NormalizedValidationResult) (synthesisStatus : SynthesisStatus) :
    ValidationReportStatus :=
  let dispatched := results.filter fun r => r.status ≠ .skipped
  if dispatched = [] then .not_started
  else
    let allDispatchedTerminal := dispatched.all fun r =>
      r.status = .completed || r.status = .failed || r.status = .canceled || r.status = .orphaned
    let hasSkipped := results.any fun r => r.status = .skipped
    let judgePending := synthesisStatus = .running ∨ synthesisStatus = .waiting_for_provider_results
    if !allDispatchedTerminal ∨ judgePending then (if hasSkipped then .incomplete else .running)
    else .completed

section summaries
variable (lower : LowerCase) (results : List NormalizedValidationResult)

/-- `verdict?.trim().toLowerCase() || null` -/
def normalizeVerdict (verdict : Option Text) : Option Text :=
  (verdict.map fun v => lower.toLowerCase (trim v)).filter fun v => !v.isEmpty

def emptyCompleted : List NormalizedValidationResult :=
  results.filter fun r => r.status = .completed && r.emptyOutput

def completed : List NormalizedValidationResult :=
  results.filter fun r => r.status = .completed && !r.emptyOutput

def terminalProblems : List NormalizedValidationResult :=
  results.filter fun r => r.status = .failed || r.status = .canceled || r.status = .orphaned || r.status = .skipped

def pending : List NormalizedValidationResult :=
  results.filter fun r => r.status = .running || r.verdict = some (text "pending")

/-- The set of the verdicts of the completed results. -/
def verdicts : List Text := ((completed results).filterMap fun r => normalizeVerdict lower r.verdict).dedup

def summarizeDisagreement : Disagreements :=
  let signals :=
    (if 1 < (verdicts lower results).length then
      [text "Completed providers returned " ++ text (toString (verdicts lower results).length) ++
        text " different verdicts."]
    else []) ++
    (terminalProblems results).map (fun r => r.provider ++ text " is " ++ r.status.toText ++ text ".") ++
    (pending results).map (fun r => r.provider ++ text " is still pending.") ++
    (emptyCompleted results).map fun r => r.provider ++
      text " exited successfully but returned no output; its review is unusable and must not be read as agreement."
  let hasMaterialDisagreement :=
    1 < (verdicts lower results).length || !(terminalProblems results).isEmpty || !(pending results).isEmpty ||
      !(emptyCompleted results).isEmpty
  { hasMaterialDisagreement := hasMaterialDisagreement
    summary :=
      if hasMaterialDisagreement then text
        "Do not treat this validation as consensus; inspect the per-model outputs and unresolved states."
      else if completed results ≠ [] then text
        "Completed providers do not show material verdict disagreement in the normalized report."
      else text "No completed provider outputs are available yet."
    signals := signals }

def summarizeLimitations (synthesis : Synthesis) : List Text :=
  (if results.any fun r => r.status = .running then
    [text "Some provider jobs are still running; poll job_status and job_result before treating the report as final."]
  else []) ++
  (if results.any fun r => r.status ≠ .completed then
    [text "Only completed provider outputs are suitable as judge synthesis evidence."]
  else []) ++
  (match synthesis.status with
  | .waiting_for_provider_results =>
    [text "Judge synthesis has not run because provider results still need to be collected."]
  | .skipped => [text "Judge synthesis skipped: " ++ synthesis.note]
  | .not_requested =>
    [text "No explicit judge synthesis was requested; use per-model outputs for the decision."]
  | _ => []) ++
  [text "Large raw outputs are intentionally kept behind job_result references to fit normal MCP client responses."]

def completedCount : ℕ := results.countP fun r => r.status = .completed

def confidenceFor (hasMaterialDisagreement : Bool) : ValidationReportConfidence :=
  if completedCount results = 0 then .none
  else if hasMaterialDisagreement then .low
  else if completedCount results = 1 then .medium
  else .high

def recommendationFor (hasMaterialDisagreement : Bool) : Text :=
  if completedCount results = 0 then
    text "Wait for at least one provider job to complete, then collect job_result before deciding."
  else if hasMaterialDisagreement then
    text "Review the per-model outputs and resolve disagreements manually before acting."
  else text
    "Completed provider outputs show no normalized verdict disagreement; review rationales and risks before acting."

end summaries

def perModelOutput (result : NormalizedValidationResult) : PerModelOutput where
  provider := result.provider
  model := result.model
  status := result.status
  verdict := result.verdict
  rationale := result.rationale
  risks := result.risks
  jobId := result.rawJobReference.map RawJobReference.jobId
  correlationId := result.rawJobReference.map RawJobReference.correlationId
  warning := result.warning
  error := result.error

/-- The truthy job ids. -/
def jobIdsOf (outputs : List PerModelOutput) : List Text :=
  outputs.filterMap fun output => output.jobId.filter fun jobId => !jobId.isEmpty

def buildValidationReport (lower : LowerCase) (input : ValidationReportInput) : ValidationReportV1Content :=
  let perModelOutputs := input.results.map perModelOutput
  let disagreements := summarizeDisagreement lower input.results
  { validationId := input.validationId
    status := input.status
    startedAt := input.startedAt
    intent := input.intent
    originalRequest := input.originalRequest
    modelList := input.modelList
    perModelOutputs := perModelOutputs
    disagreements := disagreements
    finalRecommendation := recommendationFor input.results disagreements.hasMaterialDisagreement
    confidence := confidenceFor input.results disagreements.hasMaterialDisagreement
    limitations := summarizeLimitations input.results input.synthesis
    jobIds := jobIdsOf perModelOutputs
    synthesis := input.synthesis }

/-- `lines.join("\n")` -/
def joinLines (lines : List Text) : Text := ([10] : Text).intercalate lines

def renderHumanReport (content : ValidationReportV1Content) : Text :=
  let models := (text ", ").intercalate content.modelList
  joinLines <|
    [text "Validation report " ++ content.validationId,
      text "Status: " ++ content.status.toText,
      text "Models: " ++ (if models ≠ [] then models else text "none"),
      [],
      text "Per-model outputs:"] ++
    content.perModelOutputs.map (fun output =>
      text "- " ++ output.provider ++ text ": " ++ output.status.toText ++
        ((output.verdict.filter fun v => !v.isEmpty).elim [] fun v => text " verdict=" ++ v) ++
        ((output.jobId.filter fun j => !j.isEmpty).elim [] fun j => text " job=" ++ j)) ++
    [[],
      text "Disagreement: " ++ content.disagreements.summary,
      text "Recommendation: " ++ content.finalRecommendation,
      text "Confidence: " ++ content.confidence.toText,
      [],
      text "Limitations:"] ++
    content.limitations.map fun limitation => text "- " ++ limitation

/-! ## Agreement -/

section agreement
variable {lower : LowerCase} {results : List NormalizedValidationResult}

theorem normalizeVerdict_ne_none {u : UInt16} {s : Text} (h : isSpace u = false) :
    normalizeVerdict lower (some (u :: s)) ≠ none := by
  obtain ⟨t, ht⟩ := head_trim (s := s) h
  unfold normalizeVerdict
  rw [Option.map_some, ht]
  have hne := lower.toLowerCase_ne_nil (u :: t) (List.cons_ne_nil u t)
  cases hl : lower.toLowerCase (u :: t) with
  | nil => exact absurd hl hne
  | cons v l => simp

/-- A result that is completed and not empty has a verdict that counts. -/
def HasVerdict (lower : LowerCase) (r : NormalizedValidationResult) : Prop :=
  r.status = .completed → r.emptyOutput = false → normalizeVerdict lower r.verdict ≠ none

/-- A list without two different elements. -/
theorem dedup_length_le_one {l : List Text} : l.dedup.length ≤ 1 ↔ ∀ x ∈ l, ∀ y ∈ l, x = y := by
  rw [← List.card_toFinset, Finset.card_le_one]
  simp only [List.mem_toFinset]

/-- **No disagreement**: every result is completed with something said, none reads as pending, and the normalised
verdicts are one. -/
theorem hasMaterialDisagreement_eq_false_iff (hv : ∀ r ∈ results, HasVerdict lower r) :
    (summarizeDisagreement lower results).hasMaterialDisagreement = false ↔
      (∀ r ∈ results, r.status = .completed ∧ r.emptyOutput = false ∧ r.verdict ≠ some (text "pending")) ∧
        ∀ r ∈ results, ∀ r' ∈ results, normalizeVerdict lower r.verdict = normalizeVerdict lower r'.verdict := by
  unfold summarizeDisagreement
  simp only [Bool.or_eq_false_iff, decide_eq_false_iff_not, not_lt, Bool.not_eq_false', List.isEmpty_iff,
    terminalProblems, pending, emptyCompleted, List.filter_eq_nil_iff]
  rw [verdicts, dedup_length_le_one]
  constructor
  · rintro ⟨⟨⟨hone, hproblem⟩, hpending⟩, hempty⟩
    have hall : ∀ r ∈ results, r.status = .completed ∧ r.emptyOutput = false ∧ r.verdict ≠ some (text "pending") := by
      intro r hr
      have h₁ := hproblem r hr
      have h₂ := hpending r hr
      have h₃ := hempty r hr
      simp only [Bool.or_eq_true, decide_eq_true_eq, not_or, Bool.and_eq_true, not_and] at h₁ h₂ h₃
      have hs : r.status = .completed := by
        cases hs : r.status <;> simp_all
      exact ⟨hs, by simpa using h₃ hs, h₂.2⟩
    refine ⟨hall, fun r hr r' hr' => ?_⟩
    obtain ⟨hs, he, -⟩ := hall r hr
    obtain ⟨hs', he', -⟩ := hall r' hr'
    obtain ⟨v, hn⟩ := Option.ne_none_iff_exists'.1 (hv r hr hs he)
    obtain ⟨v', hn'⟩ := Option.ne_none_iff_exists'.1 (hv r' hr' hs' he')
    rw [hn, hn', hone v (List.mem_filterMap.2 ⟨r, by simp [completed, *], hn⟩) v'
      (List.mem_filterMap.2 ⟨r', by simp [completed, *], hn'⟩)]
  · rintro ⟨hall, hone⟩
    refine ⟨⟨⟨?_, ?_⟩, ?_⟩, ?_⟩
    · intro x hx y hy
      obtain ⟨r, hr, hx⟩ := List.mem_filterMap.1 hx
      obtain ⟨r', hr', hy⟩ := List.mem_filterMap.1 hy
      have := hone r (List.mem_filter.1 hr).1 r' (List.mem_filter.1 hr').1
      rw [hx, hy] at this
      exact Option.some.inj this
    · intro r hr
      simp [(hall r hr).1]
    · intro r hr
      simp [hall r hr]
    · intro r hr
      simp [hall r hr]

/-- A confidence of medium or high. -/
theorem confidenceFor_confident {b : Bool} (h : confidenceFor results b = .medium ∨ confidenceFor results b = .high) :
    b = false ∧ 0 < completedCount results ∧ (confidenceFor results b = .high → 2 ≤ completedCount results) := by
  unfold confidenceFor at h ⊢
  split at h
  · obtain h | h := h <;> cases h
  · rename_i hpos
    split at h
    · obtain h | h := h <;> cases h
    · rename_i hb
      refine ⟨eq_false_of_ne_true hb, by omega, fun hhigh => ?_⟩
      rw [if_neg hpos, if_neg hb] at hhigh
      split at hhigh
      · cases hhigh
      · omega

/-- A disagreement leaves no confidence but a low one. -/
theorem confidenceFor_true : confidenceFor results true = .none ∨ confidenceFor results true = .low := by
  unfold confidenceFor
  split
  · exact Or.inl rfl
  · exact Or.inr rfl

end agreement

end LlmGateway.Validation
