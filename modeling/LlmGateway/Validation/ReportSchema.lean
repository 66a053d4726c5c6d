import LlmGateway.Lib.Schema
import LlmGateway.Validation.Report

/-!
# The report as JSON

* `validationReportV1ContentSchema` — the schema a stored report is read with;
* `validationReportV1ContentSchema_reportValue` — a report whose names are not empty is read back as it was.
-/

namespace LlmGateway.Validation

open LlmGateway.Lib LlmGateway.Lib.Utf16 LlmGateway.Lib.Schema

def intents : List Text :=
  [text "validate", text "second_opinion", text "red_team", text "consensus", text "ask_model", text "review"]

/-! ## Writing -/

/-- A member, unless its value is `undefined`. -/
def member? (name : String) (o : Option Text) : List (String × Value) := (o.map fun s => (name, Value.str s)).toList

def texts (l : List Text) : Value := .arr (l.map .str)

def originalRequestValue (request : OriginalRequest) : Value :=
  .obj (member? "question" request.question ++ member? "content" request.content ++ member? "focus" request.focus)

def perModelOutputValue (output : PerModelOutput) : Value := .obj [
  ("provider", .str output.provider),
  ("model", nullOr .str output.model),
  ("status", .str output.status.toText),
  ("verdict", nullOr .str output.verdict),
  ("rationale", nullOr .str output.rationale),
  ("risks", texts output.risks),
  ("jobId", nullOr .str output.jobId),
  ("correlationId", nullOr .str output.correlationId),
  ("warning", nullOr .str output.warning),
  ("error", nullOr .str output.error)]

def disagreementsValue (disagreements : Disagreements) : Value := .obj [
  ("hasMaterialDisagreement", .bool disagreements.hasMaterialDisagreement),
  ("summary", .str disagreements.summary),
  ("signals", texts disagreements.signals)]

def rawJobReferenceValue (reference : RawJobReference) : Value := .obj [
  ("jobId", .str reference.jobId),
  ("correlationId", .str reference.correlationId),
  ("statusTool", .str (text "job_status")),
  ("resultTool", .str (text "job_result"))]

def synthesisValue (synthesis : Synthesis) : Value := .obj [
  ("status", .str synthesis.status.toText),
  ("judgeModel", nullOr .str synthesis.judgeModel),
  ("rawJobReference", nullOr rawJobReferenceValue synthesis.rawJobReference),
  ("note", .str synthesis.note)]

def reportValue (content : ValidationReportV1Content) : Value := .obj [
  ("validationId", .str content.validationId),
  ("status", .str content.status.toText),
  ("startedAt", .str content.startedAt),
  ("intent", .str content.intent),
  ("originalRequest", originalRequestValue content.originalRequest),
  ("modelList", texts content.modelList),
  ("perModelOutputs", .arr (content.perModelOutputs.map perModelOutputValue)),
  ("disagreements", disagreementsValue content.disagreements),
  ("finalRecommendation", .str content.finalRecommendation),
  ("confidence", .str content.confidence.toText),
  ("limitations", texts content.limitations),
  ("jobIds", texts content.jobIds),
  ("synthesis", synthesisValue content.synthesis)]

/-! ## Reading -/

def rawJobReferenceSchema (v : Value) : Option RawJobReference := do
  let m ← strict ["jobId", "correlationId", "statusTool", "resultTool"] v
  let jobId ← required nonempty (field "jobId" m)
  let correlationId ← required nonempty (field "correlationId" m)
  let _ ← required (oneOf id [text "job_status"]) (field "statusTool" m)
  let _ ← required (oneOf id [text "job_result"]) (field "resultTool" m)
  return ⟨jobId, correlationId⟩

def originalRequestSchema (v : Value) : Option OriginalRequest := do
  let m ← strict ["question", "content", "focus"] v
  let question ← optional string (field "question" m)
  let content ← optional string (field "content" m)
  let focus ← optional string (field "focus" m)
  return ⟨question, content, focus⟩

def perModelOutputSchema (v : Value) : Option PerModelOutput := do
  let m ← strict ["provider", "model", "status", "verdict", "rationale", "risks", "jobId", "correlationId", "warning",
    "error"] v
  let provider ← required nonempty (field "provider" m)
  let model ← required (nullable string) (field "model" m)
  let status ← required (oneOf NormalizedValidationStatus.toText
    [.running, .completed, .failed, .canceled, .orphaned, .skipped]) (field "status" m)
  let verdict ← required (nullable string) (field "verdict" m)
  let rationale ← required (nullable string) (field "rationale" m)
  let risks ← required (array string) (field "risks" m)
  let jobId ← required (nullable string) (field "jobId" m)
  let correlationId ← required (nullable string) (field "correlationId" m)
  let warning ← required (nullable string) (field "warning" m)
  let error ← required (nullable string) (field "error" m)
  return ⟨provider, model, status, verdict, rationale, risks, jobId, correlationId, warning, error⟩

def disagreementsSchema (v : Value) : Option Disagreements := do
  let m ← strict ["hasMaterialDisagreement", "summary", "signals"] v
  let hasMaterialDisagreement ← required boolean (field "hasMaterialDisagreement" m)
  let summary ← required string (field "summary" m)
  let signals ← required (array string) (field "signals" m)
  return ⟨hasMaterialDisagreement, summary, signals⟩

def synthesisSchema (v : Value) : Option Synthesis := do
  let m ← strict ["status", "judgeModel", "rawJobReference", "note"] v
  let status ← required (oneOf SynthesisStatus.toText
    [.not_requested, .waiting_for_provider_results, .running, .skipped, .completed]) (field "status" m)
  let judgeModel ← required (nullable string) (field "judgeModel" m)
  let rawJobReference ← required (nullable rawJobReferenceSchema) (field "rawJobReference" m)
  let note ← required string (field "note" m)
  return ⟨status, judgeModel, rawJobReference, note⟩

def validationReportV1ContentSchema (v : Value) : Option ValidationReportV1Content := do
  let m ← strict ["validationId", "status", "startedAt", "intent", "originalRequest", "modelList", "perModelOutputs",
    "disagreements", "finalRecommendation", "confidence", "limitations", "jobIds", "synthesis"] v
  let validationId ← required nonempty (field "validationId" m)
  let status ← required (oneOf ValidationReportStatus.toText
    [.running, .incomplete, .not_started, .completed]) (field "status" m)
  let startedAt ← required nonempty (field "startedAt" m)
  let intent ← required (oneOf id intents) (field "intent" m)
  let originalRequest ← required originalRequestSchema (field "originalRequest" m)
  let modelList ← required (array nonempty) (field "modelList" m)
  let perModelOutputs ← required (array perModelOutputSchema) (field "perModelOutputs" m)
  let disagreements ← required disagreementsSchema (field "disagreements" m)
  let finalRecommendation ← required string (field "finalRecommendation" m)
  let confidence ← required (oneOf ValidationReportConfidence.toText [.none, .low, .medium, .high])
    (field "confidence" m)
  let limitations ← required (array string) (field "limitations" m)
  let jobIds ← required (array string) (field "jobIds" m)
  let synthesis ← required synthesisSchema (field "synthesis" m)
  return ⟨validationId, status, startedAt, intent, originalRequest, modelList, perModelOutputs, disagreements,
    finalRecommendation, confidence, limitations, jobIds, synthesis⟩

/-! ## Reading back -/

theorem array_texts (l : List Text) : array string (texts l) = some l := array_map fun _ _ => rfl

theorem nullable_str (o : Option Text) : nullable string (nullOr .str o) = some o :=
  nullable_write fun _ _ => ⟨rfl, by simp⟩

theorem rawJobReferenceSchema_value {reference : RawJobReference} (hj : reference.jobId ≠ [])
    (hc : reference.correlationId ≠ []) :
    rawJobReferenceSchema (rawJobReferenceValue reference) = some reference := by
  obtain ⟨jobId, correlationId⟩ := reference
  change ((nonempty (.str jobId)).bind fun j => (nonempty (.str correlationId)).bind fun c =>
    some (⟨j, c⟩ : RawJobReference)) = _
  rw [nonempty_str hj, nonempty_str hc]
  rfl

theorem originalRequestSchema_value (request : OriginalRequest) :
    originalRequestSchema (originalRequestValue request) = some request := by
  obtain ⟨question, content, focus⟩ := request
  cases question <;> cases content <;> cases focus <;> rfl

theorem status_read (status : NormalizedValidationStatus) : oneOf NormalizedValidationStatus.toText
    [.running, .completed, .failed, .canceled, .orphaned, .skipped] (.str status.toText) = some status := by
  cases status <;> rfl

theorem perModelOutputSchema_value {output : PerModelOutput} (hp : output.provider ≠ []) :
    perModelOutputSchema (perModelOutputValue output) = some output := by
  obtain ⟨provider, model, status, verdict, rationale, risks, jobId, correlationId, warning, error⟩ := output
  change ((nonempty (.str provider)).bind fun p => (nullable string (nullOr .str model)).bind fun m =>
    (oneOf NormalizedValidationStatus.toText [.running, .completed, .failed, .canceled, .orphaned, .skipped]
      (.str status.toText)).bind fun s =>
    (nullable string (nullOr .str verdict)).bind fun v => (nullable string (nullOr .str rationale)).bind fun r =>
    (array string (texts risks)).bind fun rs => (nullable string (nullOr .str jobId)).bind fun j =>
    (nullable string (nullOr .str correlationId)).bind fun c => (nullable string (nullOr .str warning)).bind fun w =>
    (nullable string (nullOr .str error)).bind fun e => some (⟨p, m, s, v, r, rs, j, c, w, e⟩ : PerModelOutput)) = _
  rw [nonempty_str hp, status_read, array_texts]
  simp only [nullable_str, Option.bind_some]

theorem disagreementsSchema_value (disagreements : Disagreements) :
    disagreementsSchema (disagreementsValue disagreements) = some disagreements := by
  obtain ⟨hasMaterialDisagreement, summary, signals⟩ := disagreements
  change ((array string (texts signals)).bind fun s =>
    some (⟨hasMaterialDisagreement, summary, s⟩ : Disagreements)) = _
  rw [array_texts]
  rfl

theorem synthesisStatus_read (status : SynthesisStatus) : oneOf SynthesisStatus.toText
    [.not_requested, .waiting_for_provider_results, .running, .skipped, .completed] (.str status.toText) =
      some status := by
  cases status <;> rfl

theorem synthesisSchema_value {synthesis : Synthesis}
    (h : ∀ reference, synthesis.rawJobReference = some reference → reference.jobId ≠ [] ∧ reference.correlationId ≠ []) :
    synthesisSchema (synthesisValue synthesis) = some synthesis := by
  obtain ⟨status, judgeModel, rawJobReference, note⟩ := synthesis
  have href : nullable rawJobReferenceSchema (nullOr rawJobReferenceValue rawJobReference) = some rawJobReference := by
    refine nullable_write fun reference hr => ⟨?_, by simp [rawJobReferenceValue]⟩
    exact rawJobReferenceSchema_value (h reference hr).1 (h reference hr).2
  change ((oneOf SynthesisStatus.toText
      [.not_requested, .waiting_for_provider_results, .running, .skipped, .completed] (.str status.toText)).bind fun s =>
    (nullable string (nullOr .str judgeModel)).bind fun m =>
    (nullable rawJobReferenceSchema (nullOr rawJobReferenceValue rawJobReference)).bind fun r =>
    some (⟨s, m, r, note⟩ : Synthesis)) = _
  rw [synthesisStatus_read, nullable_str, href]
  rfl

theorem reportStatus_read (status : ValidationReportStatus) : oneOf ValidationReportStatus.toText
    [.running, .incomplete, .not_started, .completed] (.str status.toText) = some status := by
  cases status <;> rfl

theorem confidence_read (confidence : ValidationReportConfidence) : oneOf ValidationReportConfidence.toText
    [.none, .low, .medium, .high] (.str confidence.toText) = some confidence := by
  cases confidence <;> rfl

/-- The names that the schema wants are not empty. -/
structure ValidationReportV1Content.Named (content : ValidationReportV1Content) : Prop where
  validationId : content.validationId ≠ []
  startedAt : content.startedAt ≠ []
  intent : content.intent ∈ intents
  modelList : ∀ provider ∈ content.modelList, provider ≠ []
  perModelOutputs : ∀ output ∈ content.perModelOutputs, output.provider ≠ []
  synthesis : ∀ reference, content.synthesis.rawJobReference = some reference →
    reference.jobId ≠ [] ∧ reference.correlationId ≠ []

/-- **What was written is read back.** -/
theorem validationReportV1ContentSchema_reportValue {content : ValidationReportV1Content} (h : content.Named) :
    validationReportV1ContentSchema (reportValue content) = some content := by
  obtain ⟨hid, hat, hintent, hmodels, houtputs, hsynthesis⟩ := h
  obtain ⟨validationId, status, startedAt, intent, originalRequest, modelList, perModelOutputs, disagreements,
    finalRecommendation, confidence, limitations, jobIds, synthesis⟩ := content
  change ((nonempty (.str validationId)).bind fun v => (oneOf ValidationReportStatus.toText
      [.running, .incomplete, .not_started, .completed] (.str status.toText)).bind fun s =>
    (nonempty (.str startedAt)).bind fun a => (oneOf id intents (.str (id intent))).bind fun i =>
    (originalRequestSchema (originalRequestValue originalRequest)).bind fun o =>
    (array nonempty (.arr (modelList.map .str))).bind fun m =>
    (array perModelOutputSchema (.arr (perModelOutputs.map perModelOutputValue))).bind fun p =>
    (disagreementsSchema (disagreementsValue disagreements)).bind fun d => (oneOf ValidationReportConfidence.toText
      [.none, .low, .medium, .high] (.str confidence.toText)).bind fun c => (array string (texts limitations)).bind fun l =>
    (array string (texts jobIds)).bind fun j => (synthesisSchema (synthesisValue synthesis)).bind fun y =>
    some (⟨v, s, a, i, o, m, p, d, finalRecommendation, c, l, j, y⟩ : ValidationReportV1Content)) = _
  have hmodels' : array nonempty (.arr (modelList.map .str)) = some modelList :=
    array_map fun provider hp => nonempty_str (hmodels provider hp)
  have houtputs' : array perModelOutputSchema (.arr (perModelOutputs.map perModelOutputValue)) = some perModelOutputs :=
    array_map fun output ho => perModelOutputSchema_value (houtputs output ho)
  have hintent' : oneOf id intents (.str (id intent)) = some intent := oneOf_name hintent fun _ _ e => e
  rw [nonempty_str hid, reportStatus_read, nonempty_str hat, hintent', originalRequestSchema_value, hmodels', houtputs',
    disagreementsSchema_value, confidence_read, array_texts, array_texts, synthesisSchema_value hsynthesis]
  rfl

end LlmGateway.Validation
