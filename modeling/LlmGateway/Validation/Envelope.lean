import LlmGateway.Validation.Evidence

/-!
# `validation-receipt.ts`: how a stored receipt is verified

* `verifiedReceiptEnvelope` and the three comparisons with the run it makes — the source's functions;
* `verifiedReceiptEnvelope_recordOf` — what is minted from one row verifies against the other;
* `verifiedReceiptEnvelope_judge` — and not unless both have a judge, or none.
-/

namespace LlmGateway.Validation

open LlmGateway.Lib LlmGateway.Lib.Utf16 LlmGateway.Lib.Schema

/-- `/^[0-9a-f]{64}$/` -/
def isHex64 (s : Text) : Bool := s.length = 64 && s.all fun u => (48 ≤ u && u ≤ 57) || (97 ≤ u && u ≤ 102)

/-- SHA-256, as far as its digests are written in hexadecimal. -/
structure Sha256 where
  hex : Text → Text
  isHex64_hex : ∀ s, isHex64 (hex s) = true

def equalSha256 (left right : Text) : Bool := isHex64 left && isHex64 right && left = right

def originalRequestMatchesRun (report : ValidationReportV1Content) (request : VerifiedValidationRunRequest) : Bool :=
  report.originalRequest = ⟨request.question, request.content, request.focus⟩

def ValidationRunLink.named (link : ValidationRunLink) : Bool :=
  !link.provider.isEmpty && !link.jobId.isEmpty && !link.correlationId.isEmpty

structure ExpectedOutput where
  provider : Text
  jobId : Option Text
  correlationId : Option Text
  dispatched : Bool

def expectedOutputs (run : ValidationRunRecord) (request : VerifiedValidationRunRequest) : List ExpectedOutput :=
  run.providerLinks.map (fun link => ⟨link.provider, some link.jobId, some link.correlationId, true⟩) ++
    (request.modelList.filter fun provider => !(dispatched run).contains provider).map
      fun provider => ⟨provider, none, none, false⟩

def NormalizedValidationStatus.isTerminal : NormalizedValidationStatus → Bool
  | .completed | .failed | .canceled | .orphaned => true
  | .running | .skipped => false

def outputMatches (actual : PerModelOutput) (expected : ExpectedOutput) : Bool :=
  actual.provider = expected.provider && actual.jobId = expected.jobId &&
    actual.correlationId = expected.correlationId &&
    if expected.dispatched then actual.status.isTerminal else actual.status = .skipped

/-- The two lists are as long as each other, and match one by one. -/
def outputsMatch : List PerModelOutput → List ExpectedOutput → Bool
  | [], [] => true
  | actual :: outputs, expected :: expectations => outputMatches actual expected && outputsMatch outputs expectations
  | _, _ => false

def providerRosterMatchesRun (report : ValidationReportV1Content) (run : ValidationRunRecord)
    (request : VerifiedValidationRunRequest) : Bool :=
  report.modelList = request.modelList &&
    -- one loop in the source
    (run.providerLinks.all ValidationRunLink.named && checkProviderLinks request.modelList [] [] [] run.providerLinks) &&
    outputsMatch report.perModelOutputs (expectedOutputs run request) &&
    report.jobIds = run.providerLinks.map ValidationRunLink.jobId &&
    report.status = if run.providerLinks.isEmpty then .not_started else .completed

def synthesisMatchesRun (report : ValidationReportV1Content) (run : ValidationRunRecord)
    (request : VerifiedValidationRunRequest) : Bool :=
  let synthesis := report.synthesis
  let boundJudge := request.judgeProvider.or (run.judgeLink.map ValidationRunLink.provider)
  match run.judgeLink with
  | some link =>
    link.named && !judgeClashes run link && some link.provider = boundJudge &&
      (run.status = .running || run.status = .finalized) &&
      (synthesis.status = .completed || synthesis.status = .skipped) &&
      synthesis.judgeModel = some link.provider && synthesis.rawJobReference = some ⟨link.jobId, link.correlationId⟩
  | none =>
    match boundJudge with
    | some planned =>
      if synthesis.rawJobReference ≠ none then false
      else if (run.status = .judge_skipped || run.status = .finalized) && synthesis.status = .skipped &&
          synthesis.judgeModel = some planned then true
      else run.status = .finalized && synthesis.status = .not_requested && synthesis.judgeModel = none
    | none =>
      (run.status = .running || run.status = .finalized) && synthesis.status = .not_requested &&
        synthesis.judgeModel = none && synthesis.rawJobReference = none

structure ValidationReceipt where
  schemaVersion : Text
  validationId : Text
  ownerPrincipal : Text
  mintedAt : Text
  intent : Text
  models : List Text
  report : ValidationReportV1Content
  humanReadable : Text
  canonicalSha256 : Text
  prevSha256 : Option Text
  seq : Option ℕ
  signature : Option Text
deriving DecidableEq

/-- What the comparisons of `verifiedReceiptEnvelope` are about. -/
def reportMatches (sha : Sha256) (record : ValidationReceiptRecord) (run : ValidationRunRecord)
    (report : ValidationReportV1Content) (request : VerifiedValidationRunRequest) : Bool :=
  equalSha256 (computeCanonicalSha256 sha.hex report) record.canonicalSha256 &&
    report.validationId = record.validationId && report.modelList = record.models &&
    report.disagreements.hasMaterialDisagreement = record.hasMaterialDisagreement &&
    report.confidence = record.confidence && report.intent = run.intent && report.startedAt = run.createdAt &&
    originalRequestMatchesRun report request && providerRosterMatchesRun report run request &&
    synthesisMatchesRun report run request

def envelopeOf (record : ValidationReceiptRecord) (report : ValidationReportV1Content) : ValidationReceipt where
  schemaVersion := record.schemaVersion
  validationId := record.validationId
  ownerPrincipal := record.ownerPrincipal
  mintedAt := record.mintedAt
  intent := report.intent
  models := report.modelList
  report := report
  humanReadable := renderHumanReport report
  canonicalSha256 := record.canonicalSha256
  prevSha256 := record.prevSha256
  seq := record.seq
  signature := record.signature

def verifiedReceiptEnvelope (sha : Sha256) (record : ValidationReceiptRecord) (run : ValidationRunRecord) :
    Option ValidationReceipt :=
  if record.schemaVersion ≠ validationReceiptSchemaVersion ∨ record.validationId ≠ run.validationId ∨
      record.ownerPrincipal ≠ run.ownerPrincipal ∨ record.prevSha256 ≠ none ∨ record.seq ≠ none ∨
      record.signature ≠ none then none
  else
    match record.reportJson.bind validationReportV1ContentSchema with
    | none => none
    | some report =>
      match parseValidationRunRequest run.requestJson with
      | none => none
      | some request => if reportMatches sha record run report request then some (envelopeOf record report) else none

variable {sha : Sha256} {record : ValidationReceiptRecord} {run row : ValidationRunRecord}

/-- The envelope is a function of the record. -/
theorem verifiedReceiptEnvelope_unique {receipt receipt' : ValidationReceipt}
    (h : verifiedReceiptEnvelope sha record run = some receipt)
    (h' : verifiedReceiptEnvelope sha record row = some receipt') : receipt = receipt' := by
  have hof : ∀ {run : ValidationRunRecord} {receipt : ValidationReceipt},
      verifiedReceiptEnvelope sha record run = some receipt →
        (record.reportJson.bind validationReportV1ContentSchema).map (envelopeOf record) = some receipt := by
    intro run receipt h
    unfold verifiedReceiptEnvelope at h
    split at h
    · cases h
    · split at h
      · cases h
      · rename_i report hreport
        split at h
        · cases h
        · split at h
          · cases h
            rw [hreport]
            rfl
          · cases h
  exact Option.some.inj ((hof h).symm.trans (hof h'))

/-! ## Requests -/

theorem parseValidationRunRequest_spec {requestJson : Option Value} {request : VerifiedValidationRunRequest}
    (h : parseValidationRunRequest requestJson = some request) :
    request.modelList ≠ [] ∧ (∀ provider ∈ request.modelList, provider ≠ []) ∧ request.modelList.Nodup := by
  unfold parseValidationRunRequest at h
  obtain ⟨h, hnodup⟩ := Option.filter_eq_some_iff.1 h
  obtain ⟨v, -, h⟩ := Option.bind_eq_some_iff.1 h
  unfold validationRunRequestSchema at h
  obtain ⟨m, -, h⟩ := Option.bind_eq_some_iff.1 h
  obtain ⟨question, -, h⟩ := Option.bind_eq_some_iff.1 h
  obtain ⟨content, -, h⟩ := Option.bind_eq_some_iff.1 h
  obtain ⟨focus, -, h⟩ := Option.bind_eq_some_iff.1 h
  obtain ⟨modelList, hmodels, h⟩ := Option.bind_eq_some_iff.1 h
  obtain ⟨judgeProvider, -, h⟩ := Option.bind_eq_some_iff.1 h
  cases h
  obtain ⟨hmodels, hne⟩ := Option.filter_eq_some_iff.1 hmodels
  obtain ⟨w, -, hmodels⟩ := Option.bind_eq_some_iff.1 hmodels
  refine ⟨by simpa using hne, fun provider hp => ?_, by simpa using hnodup⟩
  obtain ⟨u, hu⟩ := array_spec hmodels provider hp
  exact nonempty_ne_nil hu

/-! ## Minted records -/

/-- The names in a run are not empty, and its intent is one of the schema's. -/
structure NamedRun (run : ValidationRunRecord) : Prop where
  validationId : run.validationId ≠ []
  createdAt : run.createdAt ≠ []
  intent : run.intent ∈ intents
  links : ∀ link ∈ run.providerLinks, link.named = true
  judge : ∀ link, run.judgeLink = some link → link.named = true

section minted
variable {answers : Answers} {lower : LowerCase} {request : VerifiedValidationRunRequest}
  {results : List AsyncJobResult} {judgeStatus : Option AsyncJobStatus}

theorem ValidationRunLink.named_iff {link : ValidationRunLink} :
    link.named = true ↔ link.provider ≠ [] ∧ link.jobId ≠ [] ∧ link.correlationId ≠ [] := by
  simp [ValidationRunLink.named, and_assoc]

/-- A judge synthesis that a record holds is over. -/
theorem synthesisOf_status (row : ValidationRunRecord) (plannedJudge : Option Text)
    (judgeStatus : Option AsyncJobStatus) :
    (synthesisOf row plannedJudge judgeStatus).status ≠ .running ∧
      (synthesisOf row plannedJudge judgeStatus).status ≠ .waiting_for_provider_results := by
  unfold synthesisOf
  split
  · dsimp only
    split <;> exact ⟨by simp, by simp⟩
  · split <;> exact ⟨by simp, by simp⟩

theorem named_reportOf (lower : LowerCase) (hm : Minting answers row request results judgeStatus) (hn : NamedRun row) :
    (reportOf row lower request (normalizedResults row results) judgeStatus).Named := by
  obtain ⟨hne, hmodels, -⟩ := parseValidationRunRequest_spec hm.parsed
  refine ⟨hn.validationId, hn.createdAt, hn.intent, fun provider hp => ?_, fun output ho => ?_, fun reference hr => ?_⟩
  · change provider ∈ (if request.modelList ≠ [] then request.modelList else _) at hp
    rw [if_pos hne] at hp
    exact hmodels provider hp
  · have hmem := List.mem_map_of_mem (f := PerModelOutput.provider) ho
    rw [(reportOf_attests hm).roster, List.mem_append] at hmem
    obtain hmem | hmem := hmem
    · obtain ⟨link, hl, he⟩ := List.mem_map.1 hmem
      rw [← he]
      exact (ValidationRunLink.named_iff.1 (hn.links link hl)).1
    · exact hmodels _ (List.mem_filter.1 hmem).1
  · change (synthesisOf row request.judgeProvider judgeStatus).rawJobReference = some reference at hr
    unfold synthesisOf at hr
    split at hr
    · rename_i link hlink
      cases hr
      exact (ValidationRunLink.named_iff.1 (hn.judge link hlink)).2
    · split at hr <;> cases hr

theorem status_reportOf (hm : Minting answers row request results judgeStatus) :
    (reportOf row lower request (normalizedResults row results) judgeStatus).status =
      if row.providerLinks.isEmpty then .not_started else .completed := by
  change deriveValidationRunStatus (allResults row request results)
    (synthesisOf row request.judgeProvider judgeStatus).status = _
  have hterminal : ∀ r ∈ normalizedResults row results,
      r.status = .completed ∨ r.status = .failed ∨ r.status = .canceled ∨ r.status = .orphaned := by
    intro r hr
    obtain ⟨link, -, result, -, hv, rfl⟩ := mem_zipWith_iff hm.linked hr
    have ht := hv.terminal
    change result.status.normalized = .completed ∨ result.status.normalized = .failed ∨
      result.status.normalized = .canceled ∨ result.status.normalized = .orphaned
    cases hs : result.status <;> simp_all [AsyncJobStatus.isTerminal, AsyncJobStatus.normalized]
  have hskipped : (skippedResults row request.modelList).filter (fun r => r.status ≠ .skipped) = [] := by
    refine List.filter_eq_nil_iff.2 fun r hr => ?_
    simp [(skipped_of_mem hr).1]
  have hdispatched : (allResults row request results).filter (fun r => r.status ≠ .skipped) =
      normalizedResults row results := by
    rw [allResults, List.filter_append, hskipped, List.append_nil, List.filter_eq_self]
    intro r hr
    obtain h | h | h | h := hterminal r hr <;> simp [h]
  have hempty : normalizedResults row results = [] ↔ row.providerLinks.isEmpty = true := by
    rw [← List.length_eq_zero_iff, normalizedResults, List.length_zipWith, ← hm.linked.length_eq, Nat.min_self,
      List.length_eq_zero_iff, List.isEmpty_iff]
  unfold deriveValidationRunStatus
  dsimp only
  rw [hdispatched]
  by_cases hlinks : row.providerLinks.isEmpty = true
  · rw [if_pos (hempty.2 hlinks), if_pos hlinks]
  · rw [if_neg (mt hempty.1 hlinks), if_neg hlinks, if_neg]
    rintro (hall | hjudge)
    · rw [Bool.not_eq_true', ← Bool.not_eq_true, List.all_eq_true] at hall
      refine hall fun r hr => ?_
      simpa [or_assoc] using hterminal r hr
    · obtain ⟨h₁, h₂⟩ := synthesisOf_status row request.judgeProvider judgeStatus
      exact hjudge.elim h₁ h₂

theorem outputsMatch_append {as bs : List PerModelOutput} {cs ds : List ExpectedOutput}
    (h : outputsMatch as cs = true) (h' : outputsMatch bs ds = true) : outputsMatch (as ++ bs) (cs ++ ds) = true := by
  induction as generalizing cs with
  | nil =>
    cases cs with
    | nil => exact h'
    | cons c cs => cases h
  | cons a as ih =>
    cases cs with
    | nil => cases h
    | cons c cs =>
      unfold outputsMatch at h
      rw [Bool.and_eq_true] at h
      rw [List.cons_append, List.cons_append, outputsMatch, Bool.and_eq_true]
      exact ⟨h.1, ih h.2⟩

theorem outputsMatch_linked {links : List ValidationRunLink} (h : List.Forall₂ (Verified answers row) links results) :
    outputsMatch
      (List.zipWith (fun link result => perModelOutput (normalizeJobResult link.provider none result)) links results)
      (links.map fun link => ⟨link.provider, some link.jobId, some link.correlationId, true⟩) = true := by
  induction h with
  | nil => rfl
  | @cons link result links results hv _ ih =>
    rw [List.zipWith_cons_cons, List.map_cons, outputsMatch, Bool.and_eq_true]
    refine ⟨?_, ih⟩
    unfold outputMatches
    simp only [Bool.and_eq_true, decide_eq_true_eq]
    refine ⟨⟨⟨rfl, ?_⟩, ?_⟩, ?_⟩
    · exact congrArg some hv.jobId
    · exact congrArg some hv.correlationId
    · have ht := hv.terminal
      change result.status.normalized.isTerminal = true
      cases hs : result.status <;> simp_all [AsyncJobStatus.isTerminal, AsyncJobStatus.normalized,
        NormalizedValidationStatus.isTerminal]

theorem outputsMatch_skipped (l : List Text) (reason : Text) :
    outputsMatch ((l.map fun provider => normalizeSkippedProvider provider reason).map perModelOutput)
      (l.map fun provider => ⟨provider, none, none, false⟩) = true := by
  induction l with
  | nil => rfl
  | cons provider l ih =>
    rw [List.map_cons, List.map_cons, List.map_cons, outputsMatch, Bool.and_eq_true]
    refine ⟨?_, ih⟩
    simp [outputMatches, perModelOutput, normalizeSkippedProvider]

theorem jobIds_reportOf (hm : Minting answers row request results judgeStatus) (hn : NamedRun row) :
    (reportOf row lower request (normalizedResults row results) judgeStatus).jobIds =
      row.providerLinks.map ValidationRunLink.jobId := by
  change jobIdsOf (reportOf row lower request (normalizedResults row results) judgeStatus).perModelOutputs = _
  rw [(reportOf_attests hm).outputs]
  have hskipped : jobIdsOf ((skippedResults row request.modelList).map perModelOutput) = [] := by
    refine List.filterMap_eq_nil_iff.2 fun output ho => ?_
    obtain ⟨r, hr, rfl⟩ := List.mem_map.1 ho
    obtain ⟨provider, -, rfl⟩ := List.mem_map.1 hr
    rfl
  have hlinked := hm.linked
  have hnamed := hn.links
  generalize row.providerLinks = links at hlinked hnamed
  unfold jobIdsOf at hskipped ⊢
  rw [List.filterMap_append, hskipped, List.append_nil]
  clear hskipped hm hn
  induction hlinked with
  | nil => rfl
  | @cons link result links results hv _ ih =>
    have hid : result.id ≠ [] := by
      rw [hv.jobId]
      exact (ValidationRunLink.named_iff.1 (hnamed link List.mem_cons_self)).2.1
    rw [List.zipWith_cons_cons, List.filterMap_cons_some (b := link.jobId), List.map_cons,
      ih fun l hl => hnamed l (List.mem_cons_of_mem _ hl)]
    change (some result.id).filter _ = _
    rw [Option.filter_some, if_pos (by simpa using hid), hv.jobId]

end minted

/-! ## Two rows of a run -/

/-- The rows agree in all but the status. -/
structure SameEvidence (row run : ValidationRunRecord) : Prop where
  validationId : row.validationId = run.validationId
  ownerPrincipal : row.ownerPrincipal = run.ownerPrincipal
  intent : row.intent = run.intent
  createdAt : row.createdAt = run.createdAt
  requestJson : row.requestJson = run.requestJson
  providerLinks : row.providerLinks = run.providerLinks
  judgeLink : row.judgeLink = run.judgeLink

/-- The status goes with the judge: skipped only where a judge was planned and none is linked. -/
structure Accepts (run : ValidationRunRecord) (request : VerifiedValidationRunRequest) : Prop where
  unclaimed : run.judgeLink = none → request.judgeProvider.isSome = true →
    run.status = .judge_skipped ∨ run.status = .finalized
  other : run.judgeLink.isSome = true ∨ request.judgeProvider = none → run.status = .running ∨ run.status = .finalized

section rows
variable {answers : Answers} {lower : LowerCase} {request : VerifiedValidationRunRequest}
  {results : List AsyncJobResult} {judgeStatus : Option AsyncJobStatus} {mintedAt : Text}

theorem roster_reportOf (lower : LowerCase) (hm : Minting answers row request results judgeStatus) (hn : NamedRun row)
    (hs : SameEvidence row run) :
    providerRosterMatchesRun (reportOf row lower request (normalizedResults row results) judgeStatus) run request =
      true := by
  have hmodels : (reportOf row lower request (normalizedResults row results) judgeStatus).modelList =
      request.modelList := if_pos (parseValidationRunRequest_spec hm.parsed).1
  have houtputs : outputsMatch (reportOf row lower request (normalizedResults row results) judgeStatus).perModelOutputs
      (expectedOutputs row request) = true := by
    rw [(reportOf_attests hm).outputs]
    exact outputsMatch_append (outputsMatch_linked hm.linked) (outputsMatch_skipped _ _)
  have hexpected : expectedOutputs run request = expectedOutputs row request := by
    unfold expectedOutputs dispatched
    rw [hs.providerLinks]
  have hcheck : checkProviderLinks request.modelList [] [] [] run.providerLinks = true := by
    rw [checkProviderLinks_iff, ← hs.providerLinks]
    exact ⟨fun link hl => ⟨hm.requested link hl, List.not_mem_nil, List.not_mem_nil, List.not_mem_nil⟩, hm.names,
      hm.jobIds, hm.correlationIds⟩
  have hnamed : run.providerLinks.all ValidationRunLink.named = true := by
    rw [← hs.providerLinks]
    exact List.all_eq_true.2 hn.links
  unfold providerRosterMatchesRun
  rw [hmodels, hcheck, hnamed, hexpected, houtputs, jobIds_reportOf hm hn, status_reportOf hm, hs.providerLinks]
  simp

theorem synthesis_reportOf (lower : LowerCase) (hm : Minting answers row request results judgeStatus) (hn : NamedRun row)
    (hs : SameEvidence row run) (ha : Accepts run request) :
    synthesisMatchesRun (reportOf row lower request (normalizedResults row results) judgeStatus) run request = true := by
  have hsynthesis : (reportOf row lower request (normalizedResults row results) judgeStatus).synthesis =
      synthesisOf row request.judgeProvider judgeStatus := rfl
  unfold synthesisMatchesRun
  dsimp only
  rw [hsynthesis]
  cases hlink : run.judgeLink with
  | some link =>
    have hrow : row.judgeLink = some link := hs.judgeLink.trans hlink
    have hclash : judgeClashes run link = false := by
      have := hm.clash link hrow
      unfold judgeClashes at this ⊢
      rwa [← hs.providerLinks]
    have hbound : some link.provider = request.judgeProvider.or ((some link).map ValidationRunLink.provider) := by
      cases hp : request.judgeProvider with
      | none => rfl
      | some planned =>
        rw [hm.planned link hrow planned hp]
        rfl
    have hstatus := ha.other (Or.inl (by rw [hlink]; rfl))
    have hover : (synthesisOf row request.judgeProvider judgeStatus).status = .completed ∨
        (synthesisOf row request.judgeProvider judgeStatus).status = .skipped := by
      unfold synthesisOf
      rw [hrow]
      dsimp only
      split
      · exact Or.inl rfl
      · exact Or.inr rfl
    have hjudge : (synthesisOf row request.judgeProvider judgeStatus).judgeModel = some link.provider := by
      unfold synthesisOf
      rw [hrow]
    have hreference : (synthesisOf row request.judgeProvider judgeStatus).rawJobReference =
        some ⟨link.jobId, link.correlationId⟩ := by
      unfold synthesisOf
      rw [hrow]
    dsimp only
    rw [hn.judge link hrow, hclash, ← hbound, hjudge, hreference]
    simpa using ⟨hstatus, hover⟩
  | none =>
    have hrow : row.judgeLink = none := hs.judgeLink.trans hlink
    cases hp : request.judgeProvider with
    | some planned =>
      have hskipped := hm.skipped (by rw [hp]; rfl) hrow
      have hstatus := ha.unclaimed hlink (by rw [hp]; rfl)
      have hof : synthesisOf row (some planned) judgeStatus =
          ⟨.skipped, some planned, none, text "The planned judge could not be dispatched."⟩ := by
        unfold synthesisOf
        rw [hrow, hskipped]
      dsimp only [Option.some_or]
      rw [hof]
      simp [hstatus]
    | none =>
      have hstatus := ha.other (Or.inr hp)
      have hof : synthesisOf row none judgeStatus =
          ⟨.not_requested, none, none, text "No judge synthesis was requested."⟩ := by
        unfold synthesisOf
        rw [hrow]
        dsimp only
        split
        · rename_i h
          cases h
        · rfl
      dsimp only [Option.map_none, Option.or_none]
      rw [hof]
      simpa using hstatus

theorem verifiedReceiptEnvelope_eq {report : ValidationReportV1Content}
    (hread : validationReportV1ContentSchema (reportValue report) = some report)
    (hid : run.validationId = row.validationId) (howner : run.ownerPrincipal = row.ownerPrincipal)
    (hrequest : parseValidationRunRequest run.requestJson = some request) :
    verifiedReceiptEnvelope sha (recordOf row sha.hex report mintedAt) run =
      if reportMatches sha (recordOf row sha.hex report mintedAt) run report request then
        some (envelopeOf (recordOf row sha.hex report mintedAt) report)
      else none := by
  have hbind : (recordOf row sha.hex report mintedAt).reportJson.bind validationReportV1ContentSchema = some report :=
    hread
  unfold verifiedReceiptEnvelope
  rw [if_neg (by simp [recordOf, hid, howner]), hbind, hrequest]

/-- **What was minted from one row verifies against the other.** -/
theorem verifiedReceiptEnvelope_recordOf (hm : Minting answers row request results judgeStatus) (hn : NamedRun row)
    (hs : SameEvidence row run) (ha : Accepts run request) :
    verifiedReceiptEnvelope sha
      (recordOf row sha.hex (reportOf row lower request (normalizedResults row results) judgeStatus) mintedAt) run ≠
        none := by
  have hread := validationReportV1ContentSchema_reportValue (named_reportOf lower hm hn)
  have hrequest : parseValidationRunRequest run.requestJson = some request := by
    rw [← hs.requestJson]
    exact hm.parsed
  have hroster := roster_reportOf lower hm hn hs
  have hsynthesis := synthesis_reportOf lower hm hn hs ha
  have hfields : (reportOf row lower request (normalizedResults row results) judgeStatus).validationId =
        row.validationId ∧
      (reportOf row lower request (normalizedResults row results) judgeStatus).intent = row.intent ∧
      (reportOf row lower request (normalizedResults row results) judgeStatus).startedAt = row.createdAt ∧
      (reportOf row lower request (normalizedResults row results) judgeStatus).originalRequest =
        ⟨request.question, request.content, request.focus⟩ := ⟨rfl, rfl, rfl, rfl⟩
  generalize reportOf row lower request (normalizedResults row results) judgeStatus = report at *
  obtain ⟨hid, hintent, hat, horiginal⟩ := hfields
  rw [verifiedReceiptEnvelope_eq hread hs.validationId.symm hs.ownerPrincipal.symm hrequest, if_pos]
  · exact Option.some_ne_none _
  · have hhex := sha.isHex64_hex (canonicalJson (reportValue report))
    unfold reportMatches
    rw [hroster, hsynthesis]
    simp [recordOf, computeCanonicalSha256, equalSha256, originalRequestMatchesRun, hhex, hid, hintent, hat, horiginal,
      hs.intent, hs.createdAt]

theorem isSome_of_synthesisMatchesRun {report : ValidationReportV1Content}
    (h : synthesisMatchesRun report run request = true) :
    report.synthesis.rawJobReference.isSome = run.judgeLink.isSome := by
  unfold synthesisMatchesRun at h
  dsimp only at h
  split at h
  · rename_i link hlink
    simp only [Bool.and_eq_true, decide_eq_true_eq] at h
    rw [h.2, hlink]
    rfl
  · rename_i hlink
    rw [hlink]
    split at h
    · split at h
      · cases h
      · rename_i hnone
        rw [not_not.1 hnone]
        rfl
    · simp only [Bool.and_eq_true, decide_eq_true_eq] at h
      rw [h.2]
      rfl

/-- What verifies was minted with a judge exactly if the run has one. -/
theorem verifiedReceiptEnvelope_judge (hm : Minting answers row request results judgeStatus) (hn : NamedRun row)
    (h : verifiedReceiptEnvelope sha
      (recordOf row sha.hex (reportOf row lower request (normalizedResults row results) judgeStatus) mintedAt) run ≠
        none) : row.judgeLink.isSome = run.judgeLink.isSome := by
  have hread := validationReportV1ContentSchema_reportValue (named_reportOf lower hm hn)
  have hreference : (reportOf row lower request (normalizedResults row results)
      judgeStatus).synthesis.rawJobReference.isSome = row.judgeLink.isSome := by
    change (synthesisOf row request.judgeProvider judgeStatus).rawJobReference.isSome = _
    unfold synthesisOf
    split
    · rename_i link hlink
      rw [hlink]
      rfl
    · rename_i hlink
      rw [hlink]
      split <;> rfl
  generalize reportOf row lower request (normalizedResults row results) judgeStatus = report at *
  unfold verifiedReceiptEnvelope at h
  split at h
  · exact absurd rfl h
  · split at h
    · exact absurd rfl h
    · rename_i report' hreport'
      cases (hread.symm.trans hreport')
      split at h
      · exact absurd rfl h
      · split at h
        · rename_i hmatches
          rw [← hreference]
          unfold reportMatches at hmatches
          simp only [Bool.and_eq_true] at hmatches
          exact isSome_of_synthesisMatchesRun hmatches.2
        · exact absurd rfl h

end rows

end LlmGateway.Validation
