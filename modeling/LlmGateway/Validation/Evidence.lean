import LlmGateway.Validation.Receipt

/-!
# What a receipt attests

* `Minting` — all that is behind a record, `prepare_record`;
* `Attests` — the claim of a receipt on complete evidence and on agreement, `reportOf_attests`;
* `tryMint_attests` — a call that returns its own record attests to its evidence.
-/

namespace LlmGateway.Validation

open LlmGateway.Lib LlmGateway.Lib.Utf16
open LlmGateway.Manager.ResultPage (PageText pageText)

variable {answers : Answers} {run : ValidationRunRecord} {lower : LowerCase} {sha256 : Text → Text}

/-! ## One job -/

/-- The job of a link is owned by the owner of the run, points back to the run, is the one that was linked, and has ended
with its whole output. -/
structure Verified (answers : Answers) (run : ValidationRunRecord) (link : ValidationRunLink) (result : AsyncJobResult) :
    Prop where
  owner : answers.jobOwner link.jobId = .value (some run.ownerPrincipal)
  reverse : answers.validationRunIdByJobId link.jobId = .value (some run.validationId)
  job : answers.jobResult link.jobId = .value (some result)
  jobId : result.id = link.jobId
  provider : result.cli = link.provider
  correlationId : result.correlationId = link.correlationId
  terminal : result.status.isTerminal = true
  complete : hasCompleteOutput result = true

theorem readVerifiedLinkedJob_terminal {link : ValidationRunLink} {result : AsyncJobResult}
    (h : readVerifiedLinkedJob answers run link = .terminal result) : Verified answers run link result := by
  unfold readVerifiedLinkedJob at h
  split at h
  · cases h
  · cases h
  · rename_i owner howner
    split at h
    · cases h
    · rename_i hown
      split at h
      · cases h
      · cases h
      · rename_i linked hlinked
        split at h
        · cases h
        · rename_i hrun
          split at h
          · cases h
          · cases h
          · cases h
          · rename_i r hr
            split at h
            · cases h
            · rename_i hsame
              simp only [not_or, not_not] at hown hrun hsame
              split at h
              · cases h
              · rename_i hterminal
                split at h
                · rename_i hcomplete
                  cases h
                  subst hown hrun
                  exact ⟨howner, hlinked, hr, hsame.1, hsame.2.1, hsame.2.2, by simpa using hterminal, hcomplete⟩
                · cases h

/-- A page that is not cut and begins at the front is the whole text. -/
theorem pageText_whole {value : Text} {maxChars : ℕ} {offset : ℤ}
    (ht : (pageText value maxChars offset).truncated = false) (ho : (pageText value maxChars offset).offsetChars = 0) :
    (pageText value maxChars offset).text = value := by
  unfold pageText at ht ho ⊢
  dsimp only at ht ho ⊢
  rw [ho, Nat.zero_add] at ht ⊢
  have hlen : min value.length maxChars = value.length := by
    rw [decide_eq_false_iff_not] at ht
    omega
  rw [hlen, Substring.slice, List.take_length, List.drop_zero]

/-- The pages that were read are the whole outputs of the job. -/
def Whole (result : AsyncJobResult) : Prop :=
  (∀ stdout maxChars offset, result.stdout = pageText stdout maxChars offset → result.stdout.text = stdout) ∧
    ∀ stderr maxChars offset, result.stderr = pageText stderr maxChars offset → result.stderr.text = stderr

theorem Verified.whole {link : ValidationRunLink} {result : AsyncJobResult} (h : Verified answers run link result) :
    Whole result := by
  have hc := h.complete
  unfold hasCompleteOutput at hc
  simp only [Bool.and_eq_true, Bool.not_eq_true', decide_eq_true_eq] at hc
  obtain ⟨⟨⟨⟨⟨⟨⟨⟨⟨⟨-, hout⟩, herr⟩, hout₀⟩, herr₀⟩, -⟩, -⟩, -⟩, -⟩, -⟩, -⟩ := hc
  constructor
  · intro stdout maxChars offset hp
    rw [hp] at hout hout₀ ⊢
    exact pageText_whole hout hout₀
  · intro stderr maxChars offset hp
    rw [hp] at herr herr₀ ⊢
    exact pageText_whole herr herr₀

/-! ## The loops over the links -/

theorem checkProviderLinks_iff {requested names jobIds correlationIds : List Text} {links : List ValidationRunLink} :
    checkProviderLinks requested names jobIds correlationIds links = true ↔
      (∀ link ∈ links, link.provider ∈ requested ∧ link.provider ∉ names ∧ link.jobId ∉ jobIds ∧
        link.correlationId ∉ correlationIds) ∧
      (links.map ValidationRunLink.provider).Nodup ∧ (links.map ValidationRunLink.jobId).Nodup ∧
      (links.map ValidationRunLink.correlationId).Nodup := by
  induction links generalizing names jobIds correlationIds with
  | nil => simp [checkProviderLinks]
  | cons link links ih =>
    unfold checkProviderLinks
    simp only [List.map_cons, List.nodup_cons, List.forall_mem_cons]
    split
    · rename_i hbad
      simp only [Bool.or_eq_true, Bool.not_eq_true', List.contains_eq_mem, decide_eq_false_iff_not,
        decide_eq_true_eq] at hbad
      constructor
      · intro h
        cases h
      · rintro ⟨⟨⟨h₁, h₂, h₃, h₄⟩, -⟩, -⟩
        obtain ((hbad | hbad) | hbad) | hbad := hbad
        · exact absurd h₁ hbad
        · exact absurd hbad h₂
        · exact absurd hbad h₃
        · exact absurd hbad h₄
    · rename_i hgood
      simp only [Bool.or_eq_true, Bool.not_eq_true', List.contains_eq_mem, decide_eq_false_iff_not,
        decide_eq_true_eq, not_or, not_not] at hgood
      rw [ih]
      simp only [List.mem_cons, not_or, List.mem_map, not_exists, not_and]
      constructor
      · rintro ⟨hall, hp, hj, hc⟩
        refine ⟨⟨⟨hgood.1.1.1, hgood.1.1.2, hgood.1.2, hgood.2⟩, fun l hl => ?_⟩, ⟨fun l hl e => ?_, hp⟩,
          ⟨fun l hl e => ?_, hj⟩, fun l hl e => ?_, hc⟩
        · exact ⟨(hall l hl).1, (hall l hl).2.1.2, (hall l hl).2.2.1.2, (hall l hl).2.2.2.2⟩
        · exact (hall l hl).2.1.1 e
        · exact (hall l hl).2.2.1.1 e
        · exact (hall l hl).2.2.2.1 e
      · rintro ⟨⟨-, hall⟩, ⟨hp', hp⟩, ⟨hj', hj⟩, hc', hc⟩
        refine ⟨fun l hl => ?_, hp, hj, hc⟩
        exact ⟨(hall l hl).1, ⟨hp' l hl, (hall l hl).2.1⟩, ⟨hj' l hl, (hall l hl).2.2.1⟩, hc' l hl, (hall l hl).2.2.2⟩

theorem readProviderResults_ok {links : List ValidationRunLink} {rs : List NormalizedValidationResult}
    (h : readProviderResults answers run links = .ok rs) :
    ∃ results, List.Forall₂ (Verified answers run) links results ∧
      rs = List.zipWith (fun link result => normalizeJobResult link.provider none result) links results := by
  induction links generalizing rs with
  | nil =>
    cases h
    exact ⟨[], .nil, rfl⟩
  | cons link links ih =>
    unfold readProviderResults at h
    split at h
    · rename_i result hresult
      cases hrest : readProviderResults answers run links with
      | error outcome =>
        rw [hrest] at h
        cases h
      | ok rest =>
        rw [hrest] at h
        cases h
        obtain ⟨results, hall, rfl⟩ := ih hrest
        exact ⟨result :: results, .cons (readVerifiedLinkedJob_terminal hresult) hall, rfl⟩
    · cases h
    · cases h
    · cases h

theorem readProviderResults_error {links : List ValidationRunLink} (record : ValidationReceiptRecord) :
    readProviderResults answers run links ≠ .error (.record record) := by
  induction links with
  | nil =>
    intro h
    cases h
  | cons link links ih =>
    intro h
    unfold readProviderResults at h
    split at h
    · cases hrest : readProviderResults answers run links with
      | error outcome =>
        rw [hrest] at h
        cases h
        exact ih hrest
      | ok rest =>
        rw [hrest] at h
        cases h
    · cases h
    · cases h
    · cases h

theorem readJudgeStatus_error (record : ValidationReceiptRecord) :
    readJudgeStatus answers run ≠ .error (.record record) := by
  intro h
  unfold readJudgeStatus at h
  split at h
  · cases h
  · split at h <;> cases h

theorem readJudgeStatus_ok {status : Option AsyncJobStatus} (h : readJudgeStatus answers run = .ok status) :
    ∀ link, run.judgeLink = some link →
      ∃ result, Verified answers run link result ∧ status = some result.status := by
  intro link hlink
  unfold readJudgeStatus at h
  rw [hlink] at h
  dsimp only at h
  split at h
  · rename_i result hresult
    cases h
    exact ⟨result, readVerifiedLinkedJob_terminal hresult, rfl⟩
  · cases h
  · cases h
  · cases h

/-! ## A record -/

/-- What `tryMint` has found when it has a record. -/
structure Minting (answers : Answers) (run : ValidationRunRecord) (request : VerifiedValidationRunRequest)
    (results : List AsyncJobResult) (judgeStatus : Option AsyncJobStatus) : Prop where
  status : run.status ≠ .admitting ∧ run.status ≠ .admission_failed
  parsed : parseValidationRunRequest run.requestJson = some request
  requested : ∀ link ∈ run.providerLinks, link.provider ∈ request.modelList
  names : (run.providerLinks.map ValidationRunLink.provider).Nodup
  jobIds : (run.providerLinks.map ValidationRunLink.jobId).Nodup
  correlationIds : (run.providerLinks.map ValidationRunLink.correlationId).Nodup
  clash : ∀ link, run.judgeLink = some link → judgeClashes run link = false
  planned : ∀ link, run.judgeLink = some link → ∀ planned, request.judgeProvider = some planned →
    planned = link.provider
  skipped : request.judgeProvider.isSome = true → run.judgeLink = none → run.status = .judge_skipped
  linked : List.Forall₂ (Verified answers run) run.providerLinks results
  judge : ∀ link, run.judgeLink = some link →
    ∃ result, Verified answers run link result ∧ judgeStatus = some result.status

def normalizedResults (run : ValidationRunRecord) (results : List AsyncJobResult) : List NormalizedValidationResult :=
  List.zipWith (fun link result => normalizeJobResult link.provider none result) run.providerLinks results

theorem prepare_record {mintedAt : Text} {record : ValidationReceiptRecord}
    (h : prepare answers run lower sha256 mintedAt = .record record) :
    ∃ request results judgeStatus, Minting answers run request results judgeStatus ∧
      record = recordOf run sha256 (reportOf run lower request (normalizedResults run results) judgeStatus) mintedAt := by
  unfold prepare at h
  split at h
  · cases h
  rename_i hstatus
  split at h
  · cases h
  rename_i request hrequest
  split at h
  · cases h
  rename_i hlinks
  split at h
  · cases h
  rename_i hclash
  split at h
  · cases h
  rename_i hplanned
  split at h
  · cases h
  rename_i hskipped
  split at h
  · rename_i outcome hread
    subst h
    exact absurd hread (readProviderResults_error _)
  rename_i rs hread
  split at h
  · rename_i outcome hjudge
    subst h
    exact absurd hjudge (readJudgeStatus_error _)
  rename_i judgeStatus hjudge
  cases h
  obtain ⟨results, hall, rfl⟩ := readProviderResults_ok hread
  simp only [Bool.not_eq_true', Bool.not_eq_false, checkProviderLinks_iff] at hlinks
  refine ⟨request, results, judgeStatus, ?_, rfl⟩
  exact {
    status := not_or.1 hstatus
    parsed := hrequest
    requested := fun link hl => (hlinks.1 link hl).1
    names := hlinks.2.1
    jobIds := hlinks.2.2.1
    correlationIds := hlinks.2.2.2
    clash := fun link hl => by simpa [hl] using hclash
    planned := fun link hl planned hp => by simpa [hl, hp] using hplanned
    skipped := fun hp hn => by simpa [hp, hn] using hskipped
    linked := hall
    judge := readJudgeStatus_ok hjudge }

/-! ## Agreement -/

/-- The normalised verdict of a job. -/
def verdictOf (lower : LowerCase) (result : AsyncJobResult) : Option Text :=
  normalizeVerdict lower (inferVerdict (trim result.stdout.text) result.status)

def dispatched (run : ValidationRunRecord) : List Text := run.providerLinks.map ValidationRunLink.provider

/-- Every provider answered, and all said the same. -/
structure Unanimous (lower : LowerCase) (run : ValidationRunRecord) (request : VerifiedValidationRunRequest)
    (results : List AsyncJobResult) : Prop where
  answered : ∀ provider ∈ request.modelList, provider ∈ dispatched run
  completed : ∀ result ∈ results, result.status = .completed
  said : ∀ result ∈ results, trim result.stdout.text ≠ []
  same : ∀ result ∈ results, ∀ result' ∈ results, verdictOf lower result = verdictOf lower result'

/-- A provider was skipped, a job did not complete or said nothing, or two jobs differ. -/
def Troubled (lower : LowerCase) (run : ValidationRunRecord) (request : VerifiedValidationRunRequest)
    (results : List AsyncJobResult) : Prop :=
  (∃ provider ∈ request.modelList, provider ∉ dispatched run) ∨ (∃ result ∈ results, result.status ≠ .completed) ∨
    (∃ result ∈ results, trim result.stdout.text = []) ∨
      ∃ result ∈ results, ∃ result' ∈ results, verdictOf lower result ≠ verdictOf lower result'

/-- What the report of a receipt says about the evidence. -/
structure Attests (answers : Answers) (lower : LowerCase) (run : ValidationRunRecord)
    (request : VerifiedValidationRunRequest) (results : List AsyncJobResult) (content : ValidationReportV1Content) :
    Prop where
  linked : List.Forall₂ (Verified answers run) run.providerLinks results
  judge : ∀ link, run.judgeLink = some link → ∃ result, Verified answers run link result
  whole : ∀ link result, Verified answers run link result → Whole result
  outputs : content.perModelOutputs =
    List.zipWith (fun link result => perModelOutput (normalizeJobResult link.provider none result))
      run.providerLinks results ++ (skippedResults run request.modelList).map perModelOutput
  roster : content.perModelOutputs.map PerModelOutput.provider =
    dispatched run ++ request.modelList.filter fun provider => !(dispatched run).contains provider
  once : ∀ provider ∈ request.modelList, (content.perModelOutputs.map PerModelOutput.provider).count provider = 1
  skipped : ∀ output ∈ content.perModelOutputs, output.provider ∉ dispatched run → output.status = .skipped
  verdicts : ∀ output ∈ content.perModelOutputs, ∀ v, output.verdict = some v → v.length ≤ 240
  confident : content.confidence = .medium ∨ content.confidence = .high → Unanimous lower run request results
  high : content.confidence = .high → 2 ≤ results.length
  troubled : Troubled lower run request results →
    content.disagreements.hasMaterialDisagreement = true ∧ (content.confidence = .none ∨ content.confidence = .low)

theorem hasVerdict_normalizeJobResult (provider : Text) (model : Option Text) (result : AsyncJobResult) :
    HasVerdict lower (normalizeJobResult provider model result) := by
  intro hs he
  change result.status.normalized = .completed at hs
  rw [AsyncJobStatus.normalized_eq_completed] at hs
  change (decide (result.status = .completed) && (trim result.stdout.text).isEmpty) = false at he
  rw [hs, decide_eq_true rfl, Bool.true_and] at he
  have hne : trim result.stdout.text ≠ [] := by
    intro hnil
    rw [hnil] at he
    cases he
  obtain ⟨u, t, hv, hu⟩ := inferVerdict_spec hne
  change normalizeVerdict lower (inferVerdict (trim result.stdout.text) result.status) ≠ none
  rw [hs, hv]
  exact normalizeVerdict_ne_none hu

theorem mem_zipWith_iff {α β γ : Type} {f : α → β → γ} {l : List α} {l' : List β} {c : γ} {R : α → β → Prop}
    (h : List.Forall₂ R l l') (hc : c ∈ List.zipWith f l l') : ∃ a ∈ l, ∃ b ∈ l', R a b ∧ c = f a b := by
  induction h with
  | nil => cases hc
  | cons hab _ ih =>
    rw [List.zipWith_cons_cons, List.mem_cons] at hc
    obtain rfl | hc := hc
    · exact ⟨_, List.mem_cons_self, _, List.mem_cons_self, hab, rfl⟩
    · obtain ⟨a, ha, b, hb, hr, rfl⟩ := ih hc
      exact ⟨a, List.mem_cons_of_mem _ ha, b, List.mem_cons_of_mem _ hb, hr, rfl⟩

theorem mem_zipWith_of_right {α β γ : Type} {f : α → β → γ} {l : List α} {l' : List β} {b : β} {R : α → β → Prop}
    (h : List.Forall₂ R l l') (hb : b ∈ l') : ∃ a ∈ l, f a b ∈ List.zipWith f l l' := by
  induction h with
  | nil => cases hb
  | cons hab _ ih =>
    rw [List.mem_cons] at hb
    obtain rfl | hb := hb
    · exact ⟨_, List.mem_cons_self, List.mem_cons_self⟩
    · obtain ⟨a, ha, hf⟩ := ih hb
      exact ⟨a, List.mem_cons_of_mem _ ha, List.mem_cons_of_mem _ hf⟩

section report
variable {request : VerifiedValidationRunRequest} {results : List AsyncJobResult} {judgeStatus : Option AsyncJobStatus}

/-- The results that the report is built from. -/
def allResults (run : ValidationRunRecord) (request : VerifiedValidationRunRequest) (results : List AsyncJobResult) :
    List NormalizedValidationResult :=
  normalizedResults run results ++ skippedResults run request.modelList

theorem skipped_of_mem {r : NormalizedValidationResult} (h : r ∈ skippedResults run request.modelList) :
    r.status = .skipped ∧ r.verdict = some (text "not_run") ∧ r.provider ∈ request.modelList ∧
      r.provider ∉ dispatched run := by
  obtain ⟨provider, hp, rfl⟩ := List.mem_map.1 h
  rw [List.mem_filter] at hp
  have hn : provider ∉ dispatched run := by simpa [dispatched] using hp.2
  exact ⟨rfl, rfl, hp.1, hn⟩

theorem hasVerdict_allResults (hm : Minting answers run request results judgeStatus) :
    ∀ r ∈ allResults run request results, HasVerdict lower r := by
  intro r hr
  rw [allResults, List.mem_append] at hr
  obtain hr | hr := hr
  · obtain ⟨link, -, result, -, -, rfl⟩ := mem_zipWith_iff hm.linked hr
    exact hasVerdict_normalizeJobResult link.provider none result
  · intro hs
    rw [(skipped_of_mem hr).1] at hs
    cases hs

/-- A report without disagreement is on unanimous evidence. -/
theorem unanimous_of_agreement (hm : Minting answers run request results judgeStatus)
    (h : (summarizeDisagreement lower (allResults run request results)).hasMaterialDisagreement = false) :
    Unanimous lower run request results := by
  rw [hasMaterialDisagreement_eq_false_iff (hasVerdict_allResults hm)] at h
  obtain ⟨hall, hsame⟩ := h
  have hresult : ∀ result ∈ results, ∃ provider,
      normalizeJobResult provider none result ∈ allResults run request results := by
    intro result hr
    obtain ⟨link, -, hmem⟩ := mem_zipWith_of_right
      (f := fun (link : ValidationRunLink) result => normalizeJobResult link.provider none result) hm.linked hr
    exact ⟨link.provider, List.mem_append_left _ hmem⟩
  have hcompleted : ∀ result ∈ results, result.status = .completed := by
    intro result hr
    obtain ⟨provider, hmem⟩ := hresult result hr
    exact AsyncJobStatus.normalized_eq_completed.1 (hall _ hmem).1
  refine ⟨fun provider hp => ?_, hcompleted, fun result hr hnil => ?_, fun result hr result' hr' => ?_⟩
  · by_contra hnot
    have hmem : normalizeSkippedProvider provider (text "Provider was not dispatched for this run.") ∈
        allResults run request results := by
      refine List.mem_append_right _ (List.mem_map.2 ⟨provider, List.mem_filter.2 ⟨hp, ?_⟩, rfl⟩)
      simpa [dispatched] using hnot
    have hs := (hall _ hmem).1
    cases hs
  · obtain ⟨provider, hmem⟩ := hresult result hr
    have he := (hall _ hmem).2.1
    change (decide (result.status = .completed) && (trim result.stdout.text).isEmpty) = false at he
    rw [hcompleted result hr, hnil] at he
    cases he
  · obtain ⟨provider, hmem⟩ := hresult result hr
    obtain ⟨provider', hmem'⟩ := hresult result' hr'
    exact hsame _ hmem _ hmem'

theorem completedCount_allResults_le (hm : Minting answers run request results judgeStatus) :
    completedCount (allResults run request results) ≤ results.length := by
  have hskip : completedCount (skippedResults run request.modelList) = 0 := by
    refine List.countP_eq_zero.2 fun r hr => ?_
    rw [(skipped_of_mem hr).1]
    decide
  have hlen : (normalizedResults run results).length = results.length := by
    rw [normalizedResults, List.length_zipWith, hm.linked.length_eq, Nat.min_self]
  unfold completedCount at hskip ⊢
  rw [allResults, List.countP_append, hskip, Nat.add_zero, ← hlen]
  exact List.countP_le_length

theorem providers_normalizedResults (hm : Minting answers run request results judgeStatus) :
    (normalizedResults run results).map NormalizedValidationResult.provider = dispatched run := by
  have h := hm.linked
  clear hm
  unfold normalizedResults dispatched
  generalize run.providerLinks = links at h
  induction h with
  | nil => rfl
  | cons _ _ ih =>
    rw [List.zipWith_cons_cons, List.map_cons, List.map_cons, ih]
    rfl

theorem roster_allResults (hm : Minting answers run request results judgeStatus) :
    (allResults run request results).map NormalizedValidationResult.provider =
      dispatched run ++ request.modelList.filter fun provider => !(dispatched run).contains provider := by
  have hid : (NormalizedValidationResult.provider ∘ fun provider =>
      normalizeSkippedProvider provider (text "Provider was not dispatched for this run.")) = id := rfl
  rw [allResults, List.map_append, providers_normalizedResults hm, skippedResults, List.map_map, hid, List.map_id]
  rfl

/-- Every provider that was asked for is in the roster once. -/
theorem count_roster (hm : Minting answers run request results judgeStatus) {provider : Text}
    (hp : provider ∈ request.modelList) :
    (dispatched run ++ request.modelList.filter fun p => !(dispatched run).contains p).count provider = 1 := by
  have hnodup : request.modelList.Nodup := by
    have := hm.parsed
    unfold parseValidationRunRequest at this
    rw [Option.filter_eq_some_iff] at this
    simpa using this.2
  have hnames : (dispatched run).Nodup := hm.names
  rw [List.count_append]
  by_cases hd : provider ∈ dispatched run
  · rw [List.count_eq_one_of_mem hnames hd, List.count_eq_zero_of_not_mem]
    simp [hd]
  · rw [List.count_eq_zero_of_not_mem hd, List.count_eq_one_of_mem (hnodup.filter _)]
    rw [List.mem_filter]
    exact ⟨hp, by simpa using hd⟩

/-- **The report of a minted receipt attests to its evidence.** -/
theorem reportOf_attests (hm : Minting answers run request results judgeStatus) :
    Attests answers lower run request results
      (reportOf run lower request (normalizedResults run results) judgeStatus) := by
  have houtputs : (reportOf run lower request (normalizedResults run results) judgeStatus).perModelOutputs =
      (allResults run request results).map perModelOutput := rfl
  have hdisagree : (reportOf run lower request (normalizedResults run results) judgeStatus).disagreements =
      summarizeDisagreement lower (allResults run request results) := rfl
  have hconfidence : (reportOf run lower request (normalizedResults run results) judgeStatus).confidence =
      confidenceFor (allResults run request results)
        (summarizeDisagreement lower (allResults run request results)).hasMaterialDisagreement := rfl
  have hroster : (reportOf run lower request (normalizedResults run results) judgeStatus).perModelOutputs.map
      PerModelOutput.provider =
        dispatched run ++ request.modelList.filter fun provider => !(dispatched run).contains provider := by
    rw [houtputs, List.map_map]
    exact roster_allResults hm
  refine
    { linked := hm.linked
      judge := fun link hl => ?judge
      whole := fun link result hv => hv.whole
      outputs := ?outputs
      roster := hroster
      once := fun provider hp => ?once
      skipped := fun output ho hn => ?skipped
      verdicts := fun output ho v hv => ?verdicts
      confident := fun hc => ?confident
      high := fun hc => ?high
      troubled := fun ht => ?troubled }
  case judge =>
    obtain ⟨result, hv, -⟩ := hm.judge link hl
    exact ⟨result, hv⟩
  case outputs =>
    rw [houtputs, allResults, List.map_append, normalizedResults, List.map_zipWith]
  case once =>
    rw [hroster]
    exact count_roster hm hp
  case skipped =>
    rw [houtputs] at ho
    obtain ⟨r, hr, rfl⟩ := List.mem_map.1 ho
    rw [allResults, List.mem_append] at hr
    obtain hr | hr := hr
    · have : r.provider ∈ dispatched run := by
        rw [← providers_normalizedResults hm]
        exact List.mem_map_of_mem hr
      exact absurd this hn
    · exact (skipped_of_mem hr).1
  case verdicts =>
    rw [houtputs] at ho
    obtain ⟨r, hr, rfl⟩ := List.mem_map.1 ho
    rw [allResults, List.mem_append] at hr
    obtain hr | hr := hr
    · obtain ⟨link, -, result, -, -, rfl⟩ := mem_zipWith_iff hm.linked hr
      exact length_inferVerdict hv
    · change r.verdict = some v at hv
      rw [(skipped_of_mem hr).2.1] at hv
      cases hv
      decide
  case confident =>
    rw [hconfidence] at hc
    exact unanimous_of_agreement hm (confidenceFor_confident hc).1
  case high =>
    rw [hconfidence] at hc
    have := (confidenceFor_confident (Or.inr hc)).2.2 hc
    exact this.trans (completedCount_allResults_le hm)
  case troubled =>
    have htrue : (summarizeDisagreement lower (allResults run request results)).hasMaterialDisagreement = true := by
      by_contra hfalse
      have hu := unanimous_of_agreement hm (eq_false_of_ne_true hfalse)
      obtain ⟨provider, hp, hn⟩ | ⟨result, hr, hn⟩ | ⟨result, hr, hn⟩ | ⟨result, hr, result', hr', hn⟩ := ht
      · exact hn (hu.answered provider hp)
      · exact hn (hu.completed result hr)
      · exact hu.said result hr hn
      · exact hn (hu.same result hr result' hr')
    rw [hconfidence, hdisagree, htrue]
    exact ⟨rfl, confidenceFor_true⟩

end report

/-- **A receipt attests to complete evidence only**: a call of `tryMint` that returns its own record. -/
theorem tryMint_attests {store : Option (ValidationReceiptRecord → Option ValidationReceiptRecord)} {mintedAt : Text}
    {record : ValidationReceiptRecord} (h : tryMint answers run lower sha256 store mintedAt = .minted record)
    (hown : ∀ own, prepare answers run lower sha256 mintedAt = .record own → record = own) :
    ∃ request results content, parseValidationRunRequest run.requestJson = some request ∧
      record.reportJson = some (reportValue content) ∧ record.confidence = content.confidence ∧
      record.hasMaterialDisagreement = content.disagreements.hasMaterialDisagreement ∧
      Attests answers lower run request results content := by
  unfold tryMint at h
  cases store with
  | none => cases h
  | some finalize =>
    dsimp only at h
    split at h
    · rename_i own hprepare
      obtain rfl := hown own hprepare
      obtain ⟨request, results, judgeStatus, hm, hr⟩ := prepare_record hprepare
      refine ⟨request, results, reportOf run lower request (normalizedResults run results) judgeStatus, hm.parsed, ?_⟩
      rw [hr]
      exact ⟨rfl, rfl, rfl, reportOf_attests hm⟩
    · cases h
    · cases h
    · cases h

/-! ### A run of two reviewers -/

section demo

def demoLink (provider jobId : String) : ValidationRunLink := ⟨text provider, text jobId, text jobId⟩

/-- A run for two reviewers, both linked. -/
def demoRun : ValidationRunRecord where
  validationId := text "run"
  ownerPrincipal := text "local"
  intent := text "validate"
  createdAt := text "2026-01-01T00:00:00.000Z"
  requestJson := some (.obj [("modelList", .arr [.str (text "claude"), .str (text "codex")]), ("judgeProvider", .null)])
  providerLinks := [demoLink "claude" "job-1", demoLink "codex" "job-2"]
  judgeLink := none
  status := .running

/-- A completed job and what it said. -/
def demoResult (provider jobId stdout : String) : AsyncJobResult where
  id := text jobId
  cli := text provider
  status := .completed
  correlationId := text jobId
  outputTruncated := false
  stdoutBytes := stdout.length
  stderrBytes := 0
  error := none
  stdout := pageText (text stdout) 1000 0
  stderr := pageText [] 1000 0

def demoAnswers : Answers where
  jobOwner _ := .value (some (text "local"))
  validationRunIdByJobId _ := .value (some (text "run"))
  jobResult jobId := .value (some
    (if jobId = text "job-1" then demoResult "claude" "job-1" "Verdict: ok"
    else demoResult "codex" "job-2" "fine\nverdict:  OK"))

def demoMintedAt : Text := text "2026-01-01T00:01:00.000Z"

theorem tryMint_attests_demo : ∃ record request results content,
    tryMint demoAnswers demoRun asciiLowerCase id (some some) demoMintedAt = .minted record ∧
      parseValidationRunRequest demoRun.requestJson = some request ∧
      record.reportJson = some (reportValue content) ∧ record.confidence = content.confidence ∧
      record.hasMaterialDisagreement = content.disagreements.hasMaterialDisagreement ∧
      Attests demoAnswers asciiLowerCase demoRun request results content := by
  cases hp : prepare demoAnswers demoRun asciiLowerCase id demoMintedAt with
  | record record =>
    have hmint : tryMint demoAnswers demoRun asciiLowerCase id (some some) demoMintedAt = .minted record := by
      unfold tryMint
      dsimp only
      rw [hp]
      rfl
    obtain ⟨request, results, content, h⟩ := tryMint_attests hmint fun own ho => by
      rw [hp] at ho
      exact Prepared.record.inj ho
    exact ⟨record, request, results, content, hmint, h⟩
  | pending => cases hp
  | unmintable => cases hp
  | awaits call => cases hp

end demo

end LlmGateway.Validation
