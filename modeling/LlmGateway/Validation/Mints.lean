import LlmGateway.Lib.Run
import LlmGateway.Validation.Envelope

/-!
# Any number of mints, and what happens to the run meanwhile

* `Sound` — the receipt of the run verifies, no caller is told that it does not, and all are given the same;
* `FinalizesCurrent` — a receipt is finalized for the judge link that the run has;
* `sound_throughout_iff` — a run is sound throughout exactly if its steps are such; `not_receipts_verify` is one that is not.
-/

namespace LlmGateway.Validation

open LlmGateway.Lib LlmGateway.Lib.Utf16 LlmGateway.Lib.Schema

/-! ## The world -/

/-- A link to a job.  The names in it are never empty. -/
structure JobLink where
  link : ValidationRunLink
  named : link.named = true

structure Job where
  owner : Option Text
  result : AsyncJobResult

/-- What `resolveValidationReceipt` returns. -/
inductive ValidationReceiptResult where
  | minted (receipt : ValidationReceipt)
  | pending
  | expired_unminted
  | verification_failed
  | not_found
deriving DecidableEq

/-- Where a call is: it has done nothing, it has read the receipts, it has read the run, or it is over. -/
inductive Phase where
  | called
  | looked (existing : Option ValidationReceiptRecord)
  | minting (row : ValidationRunRecord) (answers : Answers)
  | ended

/-- A call of `resolveValidationReceipt`, or without a caller of `eagerMintFromValidationId`; `late` if there was a receipt
when it was made. -/
structure MintCall where
  caller : Option Text
  late : Bool
  phase : Phase

structure Returned where
  late : Bool
  result : ValidationReceiptResult
deriving DecidableEq

structure World where
  run : ValidationRunRecord
  receipt : Option ValidationReceiptRecord
  runJobs : Text → Option Text
  jobs : Text → Option Job
  calls : List MintCall
  returned : List Returned

inductive Event where
  | call (caller : Option Text)
  | advance (i : ℕ) (fails : Bool) (now : Text)
  | linkJudgeJob (link : JobLink)
  | admitJudge (link : JobLink)
  | admitProvider (link : JobLink)
  | skipValidationJudge (provider : Text)
  | completeReviewAdmission
  | fenceReviewAdmission
  | job (jobId : Text) (job : Option Job)

/-! ## The store -/

def isText (s : Text) : Value → Bool
  | .str t => t = s
  | _ => false

def assertReviewJudgeClaim (run : ValidationRunRecord) (provider : Text) : Bool :=
  run.intent = text "review" && run.status = .running && run.judgeLink.isNone &&
    (run.requestJson.bind object).any fun request =>
      (field "judgeProvider" request).any (isText provider) &&
        ((field "reviewAuthorization" request).bind object).any fun authorization =>
          (field "judgeProvider" authorization).any (isText provider)

/-- `linkJudgeJob`: the run plans no judge, or this one. -/
def plansJudge (run : ValidationRunRecord) (provider : Text) : Bool :=
  (run.requestJson.bind object).any fun request =>
    match field "judgeProvider" request with
    | none | some .null => true
    | some v => isText provider v

def setJudge (w : World) (link : ValidationRunLink) : World :=
  { w with
    run := { w.run with judgeLink := some link }
    runJobs := fun jobId => if jobId = link.jobId then some ((w.runJobs jobId).getD w.run.validationId) else w.runJobs jobId }

def setValidationJudgeLink (w : World) (link : ValidationRunLink) : World :=
  if w.run.status = .running ∧ w.run.judgeLink = none ∧ w.receipt.isNone = true then setJudge w link else w

/-- A provider job of an admitting review; its job has no row in the reverse index yet. -/
def admitProvider (w : World) (link : ValidationRunLink) : World :=
  if w.run.intent = text "review" ∧ w.run.status = .admitting ∧ link.provider ∉ dispatched w.run ∧
      w.runJobs link.jobId = none then
    { w with
      run := { w.run with providerLinks := w.run.providerLinks ++ [link] }
      runJobs := fun jobId => if jobId = link.jobId then some w.run.validationId else w.runJobs jobId }
  else w

def setStatus (w : World) (status : ValidationRunStatus) : World := { w with run := { w.run with status := status } }

/-- The row that is stored, if the run is there and has the owner. -/
def finalizeValidationReceipt (w : World) (record : ValidationReceiptRecord) : Option (World × ValidationReceiptRecord) :=
  if record.validationId = w.run.validationId ∧ record.ownerPrincipal = w.run.ownerPrincipal then
    let stored := w.receipt.getD record
    some ({ setStatus w .finalized with receipt := some stored }, stored)
  else none

/-! ## The calls -/

def setPhase (w : World) (i : ℕ) (c : MintCall) (phase : Phase) : World :=
  { w with calls := w.calls.set i { c with phase := phase } }

/-- The call is over; an eager mint returns nothing. -/
def finish (w : World) (i : ℕ) (c : MintCall) (result : Option ValidationReceiptResult) : World :=
  { setPhase w i c .ended with
    returned := w.returned ++ ((if c.caller.isSome then result else none).map fun r => ⟨c.late, r⟩).toList }

def principalCanAccess (rowOwner caller : Text) : Bool := rowOwner = caller

def mintedResult (sha : Sha256) (record : ValidationReceiptRecord) (run : ValidationRunRecord) :
    ValidationReceiptResult :=
  (verifiedReceiptEnvelope sha record run).elim .verification_failed .minted

def Answers.none : Answers := ⟨fun _ => .awaited, fun _ => .awaited, fun _ => .awaited⟩

/-- A call of the job manager or the store, which answers from the state of now. -/
def answer (w : World) (fails : Bool) (answers : Answers) : Call → Answers
  | .getJobOwner jobId =>
    { answers with
      jobOwner := Function.update answers.jobOwner jobId
        (if fails then .threw else .value ((w.jobs jobId).bind Job.owner)) }
  | .getValidationRunIdByJobId jobId =>
    { answers with
      validationRunIdByJobId := Function.update answers.validationRunIdByJobId jobId
        (if fails then .threw else .value (w.runJobs jobId)) }
  | .getJobResult jobId =>
    { answers with
      jobResult := Function.update answers.jobResult jobId
        (if fails then .threw else .value ((w.jobs jobId).map Job.result)) }

section step
variable (lower : LowerCase) (sha : Sha256)

/-- One call of a mint to the store or the job manager. -/
def advance (w : World) (i : ℕ) (c : MintCall) (fails : Bool) (now : Text) : World :=
  match c.phase with
  | .called =>
    if fails then finish w i c none
    else if c.caller = none ∧ w.receipt.isSome = true then finish w i c none
    else setPhase w i c (.looked w.receipt)
  | .looked existing =>
    if fails then finish w i c none
    else if c.caller.any fun caller => !principalCanAccess w.run.ownerPrincipal caller then
      finish w i c (some .not_found)
    else
      match existing with
      | some stored => finish w i c (some (mintedResult sha stored w.run))
      | none => setPhase w i c (.minting w.run .none)
  | .minting row answers =>
    match prepare answers row lower sha.hex now with
    | .awaits call => setPhase w i c (.minting row (answer w fails answers call))
    | .pending => finish w i c (some .pending)
    | .unmintable => finish w i c (some .expired_unminted)
    | .record record =>
      if fails then finish w i c none
      else
        match finalizeValidationReceipt w record with
        | none => finish w i c none
        | some (w, stored) => finish w i c (some (mintedResult sha stored row))
  | .ended => w

def step (w : World) : Event → World × Unit
  | .call caller => ({ w with calls := w.calls ++ [⟨caller, w.receipt.isSome, .called⟩] }, ())
  | .advance i fails now =>
    match w.calls[i]? with
    | none => (w, ())
    | some c => (advance lower sha w i c fails now, ())
  | .linkJudgeJob link => (if plansJudge w.run link.link.provider then setValidationJudgeLink w link.link else w, ())
  | .admitJudge link => (if assertReviewJudgeClaim w.run link.link.provider ∧ w.runJobs link.link.jobId = none then
      setJudge w link.link else w, ())
  | .admitProvider link => (admitProvider w link.link, ())
  | .skipValidationJudge provider =>
    (if assertReviewJudgeClaim w.run provider then setStatus w .judge_skipped else w, ())
  | .completeReviewAdmission => (if w.run.status = .admitting then setStatus w .running else w, ())
  | .fenceReviewAdmission => (if w.run.status = .admitting then setStatus w .admission_failed else w, ())
  | .job jobId job => ({ w with jobs := Function.update w.jobs jobId job }, ())

end step

/-! ## Earlier rows -/

variable {row run run' : ValidationRunRecord} {request : VerifiedValidationRunRequest} {w w' : World}
  {lower : LowerCase} {sha : Sha256}

/-- `row` was read from the run before it became `run`. -/
structure Older (row run : ValidationRunRecord) : Prop where
  validationId : row.validationId = run.validationId
  ownerPrincipal : row.ownerPrincipal = run.ownerPrincipal
  intent : row.intent = run.intent
  createdAt : row.createdAt = run.createdAt
  requestJson : row.requestJson = run.requestJson
  links : row.status ≠ .admitting → run.status ≠ .admitting ∧ row.providerLinks = run.providerLinks
  judge : ∀ link, row.judgeLink = some link → run.judgeLink = some link

theorem Older.refl (run : ValidationRunRecord) : Older run run :=
  ⟨rfl, rfl, rfl, rfl, rfl, fun h => ⟨h, rfl⟩, fun _ h => h⟩

theorem Older.trans (h : Older row run) (h' : Older run run') : Older row run' where
  validationId := h.validationId.trans h'.validationId
  ownerPrincipal := h.ownerPrincipal.trans h'.ownerPrincipal
  intent := h.intent.trans h'.intent
  createdAt := h.createdAt.trans h'.createdAt
  requestJson := h.requestJson.trans h'.requestJson
  links hs :=
    have ⟨h₁, h₂⟩ := h.links hs
    have ⟨h₃, h₄⟩ := h'.links h₁
    ⟨h₃, h₂.trans h₄⟩
  judge link hl := h'.judge link (h.judge link hl)

theorem Older.setStatus {status : ValidationRunStatus} (h : run.status = .admitting ∨ status ≠ .admitting) :
    Older run { run with status := status } := by
  refine ⟨rfl, rfl, rfl, rfl, rfl, fun hs => ?_, fun _ hl => hl⟩
  exact ⟨h.resolve_left hs, rfl⟩

/-- What is so of a run at any time. -/
structure RunOk (request : VerifiedValidationRunRequest) (run : ValidationRunRecord) : Prop where
  named : NamedRun run
  parsed : parseValidationRunRequest run.requestJson = some request
  judge : ∀ link, run.judgeLink = some link → run.status = .running ∨ run.status = .finalized
  skipped : run.status = .judge_skipped → request.judgeProvider.isSome = true

/-- A judge claim is for the planned judge. -/
theorem planned_of_claim {provider : Text} (hp : parseValidationRunRequest run.requestJson = some request)
    (h : assertReviewJudgeClaim run provider = true) : request.judgeProvider.isSome = true := by
  unfold assertReviewJudgeClaim at h
  simp only [Bool.and_eq_true, Option.any_eq_true] at h
  obtain ⟨-, m, hm, ⟨v, hv, htext⟩, -⟩ := h
  obtain ⟨value, hvalue, hobject⟩ := Option.bind_eq_some_iff.1 hm
  unfold parseValidationRunRequest at hp
  obtain ⟨hp, -⟩ := Option.filter_eq_some_iff.1 hp
  rw [hvalue, Option.bind_some] at hp
  unfold validationRunRequestSchema at hp
  obtain ⟨m', hm', hp⟩ := Option.bind_eq_some_iff.1 hp
  obtain rfl := Option.some.inj (hobject.symm.trans hm')
  obtain ⟨question, -, hp⟩ := Option.bind_eq_some_iff.1 hp
  obtain ⟨content, -, hp⟩ := Option.bind_eq_some_iff.1 hp
  obtain ⟨focus, -, hp⟩ := Option.bind_eq_some_iff.1 hp
  obtain ⟨modelList, -, hp⟩ := Option.bind_eq_some_iff.1 hp
  obtain ⟨judgeProvider, hjudge, hp⟩ := Option.bind_eq_some_iff.1 hp
  cases hp
  cases v with
  | str t =>
    rw [hv] at hjudge
    change ((nonempty (.str t)).map some).map some = some judgeProvider at hjudge
    obtain ⟨o, ho, rfl⟩ := Option.map_eq_some_iff.1 hjudge
    obtain ⟨s, -, rfl⟩ := Option.map_eq_some_iff.1 ho
    rfl
  | null => cases htext
  | bool b => cases htext
  | num digits => cases htext
  | arr items => cases htext
  | obj members => cases htext

theorem claim_open {provider : Text} (h : assertReviewJudgeClaim run provider = true) :
    run.status = .running ∧ run.judgeLink = none := by
  unfold assertReviewJudgeClaim at h
  simp only [Bool.and_eq_true, decide_eq_true_eq, Option.isNone_iff_eq_none] at h
  exact ⟨h.1.1.2, h.1.2⟩

/-- What the others do to the run between two calls of a mint. -/
structure RunMove (request : VerifiedValidationRunRequest) (w w' : World) : Prop where
  older : Older w.run w'.run
  ok : RunOk request w.run → RunOk request w'.run
  finalized : w.run.status = .finalized → w'.run = w.run
  receipt : w'.receipt = w.receipt
  calls : w'.calls = w.calls
  returned : w'.returned = w.returned

theorem RunMove.refl (w : World) : RunMove request w w := ⟨.refl _, id, fun _ => rfl, rfl, rfl, rfl⟩

theorem runMove_setJudge {link : ValidationRunLink} (hn : link.named = true) (hs : w.run.status = .running)
    (hj : w.run.judgeLink = none) : RunMove request w (setJudge w link) := by
  refine ⟨⟨rfl, rfl, rfl, rfl, rfl, fun h => ⟨h, rfl⟩, fun l hl => ?_⟩, fun hok => ?_, fun hf => ?_, rfl, rfl, rfl⟩
  · rw [hj] at hl
    cases hl
  · refine ⟨{ hok.named with judge := fun l hl => ?_ }, hok.parsed, fun _ _ => Or.inl hs, hok.skipped⟩
    cases hl
    exact hn
  · rw [hs] at hf
    cases hf

theorem runMove_admitProvider {link : ValidationRunLink} (hn : link.named = true) :
    RunMove request w (admitProvider w link) := by
  unfold admitProvider
  split
  · rename_i h
    refine ⟨⟨rfl, rfl, rfl, rfl, rfl, fun hs => absurd h.2.1 hs, fun _ hl => hl⟩, fun hok => ?_, fun hf => ?_, rfl, rfl, rfl⟩
    · refine ⟨{ hok.named with links := fun l hl => ?_ }, hok.parsed, hok.judge, hok.skipped⟩
      rw [List.mem_append, List.mem_singleton] at hl
      obtain hl | rfl := hl
      · exact hok.named.links l hl
      · exact hn
    · rw [h.2.1] at hf
      cases hf
  · exact .refl w

theorem runMove_setStatus {status : ValidationRunStatus} (hs : w.run.status = .admitting ∨ status ≠ .admitting)
    (hf : w.run.status ≠ .finalized) (hj : ∀ link, w.run.judgeLink = some link → w.run.status ≠ .running)
    (hskip : status = .judge_skipped → parseValidationRunRequest w.run.requestJson = some request →
      request.judgeProvider.isSome = true) : RunMove request w (setStatus w status) := by
  refine ⟨.setStatus hs, fun hok => ?_, fun h => absurd h hf, rfl, rfl, rfl⟩
  refine ⟨{ hok.named with }, hok.parsed, fun link hl => ?_, fun h => hskip h hok.parsed⟩
  exact ((hok.judge link hl).elim (hj link hl) hf).elim

/-- **All that is not a mint** moves the run on. -/
theorem runMove_step (w : World) (e : Event) (h : ∀ i fails now, e ≠ .advance i fails now) (h' : ∀ c, e ≠ .call c) :
    RunMove request w (step lower sha w e).1 := by
  cases e with
  | call caller => exact absurd rfl (h' caller)
  | advance i fails now => exact absurd rfl (h i fails now)
  | linkJudgeJob link =>
    change RunMove request w (if _ then _ else _)
    split
    · unfold setValidationJudgeLink
      split
      · rename_i hopen
        exact runMove_setJudge link.named hopen.1 hopen.2.1
      · exact .refl w
    · exact .refl w
  | admitJudge link =>
    change RunMove request w (if _ then _ else _)
    split
    · rename_i hclaim
      obtain ⟨hs, hj⟩ := claim_open hclaim.1
      exact runMove_setJudge link.named hs hj
    · exact .refl w
  | admitProvider link => exact runMove_admitProvider link.named
  | skipValidationJudge provider =>
    change RunMove request w (if _ then _ else _)
    split
    · rename_i hclaim
      obtain ⟨hs, hj⟩ := claim_open hclaim
      refine runMove_setStatus (Or.inr (by simp)) (by simp [hs]) (fun link hl => ?_) fun _ hp => planned_of_claim hp hclaim
      rw [hj] at hl
      cases hl
    · exact .refl w
  | completeReviewAdmission | fenceReviewAdmission =>
    change RunMove request w (if _ then _ else _)
    split
    · rename_i hs
      exact runMove_setStatus (Or.inl hs) (by simp [hs]) (fun _ _ => by simp [hs]) fun h => by cases h
    · exact .refl w
  | job jobId job => exact ⟨.refl _, id, fun _ => rfl, rfl, rfl, rfl⟩

/-! ## What a receipt was minted from -/

/-- The record was minted from a row with the links that the run has. -/
def MintedFor (lower : LowerCase) (sha : Sha256) (request : VerifiedValidationRunRequest) (run : ValidationRunRecord)
    (record : ValidationReceiptRecord) : Prop :=
  ∃ row answers results judgeStatus mintedAt, Minting answers row request results judgeStatus ∧ NamedRun row ∧
    SameEvidence row run ∧
    record = recordOf row sha.hex (reportOf row lower request (normalizedResults row results) judgeStatus) mintedAt

theorem SameEvidence.symm (h : SameEvidence row run) : SameEvidence run row :=
  ⟨h.validationId.symm, h.ownerPrincipal.symm, h.intent.symm, h.createdAt.symm, h.requestJson.symm,
    h.providerLinks.symm, h.judgeLink.symm⟩

theorem SameEvidence.trans (h : SameEvidence row run) (h' : SameEvidence run run') : SameEvidence row run' :=
  ⟨h.validationId.trans h'.validationId, h.ownerPrincipal.trans h'.ownerPrincipal, h.intent.trans h'.intent,
    h.createdAt.trans h'.createdAt, h.requestJson.trans h'.requestJson, h.providerLinks.trans h'.providerLinks,
    h.judgeLink.trans h'.judgeLink⟩

theorem MintedFor.verifies {record : ValidationReceiptRecord} (h : MintedFor lower sha request run record)
    (hs : SameEvidence run row) (ha : Accepts row request) : verifiedReceiptEnvelope sha record row ≠ none := by
  obtain ⟨row₀, answers, results, judgeStatus, mintedAt, hm, hn, hsame, rfl⟩ := h
  exact verifiedReceiptEnvelope_recordOf hm hn (hsame.trans hs) ha

theorem MintedFor.judge {record : ValidationReceiptRecord} (h : MintedFor lower sha request run record)
    (hv : verifiedReceiptEnvelope sha record row ≠ none) : run.judgeLink.isSome = row.judgeLink.isSome := by
  obtain ⟨row₀, answers, results, judgeStatus, mintedAt, hm, hn, hsame, rfl⟩ := h
  rw [← hsame.judgeLink]
  exact verifiedReceiptEnvelope_judge hm hn hv

theorem accepts_finalized (h : run.status = .finalized) : Accepts run request :=
  ⟨fun _ _ => Or.inr h, fun _ => Or.inr h⟩

/-- The row of a mint that has a record goes with the status it was read with. -/
theorem accepts_of_minting {answers : Answers} {results : List AsyncJobResult} {judgeStatus : Option AsyncJobStatus}
    (hm : Minting answers row request results judgeStatus) (hok : RunOk request row) : Accepts row request := by
  refine ⟨fun hnone hplanned => Or.inl (hm.skipped hplanned hnone), fun h => ?_⟩
  obtain h | h := h
  · obtain ⟨link, hl⟩ := Option.isSome_iff_exists.1 h
    exact hok.judge link hl
  · cases hs : row.status with
    | admitting => exact absurd hs hm.status.1
    | running => exact Or.inl rfl
    | judge_skipped =>
      have := hok.skipped hs
      rw [h] at this
      cases this
    | admission_failed => exact absurd hs hm.status.2
    | finalized => exact Or.inr rfl

theorem Older.sameEvidence (h : Older row run) (hs : row.status ≠ .admitting) (hj : row.judgeLink = run.judgeLink) :
    SameEvidence row run :=
  ⟨h.validationId, h.ownerPrincipal, h.intent, h.createdAt, h.requestJson, (h.links hs).2, hj⟩

/-! ## The invariant -/

/-- The calls in flight have read what the run and the receipt were at some time before. -/
structure CallOk (request : VerifiedValidationRunRequest) (w : World) (c : MintCall) : Prop where
  late : c.late = true → w.receipt.isSome = true
  looked : ∀ existing, c.phase = .looked existing →
    (∀ record, existing = some record → w.receipt = some record) ∧ (c.late = true → existing.isSome = true)
  minting : ∀ row answers, c.phase = .minting row answers → c.late = false ∧ Older row w.run ∧ RunOk request row

structure ReturnedOk (sha : Sha256) (w : World) (r : Returned) : Prop where
  verified : r.result ≠ .verification_failed
  late : r.late = true → r.result ≠ .expired_unminted ∧ r.result ≠ .pending
  minted : ∀ receipt, r.result = .minted receipt →
    ∃ record row, w.receipt = some record ∧ verifiedReceiptEnvelope sha record row = some receipt

structure Inv (lower : LowerCase) (sha : Sha256) (request : VerifiedValidationRunRequest) (w : World) : Prop where
  run : RunOk request w.run
  receipt : ∀ record, w.receipt = some record → w.run.status = .finalized ∧ MintedFor lower sha request w.run record
  calls : ∀ c ∈ w.calls, CallOk request w c
  returned : ∀ r ∈ w.returned, ReturnedOk sha w r

/-- The receipt of the run verifies; no caller is told that it does not, and none that came after it is told that there is
none; all are given the same. -/
structure Sound (sha : Sha256) (w : World) : Prop where
  verifies : ∀ record, w.receipt = some record → verifiedReceiptEnvelope sha record w.run ≠ none
  verified : ∀ r ∈ w.returned, r.result ≠ .verification_failed
  late : ∀ r ∈ w.returned, r.late = true → r.result ≠ .expired_unminted ∧ r.result ≠ .pending
  same : ∀ r ∈ w.returned, ∀ r' ∈ w.returned, ∀ receipt receipt',
    r.result = .minted receipt → r'.result = .minted receipt' → receipt = receipt'

theorem Inv.sound (h : Inv lower sha request w) : Sound sha w where
  verifies record hr := by
    obtain ⟨hf, hm⟩ := h.receipt record hr
    exact hm.verifies ⟨rfl, rfl, rfl, rfl, rfl, rfl, rfl⟩ (accepts_finalized hf)
  verified r hr := (h.returned r hr).verified
  late r hr := (h.returned r hr).late
  same r hr r' hr' receipt receipt' hm hm' := by
    obtain ⟨record, row, hrec, hv⟩ := (h.returned r hr).minted receipt hm
    obtain ⟨record', row', hrec', hv'⟩ := (h.returned r' hr').minted receipt' hm'
    obtain rfl := Option.some.inj (hrec.symm.trans hrec')
    exact verifiedReceiptEnvelope_unique hv hv'

/-! ### Moves of the others -/

theorem CallOk.mono {c : MintCall} (h : CallOk request w c) (ho : Older w.run w'.run)
    (hr : ∀ record, w.receipt = some record → w'.receipt = some record) : CallOk request w' c where
  late hl := by
    obtain ⟨record, hrec⟩ := Option.isSome_iff_exists.1 (h.late hl)
    rw [hr record hrec]
    rfl
  looked existing hp :=
    have ⟨h₁, h₂⟩ := h.looked existing hp
    ⟨fun record he => hr record (h₁ record he), h₂⟩
  minting row answers hp :=
    have ⟨h₁, h₂, h₃⟩ := h.minting row answers hp
    ⟨h₁, h₂.trans ho, h₃⟩

theorem ReturnedOk.mono {r : Returned} (h : ReturnedOk sha w r)
    (hr : ∀ record, w.receipt = some record → w'.receipt = some record) : ReturnedOk sha w' r where
  verified := h.verified
  late := h.late
  minted receipt hm :=
    have ⟨record, row, hrec, hv⟩ := h.minted receipt hm
    ⟨record, row, hr record hrec, hv⟩

theorem Inv.move (h : Inv lower sha request w) (hm : RunMove request w w') : Inv lower sha request w' := by
  have hr : ∀ record, w.receipt = some record → w'.receipt = some record := fun record hrec => hm.receipt.trans hrec
  refine ⟨hm.ok h.run, fun record hrec => ?_, fun c hc => ?_, fun r hret => ?_⟩
  · rw [hm.receipt] at hrec
    obtain ⟨hf, hminted⟩ := h.receipt record hrec
    rw [hm.finalized hf]
    exact ⟨hf, hminted⟩
  · rw [hm.calls] at hc
    exact (h.calls c hc).mono hm.older hr
  · rw [hm.returned] at hret
    exact (h.returned r hret).mono hr

/-! ### Moves of a mint -/

variable {i : ℕ} {c : MintCall} {now : Text}

theorem inv_setPhase (h : Inv lower sha request w) {phase : Phase}
    (hc : CallOk request w { c with phase := phase }) : Inv lower sha request (setPhase w i c phase) := by
  refine ⟨h.run, h.receipt, fun d hd => ?_, fun r hr => (h.returned r hr).mono fun _ hrec => hrec⟩
  obtain hd | rfl := List.mem_or_eq_of_mem_set hd
  · exact (h.calls d hd).mono (.refl _) fun _ hrec => hrec
  · exact hc.mono (.refl _) fun _ hrec => hrec

/-- A call that is over with a result that is allowed. -/
theorem inv_finish (h : Inv lower sha request w) (hc : c.late = true → w.receipt.isSome = true)
    {result : Option ValidationReceiptResult}
    (hr : ∀ r, c.caller.isSome = true → result = some r → ReturnedOk sha w ⟨c.late, r⟩) :
    Inv lower sha request (finish w i c result) := by
  have hended : CallOk request w { c with phase := .ended } :=
    ⟨hc, fun _ he => (nomatch he), fun _ _ he => nomatch he⟩
  have hp := inv_setPhase (i := i) h hended
  refine ⟨hp.run, hp.receipt, fun d hd => (hp.calls d hd).mono (.refl _) fun _ hrec => hrec, fun r hret => ?_⟩
  obtain hret | hret := List.mem_append.1 hret
  · exact (hp.returned r hret).mono fun _ hrec => hrec
  · rw [Option.mem_toList] at hret
    obtain ⟨v, hv, rfl⟩ := Option.map_eq_some_iff.1 hret
    split at hv
    · rename_i hcaller
      exact (hr v hcaller hv).mono fun _ hrec => hrec
    · cases hv

theorem inv_finish_none (h : Inv lower sha request w) (hc : c.late = true → w.receipt.isSome = true) :
    Inv lower sha request (finish w i c none) :=
  inv_finish h hc fun _ _ he => by cases he

theorem mintedResult_of_verifies {record : ValidationReceiptRecord} {late : Bool} (hrec : w.receipt = some record)
    (hv : verifiedReceiptEnvelope sha record row ≠ none) : ReturnedOk sha w ⟨late, mintedResult sha record row⟩ := by
  obtain ⟨receipt, hreceipt⟩ := Option.ne_none_iff_exists'.1 hv
  have hresult : mintedResult sha record row = .minted receipt := by
    unfold mintedResult
    rw [hreceipt]
    rfl
  rw [hresult]
  refine ⟨by simp, fun _ => ⟨by simp, by simp⟩, fun r hr => ?_⟩
  cases hr
  exact ⟨record, row, hrec, hreceipt⟩

/-- The row of a mint whose next call is `finalizeValidationReceipt`. -/
def Phase.finalizing (lower : LowerCase) (sha : Sha256) (now : Text) : Phase → Option ValidationRunRecord
  | .minting row answers =>
    match prepare answers row lower sha.hex now with
    | .record _ => some row
    | _ => none
  | _ => none

/-- **The condition**: a receipt is finalized by a mint whose row has the judge link that the run has now; an eager mint may
come too late. -/
def FinalizesCurrent (lower : LowerCase) (sha : Sha256) (w : World) : Event → Prop
  | .advance i fails now =>
    fails = true ∨ ∀ c ∈ w.calls[i]?, ∀ row ∈ c.phase.finalizing lower sha now,
      row.judgeLink = w.run.judgeLink ∨ (c.caller = none ∧ w.receipt.isSome = true)
  | _ => True

instance : ∀ e, Decidable (FinalizesCurrent lower sha w e)
  | .advance i fails now => inferInstanceAs (Decidable
      (fails = true ∨ ∀ c ∈ w.calls[i]?, ∀ row ∈ c.phase.finalizing lower sha now,
        row.judgeLink = w.run.judgeLink ∨ (c.caller = none ∧ w.receipt.isSome = true)))
  | .call _ | .linkJudgeJob _ | .admitJudge _ | .admitProvider _ | .skipValidationJudge _ | .completeReviewAdmission
  | .fenceReviewAdmission | .job _ _ => .isTrue trivial

theorem finalizing_eq {answers : Answers} {record : ValidationReceiptRecord} {now : Text}
    (h : prepare answers row lower sha.hex now = .record record) :
    (Phase.minting row answers).finalizing lower sha now = some row := by
  unfold Phase.finalizing
  dsimp only
  rw [h]

/-- What `finalizeValidationReceipt` stores for a mint that goes on from a row of the run. -/
theorem finalize_eq (ho : Older row w.run) (content : ValidationReportV1Content) :
    finalizeValidationReceipt w (recordOf row sha.hex content now) =
      some ({ setStatus w .finalized with receipt := some (w.receipt.getD (recordOf row sha.hex content now)) },
        w.receipt.getD (recordOf row sha.hex content now)) :=
  if_pos ⟨ho.validationId, ho.ownerPrincipal⟩

/-- A finalized run stays as it is when it is finalized again. -/
theorem setStatus_finalized (h : w.run.status = .finalized) : (setStatus w .finalized).run = w.run := by
  change { w.run with status := .finalized } = w.run
  rw [← h]

theorem older_finalized (w : World) : Older w.run (setStatus w .finalized).run := .setStatus (Or.inr (by simp))

section finalizing
variable {answers : Answers} {record : ValidationReceiptRecord}

/-- The world after a receipt is finalized, with what is stored. -/
theorem inv_finalize (h : Inv lower sha request w) (ho : Older row w.run) (hok : RunOk request row)
    (hp : prepare answers row lower sha.hex now = .record record)
    (hj : row.judgeLink = w.run.judgeLink ∨ w.receipt.isSome = true) :
    Inv lower sha request { setStatus w .finalized with receipt := some (w.receipt.getD record) } := by
  obtain ⟨req, results, judgeStatus, hm, rfl⟩ := prepare_record hp
  obtain rfl := Option.some.inj (hm.parsed.symm.trans hok.parsed)
  have hr : ∀ stored, w.receipt = some stored → some (w.receipt.getD (recordOf row sha.hex
      (reportOf row lower req (normalizedResults row results) judgeStatus) now)) = some stored := by
    intro stored hs
    rw [hs]
    rfl
  refine ⟨?_, fun stored hs => ⟨rfl, ?_⟩, fun c hc => (h.calls c hc).mono (older_finalized w) hr,
    fun r hret => (h.returned r hret).mono hr⟩
  · refine ⟨{ h.run.named with }, h.run.parsed, fun _ _ => Or.inr rfl, fun hs => ?_⟩
    cases hs
  · obtain rfl := Option.some.inj hs
    cases hreceipt : w.receipt with
    | some stored =>
      obtain ⟨hf, hminted⟩ := h.receipt stored hreceipt
      change MintedFor lower sha req (setStatus w .finalized).run stored
      rw [setStatus_finalized hf]
      exact hminted
    | none =>
      have hj' : row.judgeLink = w.run.judgeLink := by
        refine hj.resolve_right ?_
        rw [hreceipt]
        simp
      have hsame := ho.sameEvidence hm.status.1 hj'
      exact ⟨row, answers, results, judgeStatus, now, hm, hok.named,
        ⟨hsame.validationId, hsame.ownerPrincipal, hsame.intent, hsame.createdAt, hsame.requestJson, hsame.providerLinks,
          hsame.judgeLink⟩, rfl⟩

theorem inv_advance (h : Inv lower sha request w) {fails : Bool} (hc : w.calls[i]? = some c)
    (hk : FinalizesCurrent lower sha w (.advance i fails now)) :
    Inv lower sha request (advance lower sha w i c fails now) := by
  have hok := h.calls c (List.mem_of_getElem? hc)
  unfold advance
  split
  · -- the receipts are read
    rename_i hphase
    split
    · exact inv_finish_none h hok.late
    · split
      · exact inv_finish_none h hok.late
      · exact inv_setPhase h ⟨hok.late, fun existing he => by cases he; exact ⟨fun _ hr => hr, hok.late⟩,
          fun _ _ he => nomatch he⟩
  · -- the run is read
    rename_i existing hphase
    obtain ⟨hexisting, hlate⟩ := hok.looked existing hphase
    split
    · exact inv_finish_none h hok.late
    · split
      · refine inv_finish h hok.late fun r _ hr => ?_
        cases hr
        exact ⟨by simp, fun _ => ⟨by simp, by simp⟩, fun _ he => nomatch he⟩
      · split
        · rename_i stored
          refine inv_finish h hok.late fun r _ hr => ?_
          cases hr
          have hstored := hexisting stored rfl
          exact mintedResult_of_verifies hstored (h.sound.verifies stored hstored)
        · refine inv_setPhase h ⟨hok.late, fun _ he => (nomatch he), fun row answers he => ?_⟩
          cases he
          refine ⟨?_, .refl _, h.run⟩
          cases hl : c.late with
          | false => rfl
          | true =>
            have := hlate hl
            cases this
  · rename_i row answers hphase
    obtain ⟨hlate, ho, hrow⟩ := hok.minting row answers hphase
    have hmissing : ∀ r : ValidationReceiptResult, r = .pending ∨ r = .expired_unminted →
        ReturnedOk sha w ⟨c.late, r⟩ := by
      intro r hr
      rw [hlate]
      obtain rfl | rfl := hr
      · exact ⟨by simp, fun he => (nomatch he), fun _ he => nomatch he⟩
      · exact ⟨by simp, fun he => (nomatch he), fun _ he => nomatch he⟩
    split
    · refine inv_setPhase h ⟨hok.late, fun _ he => (nomatch he), fun _ _ he => ?_⟩
      cases he
      exact ⟨hlate, ho, hrow⟩
    · refine inv_finish h hok.late fun r _ hr => ?_
      cases hr
      exact hmissing _ (Or.inl rfl)
    · refine inv_finish h hok.late fun r _ hr => ?_
      cases hr
      exact hmissing _ (Or.inr rfl)
    · rename_i record hprepare
      have hcond : fails = true ∨ row.judgeLink = w.run.judgeLink ∨ (c.caller = none ∧ w.receipt.isSome = true) := by
        refine hk.imp_right fun hall => hall c hc row ?_
        rw [hphase]
        exact finalizing_eq hprepare
      split
      · exact inv_finish_none h hok.late
      · rename_i hfails
        have hcond' := hcond.resolve_left hfails
        have hinv := inv_finalize h ho hrow hprepare (hcond'.imp_right And.right)
        obtain ⟨req, results, judgeStatus, hm, rfl⟩ := prepare_record hprepare
        obtain rfl := Option.some.inj (hm.parsed.symm.trans hrow.parsed)
        rw [finalize_eq ho]
        dsimp only
        refine inv_finish hinv (fun _ => rfl) fun r hcaller hr => ?_
        cases hr
        have hj : row.judgeLink = w.run.judgeLink := by
          refine hcond'.resolve_right fun hnone => ?_
          rw [hnone.1] at hcaller
          cases hcaller
        obtain ⟨-, hminted⟩ := hinv.receipt _ rfl
        have hsame := (ho.trans (older_finalized w)).sameEvidence hm.status.1 hj
        exact mintedResult_of_verifies rfl (hminted.verifies hsame.symm (accepts_of_minting hm hrow))
  · exact h

/-- A mint that finalizes for another judge link is found out at once. -/
theorem finalizesCurrent_of_sound (h : Inv lower sha request w) (e : Event) (hs : Sound sha (step lower sha w e).1) :
    FinalizesCurrent lower sha w e := by
  cases e with
  | advance i fails now =>
    by_contra hcond
    obtain ⟨hfails, hstale⟩ := not_or.1 hcond
    obtain rfl := eq_false_of_ne_true hfails
    simp only [not_forall, not_or, not_and] at hstale
    obtain ⟨c, hc, row₁, hrow', hj, hlate⟩ := hstale
    obtain ⟨caller, late, phase⟩ := c
    cases phase with
    | minting row answers =>
      unfold Phase.finalizing at hrow'
      dsimp only at hrow'
      split at hrow'
      · rename_i record hprepare
        obtain rfl := Option.some.inj hrow'
        have hok := h.calls _ (List.mem_of_getElem? hc)
        obtain ⟨-, ho, hrow⟩ := hok.minting _ answers rfl
        obtain ⟨req, results, judgeStatus, hm, hrecord⟩ := prepare_record hprepare
        obtain rfl := Option.some.inj (hm.parsed.symm.trans hrow.parsed)
        -- a judge was claimed after the row was read
        have hclaimed : row.judgeLink.isSome ≠ w.run.judgeLink.isSome := by
          intro he
          cases hl : row.judgeLink with
          | some link => exact hj (hl.trans (ho.judge link hl).symm)
          | none =>
            rw [hl] at he hj
            exact hj (Option.not_isSome_iff_eq_none.1 (by rw [← he]; simp)).symm
        have hstep : (step lower sha w (.advance i false now)).1 =
            finish { setStatus w .finalized with receipt := some (w.receipt.getD record) } i
              ⟨caller, late, .minting row answers⟩ (some (mintedResult sha (w.receipt.getD record) row)) := by
          unfold step
          dsimp only
          rw [hc]
          unfold advance
          dsimp only
          rw [hprepare, hrecord]
          dsimp only
          rw [finalize_eq ho]
          rfl
        rw [hstep] at hs
        have hlate' : caller = none → ¬w.receipt.isSome = true := hlate
        cases hreceipt : w.receipt with
        | none =>
          -- the new receipt does not verify against the run
          rw [hreceipt] at hs
          have hv := hs.verifies record rfl
          rw [hrecord] at hv
          have hjudge := verifiedReceiptEnvelope_judge hm hrow.named hv
          exact hclaimed hjudge
        | some stored =>
          -- the stored receipt does not verify against the row
          obtain ⟨-, hminted⟩ := h.receipt stored hreceipt
          have hcaller : caller ≠ none := fun hnone => by simpa [hreceipt] using hlate' hnone
          rw [hreceipt] at hs
          have hv : verifiedReceiptEnvelope sha stored row ≠ none := by
            intro hnone
            refine hs.verified ⟨late, mintedResult sha stored row⟩ ?_ (by simp [mintedResult, hnone])
            refine List.mem_append_right _ (Option.mem_toList.2 ?_)
            dsimp only
            rw [if_pos (Option.isSome_iff_ne_none.2 hcaller)]
            rfl
          exact hclaimed (hminted.judge hv).symm
      · cases hrow'
    | called => cases hrow'
    | looked _ => cases hrow'
    | ended => cases hrow'
  | _ => trivial

end finalizing

theorem inv_step (h : Inv lower sha request w) {e : Event} (hk : FinalizesCurrent lower sha w e) :
    Inv lower sha request (step lower sha w e).1 := by
  cases e with
  | call caller =>
    have hnew : CallOk request w ⟨caller, w.receipt.isSome, .called⟩ :=
      ⟨id, fun _ he => (nomatch he), fun _ _ he => nomatch he⟩
    refine ⟨h.run, h.receipt, fun d hd => ?_, fun r hr => (h.returned r hr).mono fun _ hrec => hrec⟩
    obtain hd | hd := List.mem_append.1 hd
    · exact (h.calls d hd).mono (.refl _) fun _ hrec => hrec
    · rw [List.mem_singleton.1 hd]
      exact hnew.mono (.refl _) fun _ hrec => hrec
  | advance i fails now =>
    unfold step
    dsimp only
    split
    · exact h
    · rename_i c hc
      exact inv_advance h hc hk
  | linkJudgeJob _
  | admitJudge _
  | admitProvider _
  | skipValidationJudge _
  | completeReviewAdmission
  | fenceReviewAdmission
  | job _ _ => exact h.move (runMove_step w _ (fun _ _ _ => nofun) fun _ => nofun)

/-! ## Runs -/

/-- The run as `persistValidationRun` records it, before any mint. -/
structure Recorded (request : VerifiedValidationRunRequest) (w : World) : Prop where
  named : NamedRun w.run
  parsed : parseValidationRunRequest w.run.requestJson = some request
  judgeLink : w.run.judgeLink = none
  status : w.run.status = .running ∨ w.run.status = .admitting
  receipt : w.receipt = none
  calls : w.calls = []
  returned : w.returned = []

theorem Recorded.inv (h : Recorded request w) : Inv lower sha request w := by
  refine ⟨⟨h.named, h.parsed, fun link hl => ?_, fun hs => ?_⟩, fun record hr => ?_, fun c hc => ?_, fun r hr => ?_⟩
  · rw [h.judgeLink] at hl
    cases hl
  · obtain hs' | hs' := h.status <;> rw [hs] at hs' <;> cases hs'
  · rw [h.receipt] at hr
    cases hr
  · rw [h.calls] at hc
    cases hc
  · rw [h.returned] at hr
    cases hr

/-- **When receipts verify at once and forever**: exactly along the runs in which no receipt is finalized for a judge link
that the run has outgrown. -/
theorem sound_throughout_iff (h : Recorded request w) (events : List Event) :
    Run.Throughout (step lower sha) (Sound sha) w events ↔
      Run.Along (step lower sha) (FinalizesCurrent lower sha) w events :=
  Run.throughout_iff_of_invariant (P := Inv lower sha request) (fun _ hinv => hinv.sound)
    (fun _ _ hk hinv => inv_step hinv hk)
    (fun _ e hinv hs => finalizesCurrent_of_sound hinv e hs) h.inv events

/-! ### A judge that is claimed while a receipt is minted -/

section demo

/-- The digest of the report on the demo run, for every text. -/
def demoSha : Sha256 where
  hex _ := text "f97fbdc82f69d4dff99b51e245f3da7ba5dc82f976dd0c124c8d179935a881ab"
  isHex64_hex _ := by decide

def demoRequest : VerifiedValidationRunRequest := ⟨none, none, none, [text "claude", text "codex"], none⟩

/-- The demo run, with both reviewers still at work. -/
def demoWorld : World where
  run := demoRun
  receipt := none
  runJobs jobId := if jobId = text "job-1" ∨ jobId = text "job-2" then some (text "run") else none
  jobs _ := none
  calls := []
  returned := []

/-- Both jobs end, the owner asks for the receipt, and the receipts and the run are read. -/
def askedEvents : List Event := [
  .job (text "job-1") (some ⟨some (text "local"), demoResult "claude" "job-1" "Verdict: ok"⟩),
  .job (text "job-2") (some ⟨some (text "local"), demoResult "codex" "job-2" "fine\nverdict:  OK"⟩),
  .call (some (text "local")),
  .advance 0 false demoMintedAt,
  .advance 0 false demoMintedAt]

/-- The jobs are read, and the receipt is finalized. -/
def readEvents : List Event := List.replicate 7 (.advance 0 false demoMintedAt)

def demoJudge : JobLink := ⟨demoLink "gemini" "job-3", by decide⟩

theorem recorded_demo : Recorded demoRequest demoWorld where
  named := ⟨by decide, by decide, by decide, by decide, fun _ h => nomatch h⟩
  parsed := by decide +kernel
  judgeLink := rfl
  status := Or.inl rfl
  receipt := rfl
  calls := rfl
  returned := rfl

/-- The owner asks once more. -/
def againEvents : List Event :=
  [.call (some (text "local")), .advance 1 false demoMintedAt, .advance 1 false demoMintedAt]

/-- A judge is linked after the run is read: the receipt that is minted never verifies again. -/
theorem not_receipts_verify : Recorded demoRequest demoWorld ∧
    ⟨true, .verification_failed⟩ ∈ (Run.final (step asciiLowerCase demoSha) demoWorld
      (askedEvents ++ [.linkJudgeJob demoJudge] ++ readEvents ++ againEvents)).returned ∧
    ¬Run.Throughout (step asciiLowerCase demoSha) (Sound demoSha) demoWorld
      (askedEvents ++ [.linkJudgeJob demoJudge] ++ readEvents ++ againEvents) := by
  have hreturned : ⟨true, .verification_failed⟩ ∈ (Run.final (step asciiLowerCase demoSha) demoWorld
      (askedEvents ++ [.linkJudgeJob demoJudge] ++ readEvents ++ againEvents)).returned := by decide +kernel
  refine ⟨recorded_demo, hreturned, fun h => ?_⟩
  have hsound := Run.throughout_iff.1 h _ [] (List.append_nil _).symm
  exact hsound.verified _ hreturned rfl

/-- Without the judge the same calls are sound throughout, and both are given the receipt. -/
theorem sound_throughout_iff_demo :
    Run.Throughout (step asciiLowerCase demoSha) (Sound demoSha) demoWorld (askedEvents ++ readEvents ++ againEvents) ∧
      (Run.final (step asciiLowerCase demoSha) demoWorld (askedEvents ++ readEvents ++ againEvents)).returned.map
        (fun r => decide (r.result = .verification_failed)) = [false, false] := by
  refine ⟨(sound_throughout_iff recorded_demo _).2 ?_, by decide +kernel⟩
  decide +kernel

end demo

end LlmGateway.Validation
