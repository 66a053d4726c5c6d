import LlmGateway.Lib.JsString
import LlmGateway.Lib.Regex
import LlmGateway.Manager.ResultPage

/-!
# `validation-normalizer.ts`: the result of a reviewer's job

* `normalizeJobResult`, `normalizeSkippedProvider` — the source's functions;
* `inferVerdict`, `extractRisks`, `excerpt` — what is read out of the text of the job;
* `inferVerdict_spec` — a completed job with something on stdout has a verdict, and it is not blank.
-/

namespace LlmGateway.Validation

open LlmGateway.Lib LlmGateway.Lib.Utf16
open LlmGateway.Manager.ResultPage (PageText)

inductive AsyncJobStatus where
  | queued
  | running
  | completed
  | failed
  | canceled
  | orphaned
deriving DecidableEq

inductive NormalizedValidationStatus where
  | running
  | completed
  | failed
  | canceled
  | orphaned
  | skipped
deriving DecidableEq

def NormalizedValidationStatus.toText : NormalizedValidationStatus → Text
  | .running => text "running"
  | .completed => text "completed"
  | .failed => text "failed"
  | .canceled => text "canceled"
  | .orphaned => text "orphaned"
  | .skipped => text "skipped"

/-- A terminal result is never queued. -/
def AsyncJobStatus.normalized : AsyncJobStatus → NormalizedValidationStatus
  | .queued => .running
  | .running => .running
  | .completed => .completed
  | .failed => .failed
  | .canceled => .canceled
  | .orphaned => .orphaned

structure AsyncJobResult where
  id : Text
  cli : Text
  status : AsyncJobStatus
  correlationId : Text
  outputTruncated : Bool
  stdoutBytes : ℕ
  stderrBytes : ℕ
  error : Option Text
  stdout : PageText UInt16
  stderr : PageText UInt16

/-- `statusTool` and `resultTool` are constants. -/
structure RawJobReference where
  jobId : Text
  correlationId : Text
deriving DecidableEq

structure NormalizedValidationResult where
  provider : Text
  model : Option Text
  status : NormalizedValidationStatus
  verdict : Option Text
  rationale : Option Text
  risks : List Text
  rawJobReference : Option RawJobReference
  error : Option Text
  warning : Option Text
  emptyOutput : Bool
deriving DecidableEq

def normalizeSkippedProvider (provider reason : Text) : NormalizedValidationResult where
  provider := provider
  model := none
  status := .skipped
  verdict := some (text "not_run")
  rationale := some reason
  risks := [reason]
  rawJobReference := none
  error := some reason
  warning := none
  emptyOutput := false

def excerpt (value : Text) (max : ℕ) : Text :=
  if value.length ≤ max then value else value.take (max - 3) ++ text "..."

section patterns
open Regex

/-- `/(?:^|\n)\s*verdict\s*:\s*(.+)/i` at one position. -/
def verdictPattern (start : Bool) : Pattern UInt16 Text :=
  seq (alt (here start ()) (seq (unit (· == 10)) fun _ => here true ())) fun _ =>
  seq (star isSpace) fun _ =>
  seq (word ("verdict".toList.map letter)) fun _ =>
  seq (star isSpace) fun _ =>
  seq (unit (· == 58)) fun _ =>
  seq (star isSpace) fun _ =>
  plus fun u => !isLineTerminator u

/-- `[-*]\s*`, or nothing. -/
def bullet : Pattern UInt16 Unit :=
  alt (seq (unit fun u => u == 45 || u == 42) fun _ => seq (star isSpace) fun _ => here true ()) (here true ())

def riskWords : List String := ["risk", "risks", "concern", "caution", "limitation"]

/-- `/^(?:[-*]\s*)?(?:risk|risks|concern|caution|limitation)\b/i.test(line)` -/
def isRiskLine (line : Text) : Bool :=
  !(riskWords.flatMap fun w =>
    (seq bullet fun _ => seq (word (w.toList.map letter)) fun _ => notAhead isWord) line).isEmpty

end patterns

def inferVerdict (output : Text) (status : AsyncJobStatus) : Option Text :=
  match status with
  | .running => some (text "pending")
  | .canceled => some (text "canceled")
  | .orphaned => some (text "orphaned")
  | .failed => some (text "failed")
  | _ =>
    match Regex.search verdictPattern true output with
    | some (u :: rest) => some (excerpt (trim (u :: rest)) 240)
    | _ => if output ≠ [] then some (text "answered") else none

def extractRisks (output : Text) (error : Option Text) : List Text :=
  let risks := ((((lines output).map trim).filter isRiskLine).take 5).map fun line => excerpt line 300
  match error with
  | some (u :: rest) => if risks.isEmpty then [excerpt (u :: rest) 300] else risks
  | _ => risks

/-- `result.error || (result.status === "failed" ? result.stderr.trim() : null)` -/
def resultError (result : AsyncJobResult) : Option Text :=
  match result.error with
  | some (u :: rest) => some (u :: rest)
  | _ => if result.status = .failed then some (trim result.stderr.text) else none

def normalizeJobResult (provider : Text) (model : Option Text) (result : AsyncJobResult) : NormalizedValidationResult :=
  let output := trim result.stdout.text
  let error := resultError result
  { provider := provider
    model := model
    status := result.status.normalized
    verdict := inferVerdict output result.status
    rationale := if output ≠ [] then some (excerpt output 1800) else error
    risks := extractRisks output error
    rawJobReference := some ⟨result.id, result.correlationId⟩
    error := error
    warning := none
    emptyOutput := result.status = .completed && output.isEmpty }

/-! ## Verdicts -/

theorem excerpt_cons (u : UInt16) (s : Text) {max : ℕ} (h : 3 < max) : ∃ t, excerpt (u :: s) max = u :: t := by
  unfold excerpt
  split
  · exact ⟨s, rfl⟩
  · refine ⟨s.take (max - 4) ++ text "...", ?_⟩
    rw [show max - 3 = (max - 4) + 1 by omega]
    rfl

theorem length_excerpt {s : Text} {max : ℕ} (h : 3 ≤ max) : (excerpt s max).length ≤ max := by
  unfold excerpt
  split
  · assumption
  · have : (text "...").length = 3 := rfl
    rw [List.length_append, List.length_take, this]
    omega

theorem length_inferVerdict {output v : Text} {status : AsyncJobStatus} (h : inferVerdict output status = some v) :
    v.length ≤ 240 := by
  unfold inferVerdict at h
  split at h
  · cases h
    decide
  · cases h
    decide
  · cases h
    decide
  · cases h
    decide
  · split at h
    · cases h
      exact length_excerpt (by omega)
    · split at h
      · cases h
        decide
      · cases h

section patterns
open Regex

/-- Behind the colon, the pattern takes the white space first; what it captures begins with something else. -/
theorem first_capture {s : Text} {r : Text × Text}
    (hlast : ∀ h : s ≠ [], isSpace (s.getLast h) = false)
    (h : first (seq (star isSpace) fun _ => plus fun u => !isLineTerminator u) s = some r) :
    ∃ u t, r.1 = u :: t ∧ isSpace u = false := by
  cases hd : s.dropWhile isSpace with
  | nil =>
    -- all that is left is white space, and then nothing is left
    have hall := List.dropWhile_eq_nil_iff.1 hd
    by_cases hs : s = []
    · subst hs
      cases h
    · have := hlast hs
      rw [hall _ (List.getLast_mem hs)] at this
      cases this
  | cons u t =>
    have hu : isSpace u = false := by
      have hne : s.dropWhile isSpace ≠ [] := by rw [hd]; exact List.cons_ne_nil u t
      have := List.head_dropWhile_not isSpace hne
      simp only [hd, List.head_cons] at this
      exact this
    have hterm : (!isLineTerminator u) = true := by
      cases hl : isLineTerminator u with
      | false => rfl
      | true =>
        rw [isSpace_of_isLineTerminator hl] at hu
        cases hu
    have htake := first_star_seq (f := fun _ => plus fun u => !isLineTerminator u) (s := s) (p := isSpace)
      (by rw [hd]; exact first_plus hterm)
    rw [htake] at h
    cases h
    exact ⟨u, _, rfl, hu⟩

theorem verdictPattern_spec {start : Bool} {s : Text} {r : Text × Text}
    (hlast : ∀ h : s ≠ [], isSpace (s.getLast h) = false) (h : first (verdictPattern start) s = some r) :
    ∃ u t, r.1 = u :: t ∧ isSpace u = false := by
  obtain ⟨a, ha, h⟩ := first_seq h
  obtain ⟨b, hb, h⟩ := first_seq h
  obtain ⟨c, hc, h⟩ := first_seq h
  obtain ⟨d, hd, h⟩ := first_seq h
  obtain ⟨e, he, h⟩ := first_seq h
  have hends : e.2 <:+ s := by
    have hfront : Ends (alt (here start ()) (seq (unit (· == (10 : UInt16))) fun _ => here true ())) :=
      (ends_here _ _).alt ((ends_unit _).seq fun _ => ends_here _ _)
    have h₁ := hfront _ _ ha
    have h₂ := ends_star _ _ _ hb
    have h₃ := ends_word _ _ _ hc
    have h₄ := ends_star _ _ _ hd
    have h₅ := ends_unit _ _ _ he
    exact h₅.trans (h₄.trans (h₃.trans (h₂.trans h₁)))
  refine first_capture (fun hne => ?_) h
  have hs : s ≠ [] := by
    rintro rfl
    exact hne (List.suffix_nil.1 hends)
  rw [hends.getLast hne]
  exact hlast hs

end patterns

/-- **A completed job that said something has a verdict**, and the verdict is not blank. -/
theorem inferVerdict_spec {s : Text} (h : trim s ≠ []) :
    ∃ u t, inferVerdict (trim s) .completed = some (u :: t) ∧ isSpace u = false := by
  unfold inferVerdict
  dsimp only
  split
  · next u rest hm =>
    obtain ⟨b, t, ht, r, hr⟩ := Regex.search_spec hm
    have hlast : ∀ hne : t ≠ [], isSpace (t.getLast hne) = false := by
      intro hne
      rw [ht.getLast hne]
      exact last_trim h
    obtain ⟨v, w, hvw, hv⟩ := verdictPattern_spec hlast hr
    obtain ⟨rfl, rfl⟩ := List.cons.inj hvw
    obtain ⟨w', hw'⟩ := head_trim (s := rest) hv
    rw [hw']
    obtain ⟨t', ht'⟩ := excerpt_cons u w' (show 3 < 240 by omega)
    exact ⟨u, t', by rw [ht'], hv⟩
  · rw [if_pos h]
    exact ⟨_, _, rfl, by decide⟩

theorem AsyncJobStatus.normalized_eq_completed {status : AsyncJobStatus} :
    status.normalized = .completed ↔ status = .completed := by
  cases status <;> simp [AsyncJobStatus.normalized]

end LlmGateway.Validation
