import LlmGateway.JobStore.Types
import LlmGateway.Lib.Run
import LlmGateway.Lib.Utf8Chunks

/-!
# The output of a job, as it is captured

* `Capture`, `step` — the job, and what has been emitted on the two streams;
* `Faithful` — what is captured is what was emitted, up to the cap, and the rest is counted;
* `Whole` — a chunk that is taken begins with a whole character, still fits when it is decoded, and comes before all that
  do not fit;
* `capture_faithful_iff` — the capture is faithful all along exactly when the chunks are whole.
-/

namespace LlmGateway.Manager.OutputCapture

open LlmGateway.Lib LlmGateway.Lib.Run LlmGateway.Lib.Utf16 LlmGateway.Lib.Utf8 LlmGateway.JobStore

inductive Stream where
  | stdout
  | stderr
  deriving DecidableEq

/-- What `appendOutput` reads and writes of an `AsyncJobRecord`. -/
structure Job where
  stdout : Text
  stderr : Text
  outputTruncated : Bool
  outputDroppedBytes : ℕ
  outputDirty : Bool
  progressDirty : Bool
  status : JobStoreStatus
  terminationRequested : Bool
  exitCode : Option ℤ
  error : Option Text
  kitExecution : Bool
  process : Bool
  terminateProcessGroup : Bool
  deriving DecidableEq

/-- What `appendOutput` calls. -/
inductive Effect where
  | clearIdleTimer
  | terminateProcessGroup
  | killProcessGroup
  | cleanupGroup
  | emitMetrics
  | persistComplete
  | writeFlightComplete (error : Text)
  | fireOnComplete
  | resetIdleTimer
  | ingest (stream : Stream) (chunk : List UInt8)
  | maybeFlushProgress
  | maybeFlushOutput
  deriving DecidableEq

def formatByteCap (bytes : ℕ) : Text :=
  if 0 < bytes ∧ bytes % (1024 * 1024) = 0 then numeral (bytes / (1024 * 1024)) ++ text "MB"
  else if 0 < bytes ∧ bytes % 1024 = 0 then numeral (bytes / 1024) ++ text "KB"
  else numeral bytes ++ text " bytes"

def overflowMsg (maxJobOutputBytes : ℕ) : Text :=
  text "Output exceeded maximum size (" ++ formatByteCap maxJobOutputBytes ++ text ")"

/-- What the job is told when its output does not fit. -/
def overflow (maxJobOutputBytes : ℕ) (job : Job) : Job × List Effect :=
  if job.status = .running then
    let job' := { job with terminationRequested := true, exitCode := some 126, error := some (overflowMsg maxJobOutputBytes) }
    let stop :=
      if job.terminateProcessGroup then [.terminateProcessGroup]
      else if job.process then [.killProcessGroup, .cleanupGroup] else []
    let finish :=
      if job.kitExecution then []
      else [.emitMetrics, .persistComplete, .writeFlightComplete (overflowMsg maxJobOutputBytes), .fireOnComplete]
    let cleanup := if job.process then [] else [.cleanupGroup]
    (if job.kitExecution then job' else { job' with status := .failed }, .clearIdleTimer :: stop ++ finish ++ cleanup)
  else (job, [])

def totalBytes (job : Job) (chunk : List UInt8) : ℕ := byteLength job.stdout + byteLength job.stderr + chunk.length

/-- `job.stdout += text`, or `job.stderr += text`. -/
def Job.append (job : Job) (stream : Stream) (s : Text) : Job :=
  match stream with
  | .stdout => { job with stdout := job.stdout ++ s }
  | .stderr => { job with stderr := job.stderr ++ s }

def appendOutput (maxJobOutputBytes : ℕ) (job : Job) (stream : Stream) (chunk : List UInt8) : Job × List Effect :=
  if maxJobOutputBytes < totalBytes job chunk then
    overflow maxJobOutputBytes
      { job with outputTruncated := true, outputDroppedBytes := job.outputDroppedBytes + chunk.length }
  else
    ({ job.append stream (decode chunk) with outputDirty := true, progressDirty := true },
      [.resetIdleTimer, .ingest stream chunk, .maybeFlushProgress, .maybeFlushOutput])

/-! ## What one chunk does -/

/-- The stream of a job, as it is captured. -/
def Job.captured (job : Job) : Stream → Text
  | .stdout => job.stdout
  | .stderr => job.stderr

section

variable {cap : ℕ} {job : Job} {stream : Stream} {chunk : List UInt8}

@[simp] theorem captured_append (s : Text) (other : Stream) : (job.append stream s).captured other =
    if other = stream then job.captured other ++ s else job.captured other := by
  cases stream <;> cases other <;> rfl

@[simp] theorem append_outputTruncated (s : Text) : (job.append stream s).outputTruncated = job.outputTruncated := by
  cases stream <;> rfl

@[simp] theorem append_outputDroppedBytes (s : Text) : (job.append stream s).outputDroppedBytes = job.outputDroppedBytes := by
  cases stream <;> rfl

/-- The end of the job leaves its output alone. -/
theorem overflow_output (cap : ℕ) (job : Job) (other : Stream) : (overflow cap job).1.captured other = job.captured other ∧
    (overflow cap job).1.outputTruncated = job.outputTruncated ∧
    (overflow cap job).1.outputDroppedBytes = job.outputDroppedBytes := by
  unfold overflow
  dsimp only
  split_ifs <;> cases other <;> exact ⟨rfl, rfl, rfl⟩

/-- A chunk that does not fit is counted. -/
theorem appendOutput_of_gt (stream : Stream) (h : cap < totalBytes job chunk) (other : Stream) :
    (appendOutput cap job stream chunk).1.captured other = job.captured other ∧
    (appendOutput cap job stream chunk).1.outputTruncated = true ∧
    (appendOutput cap job stream chunk).1.outputDroppedBytes = job.outputDroppedBytes + chunk.length := by
  rw [appendOutput, if_pos h]
  obtain ⟨hcaptured, htruncated, hdropped⟩ := overflow_output cap
    { job with outputTruncated := true, outputDroppedBytes := job.outputDroppedBytes + chunk.length } other
  refine ⟨hcaptured.trans ?_, htruncated, hdropped⟩
  cases other <;> rfl

/-- A chunk that fits is decoded by itself. -/
theorem appendOutput_of_le (stream : Stream) (h : totalBytes job chunk ≤ cap) (other : Stream) :
    (appendOutput cap job stream chunk).1.captured other =
      (if other = stream then job.captured other ++ decode chunk else job.captured other) ∧
    (appendOutput cap job stream chunk).1.outputTruncated = job.outputTruncated ∧
    (appendOutput cap job stream chunk).1.outputDroppedBytes = job.outputDroppedBytes := by
  rw [appendOutput, if_neg (Nat.not_lt.2 h)]
  refine ⟨?_, append_outputTruncated _, append_outputDroppedBytes _⟩
  rw [← captured_append]
  cases other <;> rfl

end

/-! ## Runs -/

/-- A job, what has been emitted on its streams, whether a chunk has been left out, and whether one has been appended after
that. -/
structure Capture where
  job : Job
  emitted : Stream → List UInt8
  dropped : Bool
  resumed : Bool

def emit (emitted : Stream → List UInt8) (stream : Stream) (chunk : List UInt8) (other : Stream) : List UInt8 :=
  if other = stream then emitted other ++ chunk else emitted other

def step (cap : ℕ) (c : Capture) (i : Stream × List UInt8) : Capture × List Effect :=
  ({ job := (appendOutput cap c.job i.1 i.2).1
     emitted := emit c.emitted i.1 i.2
     dropped := c.dropped || decide (cap < totalBytes c.job i.2)
     resumed := c.resumed || c.dropped && decide (totalBytes c.job i.2 ≤ cap) },
    (appendOutput cap c.job i.1 i.2).2)

/-- A job whose output has not begun. -/
def begin (job : Job) : Capture where
  job := { job with stdout := [], stderr := [], outputTruncated := false, outputDroppedBytes := 0 }
  emitted _ := []
  dropped := false
  resumed := false

/-- **Output capture fidelity.** -/
structure Faithful (cap : ℕ) (c : Capture) : Prop where
  /-- As long as nothing is left out, everything is captured. -/
  whole : c.dropped = false → ∀ stream, c.job.captured stream = decode (c.emitted stream)
  /-- The beginning of each stream is captured, and the rest is counted. -/
  beginning : ∃ kept : Stream → List UInt8, (∀ stream, kept stream <+: c.emitted stream) ∧
    (∀ stream, c.job.captured stream = decode (kept stream)) ∧
    c.job.outputDroppedBytes + ((kept .stdout).length + (kept .stderr).length) =
      (c.emitted .stdout).length + (c.emitted .stderr).length
  /-- Nothing is appended after what is left out. -/
  ended : c.resumed = false
  bounded : byteLength c.job.stdout + byteLength c.job.stderr ≤ cap
  truncated : c.job.outputTruncated = true ↔ 0 < c.job.outputDroppedBytes

/-- **A chunk that is captured faithfully**: one that is taken comes before all that do not fit, begins with a whole
character, and fits when it is decoded, too. -/
def Whole (cap : ℕ) (c : Capture) (i : Stream × List UInt8) : Prop :=
  totalBytes c.job i.2 ≤ cap → c.dropped = false ∧ ¬Continues (write none (c.emitted i.1)).2 i.2 ∧
    byteLength c.job.stdout + byteLength c.job.stderr + byteLength (decode i.2) ≤ cap

instance (cap : ℕ) (c : Capture) (i : Stream × List UInt8) : Decidable (Whole cap c i) :=
  inferInstanceAs (Decidable (_ → _ ∧ ¬_ ∧ _))

/-! ## The invariant -/

/-- What holds as long as the chunks are whole. -/
structure Inv (cap : ℕ) (c : Capture) : Prop extends Faithful cap c where
  uncounted : c.dropped = false → c.job.outputTruncated = false ∧ c.job.outputDroppedBytes = 0
  counted : c.dropped = true → c.job.outputTruncated = true ∧ 0 < c.job.outputDroppedBytes

variable {cap : ℕ} {c : Capture} {stream : Stream} {chunk : List UInt8}

theorem inv_begin (cap : ℕ) (job : Job) : Inv cap (begin job) where
  whole _ stream := by cases stream <;> rfl
  beginning := ⟨fun _ => [], fun _ => List.prefix_rfl, fun stream => by cases stream <;> rfl, rfl⟩
  ended := rfl
  bounded := Nat.zero_le cap
  truncated := ⟨fun h => absurd h Bool.false_ne_true, fun h => absurd h (Nat.lt_irrefl 0)⟩
  uncounted _ := ⟨rfl, rfl⟩
  counted h := absurd h Bool.false_ne_true

theorem job_step (i : Stream × List UInt8) : (step cap c i).1.job = (appendOutput cap c.job i.1 i.2).1 := rfl

theorem emitted_step (i : Stream × List UInt8) (other : Stream) : (step cap c i).1.emitted other =
    if other = i.1 then c.emitted other ++ i.2 else c.emitted other := rfl

/-- What is emitted becomes longer. -/
theorem prefix_emitted_step (i : Stream × List UInt8) (other : Stream) : c.emitted other <+: (step cap c i).1.emitted other := by
  rw [emitted_step]
  split_ifs
  · exact List.prefix_append _ _
  · exact List.prefix_rfl

theorem length_emitted_step (i : Stream × List UInt8) :
    ((step cap c i).1.emitted .stdout).length + ((step cap c i).1.emitted .stderr).length =
      (c.emitted .stdout).length + (c.emitted .stderr).length + i.2.length := by
  obtain ⟨stream, chunk⟩ := i
  cases stream
  · rw [emitted_step, emitted_step, if_pos rfl, if_neg (by simp), List.length_append]
    omega
  · rw [emitted_step, emitted_step, if_pos rfl, if_neg (by simp), List.length_append]
    omega

/-- A chunk that does not fit keeps the invariant. -/
theorem Inv.drop (h : Inv cap c) {i : Stream × List UInt8} (hgt : cap < totalBytes c.job i.2) : Inv cap (step cap c i).1 := by
  have hjob (other : Stream) := appendOutput_of_gt i.1 hgt other
  have hcaptured (other : Stream) : (step cap c i).1.job.captured other = c.job.captured other := (hjob other).1
  have htruncated : (step cap c i).1.job.outputTruncated = true := (hjob .stdout).2.1
  have hcount : (step cap c i).1.job.outputDroppedBytes = c.job.outputDroppedBytes + i.2.length := (hjob .stdout).2.2
  have hdropped : (step cap c i).1.dropped = true := by simp [step, hgt]
  have hpositive : 0 < (step cap c i).1.job.outputDroppedBytes := by
    have hbounded := h.bounded
    unfold totalBytes at hgt
    omega
  obtain ⟨kept, hbegins, hkept, hsum⟩ := h.beginning
  refine ⟨⟨fun hnot => ?_, ⟨kept, fun stream => ?_, fun stream => ?_, ?_⟩, ?_, ?_, ?_⟩, fun hnot => ?_, fun _ => ?_⟩
  · exact absurd hdropped (by simp [hnot])
  · exact (hbegins stream).trans (prefix_emitted_step i stream)
  · rw [hcaptured, hkept]
  · rw [hcount, length_emitted_step]
    omega
  · simp [step, h.ended, hgt]
  · have hout : (step cap c i).1.job.stdout = c.job.stdout := hcaptured .stdout
    have herr : (step cap c i).1.job.stderr = c.job.stderr := hcaptured .stderr
    rw [hout, herr]
    exact h.bounded
  · exact ⟨fun _ => hpositive, fun _ => htruncated⟩
  · exact absurd hdropped (by simp [hnot])
  · exact ⟨htruncated, hpositive⟩

/-- A chunk that fits, and is whole, keeps it, too. -/
theorem Inv.take (h : Inv cap c) {i : Stream × List UInt8} (hle : totalBytes c.job i.2 ≤ cap) (hwhole : Whole cap c i) :
    Inv cap (step cap c i).1 := by
  obtain ⟨hbefore, hcut, hfits⟩ := hwhole hle
  have hjob (other : Stream) := appendOutput_of_le i.1 hle other
  have htruncated : (step cap c i).1.job.outputTruncated = false := (hjob .stdout).2.1.trans (h.uncounted hbefore).1
  have hcount : (step cap c i).1.job.outputDroppedBytes = 0 := (hjob .stdout).2.2.trans (h.uncounted hbefore).2
  have hdropped : (step cap c i).1.dropped = false := by simp [step, hbefore, hle]
  have hcaptured (other : Stream) : (step cap c i).1.job.captured other = decode ((step cap c i).1.emitted other) := by
    rw [job_step, (hjob other).1, emitted_step, h.whole hbefore other]
    split_ifs with hother
    · subst hother
      exact (decode_append hcut).symm
    · rfl
  refine ⟨⟨fun _ => hcaptured, ⟨_, fun _ => List.prefix_rfl, hcaptured, ?_⟩, ?_, ?_, ?_⟩, fun _ => ?_, fun hnot => ?_⟩
  · rw [hcount, Nat.zero_add]
  · simp [step, h.ended, hbefore]
  · refine le_trans ?_ hfits
    have hout := (hjob .stdout).1
    have herr := (hjob .stderr).1
    show byteLength ((appendOutput cap c.job i.1 i.2).1.captured .stdout) +
      byteLength ((appendOutput cap c.job i.1 i.2).1.captured .stderr) ≤ _
    rw [hout, herr]
    cases i.1 <;> simp [byteLength_append_decode, Job.captured] <;> omega
  · rw [htruncated, hcount]
    simp
  · exact ⟨htruncated, hcount⟩
  · exact absurd hdropped (by simp [hnot])

theorem Inv.next (h : Inv cap c) {i : Stream × List UInt8} (hwhole : Whole cap c i) : Inv cap (step cap c i).1 := by
  rcases Nat.lt_or_ge cap (totalBytes c.job i.2) with hgt | hle
  · exact h.drop hgt
  · exact h.take hle hwhole

/-- Only a whole chunk is captured faithfully. -/
theorem whole_of_faithful (h : Inv cap c) {i : Stream × List UInt8} (hnext : Faithful cap (step cap c i).1) : Whole cap c i := by
  intro hle
  have hjob (other : Stream) := appendOutput_of_le i.1 hle other
  have hbefore : c.dropped = false := by
    have hended := hnext.ended
    simpa [step, hle, h.ended] using hended
  have hdropped : (step cap c i).1.dropped = false := by simp [step, hbefore, hle]
  refine ⟨hbefore, ?_, ?_⟩
  · have hwhole := hnext.whole hdropped i.1
    rw [job_step, (hjob i.1).1, emitted_step, if_pos rfl, if_pos rfl, h.whole hbefore i.1] at hwhole
    exact decode_append_iff.1 hwhole.symm
  · refine le_trans ?_ hnext.bounded
    show _ ≤ byteLength ((appendOutput cap c.job i.1 i.2).1.captured .stdout) +
      byteLength ((appendOutput cap c.job i.1 i.2).1.captured .stderr)
    rw [(hjob .stdout).1, (hjob .stderr).1]
    cases i.1 <;> simp [byteLength_append_decode, Job.captured] <;> omega

/-- **When the output is captured faithfully**: all along a run exactly if its chunks are whole. -/
theorem capture_faithful_iff (cap : ℕ) (job : Job) (chunks : List (Stream × List UInt8)) :
    Throughout (step cap) (Faithful cap) (begin job) chunks ↔ Along (step cap) (Whole cap) (begin job) chunks :=
  throughout_iff_of_invariant (P := Inv cap) (fun _ h => h.toFaithful) (fun _ _ hwhole h => h.next hwhole)
    (fun _ _ h hnext => whole_of_faithful h hnext) (inv_begin cap job) chunks

/-- A job that has just been launched. -/
def launched : Job where
  stdout := []
  stderr := []
  outputTruncated := false
  outputDroppedBytes := 0
  outputDirty := false
  progressDirty := false
  status := .running
  terminationRequested := false
  exitCode := none
  error := none
  kitExecution := false
  process := true
  terminateProcessGroup := true

/-- A euro sign that comes in two chunks is captured as two replacement characters; and a short chunk is appended after one that
does not fit. -/
theorem cut_euro_is_lost :
    ¬(∀ (cap : ℕ) (job : Job) (chunks : List (Stream × List UInt8)),
        Throughout (step cap) (Faithful cap) (begin job) chunks) ∧
      (final (step 100) (begin launched) [(.stdout, [0xE2, 0x82]), (.stdout, [0xAC])]).job.stdout = [0xFFFD, 0xFFFD] ∧
      decode [0xE2, 0x82, 0xAC] = [0x20AC] ∧
      (final (step 2) (begin launched) [(.stdout, [0x61, 0x62, 0x63]), (.stdout, [0x64])]).job.stdout = text "d" := by
  refine ⟨fun h => ?_, by decide +kernel, by decide +kernel, by decide +kernel⟩
  have hend := throughout_iff.1 (h 100 launched [(.stdout, [0xE2, 0x82]), (.stdout, [0xAC])]) _ [] (List.append_nil _).symm
  exact absurd (hend.whole rfl .stdout) (by decide +kernel)

end LlmGateway.Manager.OutputCapture
