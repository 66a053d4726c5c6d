import LlmGateway.Recorder.Model

/-!
# The merge fence of the flight recorder

* `requestAfter`, `metadataAfter`, `step_request`, `step_metadata` — what one call makes of a row;
* `Fence`, `Fence.step` — both rows of a request hold the same completion, the latest so far;
* `merge_fence` — the same of every run, with what a run never changes.
-/

namespace LlmGateway.Recorder

open LlmGateway.Lib

/-! ## The latest of the highest rank -/

section Latest

variable {α : Type*} {rank : α → ℕ} {cs : List α} {w c : α}

/-- `w` is the last write of the highest rank. -/
def Latest (rank : α → ℕ) (cs : List α) (w : α) : Prop :=
  ∃ before after, cs = before ++ w :: after ∧ (∀ c ∈ before, rank c ≤ rank w) ∧ ∀ c ∈ after, rank c < rank w

theorem latest_singleton (rank : α → ℕ) (c : α) : Latest rank [c] c := ⟨[], [], rfl, by simp, by simp⟩

/-- A write of at least the rank takes over. -/
theorem Latest.takeover (h : Latest rank cs w) (hc : rank w ≤ rank c) : Latest rank (cs ++ [c]) c := by
  obtain ⟨before, after, rfl, hb, ha⟩ := h
  refine ⟨before ++ w :: after, [], rfl, fun x hx => ?_, by simp⟩
  rcases List.mem_append.1 hx with hx | hx
  · exact (hb x hx).trans hc
  · rcases List.mem_cons.1 hx with rfl | hx
    · exact hc
    · exact ((ha x hx).trans_le hc).le

/-- A write of a lower rank changes nothing. -/
theorem Latest.keep (h : Latest rank cs w) (hc : rank c < rank w) : Latest rank (cs ++ [c]) w := by
  obtain ⟨before, after, rfl, hb, ha⟩ := h
  refine ⟨before, after ++ [c], by simp, hb, fun x hx => ?_⟩
  rcases List.mem_append.1 hx with hx | hx
  · exact ha x hx
  · rw [List.mem_singleton.1 hx]
    exact hc

end Latest

/-! ## One call, one row -/

variable (fns : TextFunctions) {db : Db} {id : String} {r : RequestRow} {m : MetadataRow}

/-- What a call makes of a `requests` row whose metadata row is `m`. -/
def requestAfter (call : Call) (r : RequestRow) (m : MetadataRow) : RequestRow :=
  match call.op with
  | .logComplete id result =>
    if id = r.id ∧ m.completionRank ≤ completionRank result then
      { r with completion := requestCompletion fns call.ambient result }
    else r
  | _ => r

/-- What a call makes of a `gateway_metadata` row. -/
def metadataAfter (call : Call) (m : MetadataRow) : MetadataRow :=
  match call.op with
  | .logComplete id result =>
    if id = m.requestId ∧ m.completionRank ≤ completionRank result then
      { m with completion := metadataCompletion fns call.ambient result, completionRank := completionRank result }
    else m
  | .recordCompressionTelemetry id t =>
    if id = m.requestId ∧ m.compression.compressionRoute = none ∧ m.completionRank < RESERVED_MIGRATED_RANK then
      { m with
        compression := ⟨some t.route, some (String.intercalate "," t.transforms), some t.originalChars,
          some t.compressedChars, some t.estimatedTokensSaved⟩ }
    else m
  | .recordRouting id t =>
    if id = m.requestId ∧ m.completionRank < RESERVED_MIGRATED_RANK then
      { m with routing := ⟨some true, t.estCostUsd, t.estConfidence, t.reason, t.considered, t.reroutes⟩ }
    else m
  | .logStart _ => m

/-- A start row is refused or goes to another id: the rows that are there stay. -/
theorem logStart_get {amb : Ambient} {entry : FlightLogStart} {db' : Db}
    (h : logStart fns db amb entry = .ok db') :
    (∀ r, db.requests.get id = some r → db'.requests.get id = some r) ∧
      ∀ m, db.gatewayMetadata.get id = some m → db'.gatewayMetadata.get id = some m := by
  unfold logStart at h
  dsimp only at h
  split at h
  · cases h
  · cases h
  · rename_i requests metadata hr hm
    cases h
    refine ⟨fun r hrow => ?_, fun m hrow => ?_⟩
    · rw [Table.get_insert hr, if_neg, hrow]
      rintro rfl
      rw [Table.get_of_insert hr] at hrow
      cases hrow
    · rw [Table.get_insert hm, if_neg, hrow]
      rintro rfl
      rw [Table.get_of_insert hm] at hrow
      cases hrow

theorem step_metadata (call : Call) (hm : db.gatewayMetadata.get id = some m) :
    (step fns db call).1.gatewayMetadata.get id = some (metadataAfter fns call m) := by
  obtain ⟨amb, op⟩ := call
  have hid : m.requestId = id := Table.key_of_get hm
  cases op with
  | logStart entry =>
    simp only [step, metadataAfter]
    split
    · exact (logStart_get fns ‹_›).2 m hm
    · exact hm
  | logComplete i result =>
    simp only [step, metadataAfter, logComplete, updateMetadataComplete, updateRequestComplete,
      Table.get_update, hm, Option.map_some, Bool.and_eq_true, beq_iff_eq, decide_eq_true_eq, eq_comm (a := i)]
  | recordCompressionTelemetry i t =>
    simp only [step, metadataAfter, recordCompressionTelemetry, updateCompression, Table.get_update, hm,
      Option.map_some, Bool.and_eq_true, beq_iff_eq, decide_eq_true_eq, Option.isNone_iff_eq_none,
      eq_comm (a := i), and_assoc]
  | recordRouting i t =>
    simp only [step, metadataAfter, recordRouting, updateRouting, Table.get_update, hm, Option.map_some,
      Bool.and_eq_true, beq_iff_eq, decide_eq_true_eq, eq_comm (a := i)]

theorem step_request (call : Call) (hr : db.requests.get id = some r) (hm : db.gatewayMetadata.get id = some m) :
    (step fns db call).1.requests.get id = some (requestAfter fns call r m) := by
  obtain ⟨amb, op⟩ := call
  have hid : r.id = id := Table.key_of_get hr
  cases op with
  | logStart entry =>
    simp only [step, requestAfter]
    split
    · exact (logStart_get fns ‹_›).1 r hr
    · exact hr
  | logComplete i result =>
    simp only [step, requestAfter, logComplete, updateMetadataComplete, updateRequestComplete, Table.get_update,
      hr, Option.map_some, Bool.and_eq_true, beq_iff_eq, Table.any_key, hid, hm, Option.any_some,
      decide_eq_true_eq, eq_comm (a := i)]
  | recordCompressionTelemetry i t => exact hr
  | recordRouting i t => exact hr

/-! ## What every call respects -/

/-- The rank never falls, imported history never changes, compression telemetry is written once. -/
structure Grows (m m' : MetadataRow) : Prop where
  rank : m.completionRank ≤ m'.completionRank
  imported : m.completionRank = RESERVED_MIGRATED_RANK → m' = m
  compressed : m.compression.compressionRoute ≠ none → m'.compression = m.compression

theorem completionRank_lt (result : FlightLogResult) : completionRank result < RESERVED_MIGRATED_RANK := by
  unfold completionRank RESERVED_MIGRATED_RANK
  split <;> omega

theorem grows_metadataAfter (call : Call) (m : MetadataRow) : Grows m (metadataAfter fns call m) := by
  obtain ⟨amb, op⟩ := call
  cases op with
  | logStart entry => exact ⟨le_rfl, fun _ => rfl, fun _ => rfl⟩
  | logComplete i result =>
    have hlt := completionRank_lt result
    simp only [metadataAfter]
    split
    · rename_i h
      exact ⟨h.2, fun h3 => by omega, fun _ => rfl⟩
    · exact ⟨le_rfl, fun _ => rfl, fun _ => rfl⟩
  | recordCompressionTelemetry i t =>
    simp only [metadataAfter]
    split
    · rename_i h
      exact ⟨le_rfl, fun h3 => by omega, fun hc => absurd h.2.1 hc⟩
    · exact ⟨le_rfl, fun _ => rfl, fun _ => rfl⟩
  | recordRouting i t =>
    simp only [metadataAfter]
    split
    · rename_i h
      exact ⟨le_rfl, fun h3 => by omega, fun _ => rfl⟩
    · exact ⟨le_rfl, fun _ => rfl, fun _ => rfl⟩

theorem requestAfter_imported (call : Call) (r : RequestRow) (h : m.completionRank = RESERVED_MIGRATED_RANK) :
    requestAfter fns call r m = r := by
  unfold requestAfter
  split
  · rename_i i result _
    have := completionRank_lt result
    exact if_neg fun hc => by omega
  · rfl

theorem Grows.trans {m₁ m₂ m₃ : MetadataRow} (h : Grows m₁ m₂) (h' : Grows m₂ m₃) : Grows m₁ m₃ where
  rank := h.rank.trans h'.rank
  imported h3 := by
    obtain rfl := h.imported h3
    exact h'.imported h3
  compressed hc := by
    have := h.compressed hc
    rw [← this]
    exact h'.compressed (by rwa [this])

/-- A metadata row of a run, from any database. -/
theorem grows_final (calls : List Call) (hm : db.gatewayMetadata.get id = some m) :
    ∃ m', (Run.final (step fns) db calls).gatewayMetadata.get id = some m' ∧ Grows m m' := by
  refine Run.final_induction (P := fun db : Db => ∃ m', db.gatewayMetadata.get id = some m' ∧ Grows m m')
    (fun db call h => ?_) ⟨m, hm, le_rfl, fun _ => rfl, fun _ => rfl⟩ calls
  obtain ⟨m', hm', hg⟩ := h
  exact ⟨_, step_metadata fns call hm', hg.trans (grows_metadataAfter fns call m')⟩

/-- Imported history, both rows of it. -/
theorem imported_final (calls : List Call) (hr : db.requests.get id = some r)
    (hm : db.gatewayMetadata.get id = some m) (h3 : m.completionRank = RESERVED_MIGRATED_RANK) :
    (Run.final (step fns) db calls).requests.get id = some r ∧
      (Run.final (step fns) db calls).gatewayMetadata.get id = some m := by
  refine Run.final_induction (P := fun db : Db => db.requests.get id = some r ∧ db.gatewayMetadata.get id = some m)
    (fun db call h => ⟨?_, ?_⟩) ⟨hr, hm⟩ calls
  · rw [step_request fns call h.1 h.2, requestAfter_imported fns call r h3]
  · rw [step_metadata fns call h.2, (grows_metadataAfter fns call m).imported h3]

/-! ## The fence -/

/-- A call of `logComplete`, by an instance and with a result. -/
structure Completion where
  ambient : Ambient
  result : FlightLogResult

def Completion.rank (c : Completion) : ℕ := completionRank c.result

/-- The completion of request `id` that a call is, if it is one. -/
def completionOf (id : String) (call : Call) : Option Completion :=
  match call.op with
  | .logComplete i result => if i = id then some ⟨call.ambient, result⟩ else none
  | _ => none

/-- The completions of request `id`, in the order they were executed. -/
def completionsOf (id : String) (calls : List Call) : List Completion := calls.filterMap (completionOf id)

/-- The rows of a request hold the completion of one call. -/
def Holds (r : RequestRow) (m : MetadataRow) (w : Completion) : Prop :=
  r.completion = requestCompletion fns w.ambient w.result ∧
    m.completion = metadataCompletion fns w.ambient w.result ∧ m.completionRank = w.rank

/-- The rows of request `id` after some calls, its start rows having been `r₀` and `m₀`. -/
def Fence (id : String) (r₀ : RequestRow) (m₀ : MetadataRow) (db : Db) (calls : List Call) : Prop :=
  ∃ r m, db.requests.get id = some r ∧ db.gatewayMetadata.get id = some m ∧
    (completionsOf id calls = [] ∧ r.completion = r₀.completion ∧ m.completion = m₀.completion ∧
        m.completionRank = 0 ∨
      ∃ w, Latest Completion.rank (completionsOf id calls) w ∧ Holds fns r m w)

/-- A call that is not a completion of the request leaves the completion columns as they are. -/
theorem after_of_completionOf_none {call : Call} (hr : r.id = id) (hm : m.requestId = id)
    (h : completionOf id call = none) :
    requestAfter fns call r m = r ∧ (metadataAfter fns call m).completion = m.completion ∧
      (metadataAfter fns call m).completionRank = m.completionRank := by
  obtain ⟨amb, op⟩ := call
  cases op with
  | logStart entry => exact ⟨rfl, rfl, rfl⟩
  | logComplete i result =>
    have hi : i ≠ id := fun hi => by simp [completionOf, hi] at h
    simp [requestAfter, metadataAfter, hr, hm, hi]
  | recordCompressionTelemetry i t | recordRouting i t =>
    refine ⟨rfl, ?_, ?_⟩ <;> (simp only [metadataAfter]; split <;> rfl)

/-- A completion of the request lands on both rows, or on neither. -/
theorem after_of_completionOf_some {call : Call} {c : Completion} (hr : r.id = id) (hm : m.requestId = id)
    (h : completionOf id call = some c) :
    if m.completionRank ≤ c.rank then Holds fns (requestAfter fns call r m) (metadataAfter fns call m) c
    else requestAfter fns call r m = r ∧ metadataAfter fns call m = m := by
  obtain ⟨amb, op⟩ := call
  cases op with
  | logComplete i result =>
    simp only [completionOf] at h
    split at h
    · rename_i hi
      cases h
      subst hi
      simp only [requestAfter, metadataAfter, hr, hm, true_and]
      by_cases hle : m.completionRank ≤ completionRank result
      · simp [hle, Completion.rank, Holds]
      · simp [hle, Completion.rank]
    · cases h
  | _ => cases h

theorem Fence.step {r₀ : RequestRow} {m₀ : MetadataRow} {calls : List Call}
    (h : Fence fns id r₀ m₀ db calls) (call : Call) :
    Fence fns id r₀ m₀ (step fns db call).1 (calls ++ [call]) := by
  obtain ⟨r, m, hr, hm, hc⟩ := h
  refine ⟨_, _, step_request fns call hr hm, step_metadata fns call hm, ?_⟩
  have hlist : completionsOf id (calls ++ [call]) = completionsOf id calls ++ (completionOf id call).toList := by
    rw [completionsOf, List.filterMap_append]
    cases h : completionOf id call <;> simp [completionsOf, h]
  rw [hlist]
  cases hcall : completionOf id call with
  | none =>
    obtain ⟨h1, h2, h3⟩ := after_of_completionOf_none fns (Table.key_of_get hr) (Table.key_of_get hm) hcall
    rw [h1]
    simpa [Holds, h2, h3] using hc
  | some c =>
    have hland := after_of_completionOf_some fns (Table.key_of_get hr) (Table.key_of_get hm) hcall
    refine Or.inr ?_
    rcases hc with ⟨hnil, -, -, h0⟩ | ⟨w, hw, hholds⟩
    · rw [if_pos (by omega)] at hland
      exact ⟨c, by rw [hnil]; exact latest_singleton _ c, hland⟩
    · by_cases hle : m.completionRank ≤ c.rank
      · rw [if_pos hle] at hland
        exact ⟨c, hw.takeover (hholds.2.2 ▸ hle), hland⟩
      · rw [if_neg hle] at hland
        refine ⟨w, hw.keep ?_, ?_⟩
        · rw [← hholds.2.2]
          omega
        · rw [hland.1, hland.2]
          exact hholds

/-- **The merge fence.**  In every run, the completion columns of both rows of a request that started at rank 0 come
from one and the same completion, the last executed of the highest rank; no rank falls; imported history stays as it
is; and compression telemetry, once there, stays. -/
theorem merge_fence (fns : TextFunctions) (db : Db) (id : String) (calls : List Call) :
    (∀ r₀ m₀, db.requests.get id = some r₀ → db.gatewayMetadata.get id = some m₀ → m₀.completionRank = 0 →
      ∃ r m, (Run.final (step fns) db calls).requests.get id = some r ∧
        (Run.final (step fns) db calls).gatewayMetadata.get id = some m ∧
        (completionsOf id calls = [] ∧ r.completion = r₀.completion ∧ m.completion = m₀.completion ∧
            m.completionRank = 0 ∨
          ∃ w, Latest Completion.rank (completionsOf id calls) w ∧
            r.completion = requestCompletion fns w.ambient w.result ∧
            m.completion = metadataCompletion fns w.ambient w.result ∧ m.completionRank = w.rank)) ∧
    (∀ m, db.gatewayMetadata.get id = some m →
      ∃ m', (Run.final (step fns) db calls).gatewayMetadata.get id = some m' ∧
        m.completionRank ≤ m'.completionRank ∧
        (m.completionRank = RESERVED_MIGRATED_RANK → m' = m) ∧
        (m.compression.compressionRoute ≠ none → m'.compression = m.compression)) ∧
    (∀ r m, db.requests.get id = some r → db.gatewayMetadata.get id = some m →
      m.completionRank = RESERVED_MIGRATED_RANK →
        (Run.final (step fns) db calls).requests.get id = some r ∧
          (Run.final (step fns) db calls).gatewayMetadata.get id = some m) := by
  refine ⟨fun r₀ m₀ hr hm h0 => ?_, fun m hm => ?_, fun r m hr hm h3 => imported_final fns calls hr hm h3⟩
  · exact Run.history_induction (P := Fence fns id r₀ m₀) ⟨r₀, m₀, hr, hm, Or.inl ⟨rfl, rfl, rfl, h0⟩⟩
      (fun db calls call h => h.step fns call) calls
  · obtain ⟨m', hm', hg⟩ := grows_final fns calls hm
    exact ⟨m', hm', hg.rank, hg.imported, hg.compressed⟩

/-- A presumed outcome neither survives an observed one nor replaces it. -/
example :
    let result (kind : CompletionKind) (response : String) : FlightLogResult :=
      ⟨response, none, none, none, none, 1, 0, "closed", none, none, none, false, none, 0, none, none, .completed,
        some kind, none, none⟩
    let complete (kind : CompletionKind) (response : String) : Call :=
      ⟨⟨false, none, ""⟩, .logComplete "r" (result kind response)⟩
    let start : Call :=
      ⟨⟨false, none, ""⟩, .logStart ⟨"r", "claude", "m", "p", none, none, none, none, none, none, none, none⟩⟩
    (Run.final (step ⟨fun s => s, fun _ => ⟨0, "text", 1⟩, fun bs => bs⟩) ⟨Table.empty, Table.empty⟩
      [start, complete .presumed "guess", complete .observed "answer", complete .presumed "late guess"]).requests.rows.map
        (fun r => r.completion.response) = [some "answer"] := by decide +kernel

end LlmGateway.Recorder
