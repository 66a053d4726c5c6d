import LlmGateway.Progress.Tracker

/-!
# Progress does not depend on how the output was cut

* `signalsSent_eq` — what `ingest` emits apart from activity: the signals of the complete lines of the whole output, in order;
* `prune_eq`, `Counted` — the count of dropped events is that of the events which pruning took away.
-/

namespace LlmGateway.Progress

open Lib Lib.Utf16 Lib.JsNumber

/-! ## Lines -/

theorem cutLines_append (s t : Text) :
    cutLines (s ++ t) = ((cutLines s).1 ++ (cutLines ((cutLines s).2 ++ t)).1, (cutLines ((cutLines s).2 ++ t)).2) := by
  induction s with
  | nil => rfl
  | cons u s ih =>
    rw [List.cons_append, cutLines, cutLines, ih]
    by_cases hu : u = 10
    · rw [if_pos hu, if_pos hu]
      rfl
    · rw [if_neg hu, if_neg hu]
      cases hl : (cutLines s).1 with
      | nil =>
        simp only [List.nil_append]
        rw [List.cons_append, cutLines, if_neg hu]
      | cons l ls => rfl

/-- What is carried on has no line break. -/
theorem not_mem_carry (s : Text) : (10 : UInt16) ∉ (cutLines s).2 := by
  induction s with
  | nil => exact List.not_mem_nil
  | cons u s ih =>
    unfold cutLines
    by_cases hu : u = 10
    · rwa [if_pos hu]
    · rw [if_neg hu]
      split
      · exact fun hmem => (List.mem_cons.1 hmem).elim (fun h => hu h.symm) ih
      · exact ih

theorem cutLines_of_not_mem {s : Text} (h : (10 : UInt16) ∉ s) : cutLines s = ([], s) := by
  induction s with
  | nil => rfl
  | cons u s ih =>
    obtain ⟨hu, hs⟩ := not_or.1 fun hor => h (List.mem_cons.2 hor)
    rw [cutLines, if_neg (Ne.symm hu), ih hs]

/-! ## The output -/

/-- The bytes of the output in the order they came. -/
def stdoutBytes : List Call → List UInt8
  | [] => []
  | .ingest .stdout chunk _ :: calls => chunk ++ stdoutBytes calls
  | _ :: calls => stdoutBytes calls

/-- At no chunk the line carried on and the chunk together are too long. -/
def Fits (decoder : Option Utf8.Pending) (carry : Text) : List Call → Prop
  | [] => True
  | .ingest .stdout chunk _ :: calls =>
    byteLength (carry ++ (Utf8.write decoder chunk).1) ≤ MAX_PARTIAL_LINE_BYTES ∧
      Fits (Utf8.write decoder chunk).2 (cutLines (carry ++ (Utf8.write decoder chunk).1)).2 calls
  | _ :: calls => Fits decoder carry calls

def ProgressSignal.of (e : Emission) : ProgressSignal := ⟨e.phase, e.kind, e.message⟩

variable (E : Engine)

/-- The signals that are emitted, without the generic activity. -/
def Tracker.signalsSent (s : Tracker) (calls : List Call) : List ProgressSignal :=
  ((s.emissions E calls).filter fun e => e.kind ≠ .activity).map ProgressSignal.of

/-- The signals of the complete lines of a text. -/
def lineSignals (provider : String) (output : Text) : List ProgressSignal :=
  (cutLines output).1.filterMap fun line => structuredSignal E.lower provider (trim line)

variable {E}

theorem lineSignals_append (provider : String) (s t : Text) :
    lineSignals E provider (s ++ t) = lineSignals E provider s ++ lineSignals E provider ((cutLines s).2 ++ t) := by
  unfold lineSignals
  rw [cutLines_append, List.filterMap_append]

namespace Tracker

variable {s : Tracker} {stream : Stream} {chunk : List UInt8} {at' : Date}

/-! ## What an emission leaves alone -/

/-- The same job, at the same place of its output. -/
structure SameReader (s s' : Tracker) : Prop where
  provider : s'.provider = s.provider
  capability : s'.capability = s.capability
  decoder : s'.stdoutDecoder = s.stdoutDecoder
  carry : s'.stdoutCarry = s.stdoutCarry

theorem SameReader.trans {s s' s'' : Tracker} (h : SameReader s s') (h' : SameReader s' s'') : SameReader s s'' :=
  ⟨h'.provider.trans h.provider, h'.capability.trans h.capability, h'.decoder.trans h.decoder, h'.carry.trans h.carry⟩

theorem sameReader_emit (s : Tracker) (e : Emission) : SameReader s (s.emit E e).2 := by
  unfold emit
  split <;> exact ⟨rfl, rfl, rfl, rfl⟩

theorem sameReader_emitAll (s : Tracker) (es : List Emission) : SameReader s (s.emitAll E es) := by
  induction es generalizing s with
  | nil => exact ⟨rfl, rfl, rfl, rfl⟩
  | cons e es ih => exact (sameReader_emit s e).trans (ih _)

/-! ## One chunk -/

theorem readChunk_other (h : stream ≠ .stdout ∨ s.capability ≠ .structured) :
    s.readChunk E stream chunk at' = ({ s with lastActivityAt := at'.toISOString }, [activity at']) := if_pos h

theorem readChunk_fits (hcap : s.capability = .structured)
    (hfits : byteLength (s.stdoutCarry ++ (Utf8.write s.stdoutDecoder chunk).1) ≤ MAX_PARTIAL_LINE_BYTES) :
    let lines := cutLines (s.stdoutCarry ++ (Utf8.write s.stdoutDecoder chunk).1)
    s.readChunk E .stdout chunk at' =
      ({ s with lastActivityAt := at'.toISOString, stdoutCarry := lines.2, stdoutDecoder := (Utf8.write s.stdoutDecoder chunk).2 },
        if s.signalsOf E lines.1 = [] then [activity at']
        else (s.signalsOf E lines.1).map fun x => ⟨x.phase, x.kind, x.message, .provider, at'⟩) := by
  have hread : ¬(Stream.stdout ≠ .stdout ∨ s.capability ≠ .structured) := by simp [hcap]
  unfold readChunk
  rw [if_neg hread]
  exact if_neg (Nat.not_lt.2 hfits)

/-- The emissions of a chunk, apart from activity, are its signals. -/
theorem signals_readChunk (hcap : s.capability = .structured)
    (hfits : byteLength (s.stdoutCarry ++ (Utf8.write s.stdoutDecoder chunk).1) ≤ MAX_PARTIAL_LINE_BYTES) :
    ((s.readChunk E .stdout chunk at').2.filter fun e => e.kind ≠ .activity).map ProgressSignal.of =
      lineSignals E s.provider (s.stdoutCarry ++ (Utf8.write s.stdoutDecoder chunk).1) := by
  have hordinary : ∀ x ∈ lineSignals E s.provider (s.stdoutCarry ++ (Utf8.write s.stdoutDecoder chunk).1), Ordinary x := by
    intro x hx
    obtain ⟨line, -, hline⟩ := List.mem_filterMap.1 hx
    exact ordinary_structuredSignal hline
  rw [readChunk_fits hcap hfits]
  simp only
  change (List.map _ (List.filter _ (if lineSignals E s.provider _ = [] then _ else List.map _ (lineSignals E s.provider _)))) = _
  by_cases hnil : lineSignals E s.provider (s.stdoutCarry ++ (Utf8.write s.stdoutDecoder chunk).1) = []
  · rw [if_pos hnil, hnil]
    rfl
  · rw [if_neg hnil, List.filter_eq_self.2, List.map_map]
    · exact List.map_id _
    · intro e he
      obtain ⟨x, hx, rfl⟩ := List.mem_map.1 he
      simpa using (hordinary x hx).1

theorem sameReader_ingest (s : Tracker) (stream : Stream) (chunk : List UInt8) (at' : Date) :
    SameReader (s.readChunk E stream chunk at').1 (s.ingest E stream chunk at') := sameReader_emitAll _ _

theorem signalsSent_ingest (s : Tracker) (calls : List Call) : s.signalsSent E (.ingest stream chunk at' :: calls) =
    ((s.readChunk E stream chunk at').2.filter fun e => e.kind ≠ .activity).map ProgressSignal.of ++
      (s.ingest E stream chunk at').signalsSent E calls := by
  unfold signalsSent
  rw [emissions, List.filter_append, List.map_append]
  rfl

/-- **What is emitted for the output** are the signals of its complete lines. -/
theorem signalsSent_eq (calls : List Call) (hcap : s.capability = .structured) (hcarry : (10 : UInt16) ∉ s.stdoutCarry)
    (hfits : Fits s.stdoutDecoder s.stdoutCarry calls) :
    s.signalsSent E calls = lineSignals E s.provider (s.stdoutCarry ++ (Utf8.write s.stdoutDecoder (stdoutBytes calls)).1) := by
  induction calls generalizing s with
  | nil => simp [signalsSent, emissions, stdoutBytes, Utf8.write, lineSignals, cutLines_of_not_mem hcarry]
  | cons call calls ih =>
    cases call with
    | emit e =>
      have hsame := sameReader_emit (E := E) s e
      have hrest := ih (s := (s.emit E e).2) (hsame.capability.trans hcap) (by rwa [hsame.carry])
        (by rw [hsame.decoder, hsame.carry]; exact hfits)
      rw [hsame.provider, hsame.decoder, hsame.carry] at hrest
      exact hrest
    | ingest stream chunk at' =>
      cases stream with
      | stderr =>
        have hread : s.readChunk E .stderr chunk at' = ({ s with lastActivityAt := at'.toISOString }, [activity at']) :=
          readChunk_other (.inl (by decide))
        have hsame := sameReader_ingest (E := E) s .stderr chunk at'
        rw [hread] at hsame
        have hrest := ih (s := s.ingest E .stderr chunk at') (hsame.capability.trans hcap) (by rwa [hsame.carry])
          (by rw [hsame.decoder, hsame.carry]; exact hfits)
        rw [hsame.provider, hsame.decoder, hsame.carry] at hrest
        rw [signalsSent_ingest, hrest, hread]
        rfl
      | stdout =>
        obtain ⟨hchunk, hfits⟩ := hfits
        have hread := @readChunk_fits E s chunk at' hcap hchunk
        have hsame := sameReader_ingest (E := E) s .stdout chunk at'
        rw [hread] at hsame
        have hrest := ih (s := s.ingest E .stdout chunk at') (hsame.capability.trans hcap)
          (by rw [hsame.carry]; exact not_mem_carry _) (by rw [hsame.decoder, hsame.carry]; exact hfits)
        rw [hsame.provider, hsame.decoder, hsame.carry] at hrest
        rw [signalsSent_ingest, signals_readChunk hcap hchunk, hrest, stdoutBytes, Utf8.write_append, ← List.append_assoc,
          lineSignals_append s.provider (s.stdoutCarry ++ _)]

/-! ## Dropped events -/

/-- The events in use are the last ones, and each one that went is counted. -/
theorem prune_eq (total dropped : ℕ) (es : List JobProgressEvent) :
    ∃ k ≤ es.length, prune E total dropped es = (es.drop k, increment^[k] dropped) := by
  induction es generalizing total dropped with
  | nil => exact ⟨0, le_rfl, rfl⟩
  | cons e es ih =>
    unfold prune
    split
    · obtain ⟨k, hk, hprune⟩ := ih (total - eventBytes E e) (increment dropped)
      refine ⟨k + 1, Nat.succ_le_succ hk, ?_⟩
      rw [hprune, List.drop_succ_cons, Function.iterate_succ_apply]
    · exact ⟨0, Nat.zero_le _, rfl⟩

theorem increment_iterate {n k : ℕ} (h : n + k ≤ safe) : increment^[k] n = n + k := by
  induction k with
  | zero => rfl
  | succ k ih =>
    rw [Function.iterate_succ_apply', ih (by omega), increment_of_lt (by omega)]
    rfl

/-- As long as the numbers are exact, each event is in use or counted as dropped. -/
def Counted (s : Tracker) : Prop := s.lastSeq ≤ safe ∧ (s.lastSeq < safe → s.droppedCount + s.events.length = s.lastSeq)

theorem counted_emit (e : Emission) (h : s.Counted) : (s.emit E e).2.Counted := by
  obtain ⟨hsafe, hcount⟩ := h
  unfold emit
  split
  · exact ⟨hsafe, hcount⟩
  · simp only
    obtain ⟨k, hk, hprune⟩ := prune_eq (E := E) (totalBytes E (s.events ++ [s.newEvent e])) s.droppedCount
      (s.events ++ [s.newEvent e])
    refine ⟨increment_le hsafe, fun hlt => ?_⟩
    have hlast : s.lastSeq < safe := (le_increment hsafe).trans_lt hlt
    have hlen := hcount hlast
    simp only [List.length_append, List.length_singleton] at hk
    have hseq : (s.newEvent e).seq = s.lastSeq + 1 := increment_of_lt hlast
    simp only [hprune, hseq, List.length_drop, List.length_append, List.length_singleton]
    rw [increment_iterate (by omega)]
    omega

theorem counted_emitAll (es : List Emission) (h : s.Counted) : (s.emitAll E es).Counted := by
  induction es generalizing s with
  | nil => exact h
  | cons e es ih => exact ih (counted_emit e h)

/-- **The count of dropped events** is not touched by how the output was cut. -/
theorem counted_run (calls : List Call) (hcap : s.capability = .structured) (hfits : Fits s.stdoutDecoder s.stdoutCarry calls)
    (h : s.Counted) : (s.run E calls).Counted := by
  induction calls generalizing s with
  | nil => exact h
  | cons call calls ih =>
    cases call with
    | emit e =>
      have hsame := sameReader_emit (E := E) s e
      refine ih (s := (s.emit E e).2) (hsame.capability.trans hcap) ?_ (counted_emit e h)
      rwa [hsame.decoder, hsame.carry]
    | ingest stream chunk at' =>
      have hsame := sameReader_ingest (E := E) s stream chunk at'
      suffices hread : (s.readChunk E stream chunk at').1.Counted ∧ (s.readChunk E stream chunk at').1.capability = .structured ∧
          Fits (s.readChunk E stream chunk at').1.stdoutDecoder (s.readChunk E stream chunk at').1.stdoutCarry calls by
        refine ih (s := s.ingest E stream chunk at') (hsame.capability.trans hread.2.1) ?_ (counted_emitAll _ hread.1)
        rw [hsame.decoder, hsame.carry]
        exact hread.2.2
      cases stream with
      | stderr =>
        rw [readChunk_other (.inl (by decide))]
        exact ⟨h, hcap, hfits⟩
      | stdout =>
        rw [readChunk_fits hcap hfits.1]
        exact ⟨h, hcap, hfits.2⟩

theorem counted_create (provider : String) (outputFormat : Option String) (startedAt : Text)
    (capabilityOverride : Option JobProgressCapability) :
    (create provider outputFormat none startedAt capabilityOverride).Counted := ⟨Nat.zero_le _, fun _ => rfl⟩

end Tracker

/-! ## Any two ways to cut the output -/

section Cut
variable (E : Engine) (provider : String) (outputFormat : Option String) (startedAt : Text)
  (capabilityOverride : Option JobProgressCapability)

/-- **However the output is cut**, the signals of its complete lines are emitted in order, and only pruning drops events. -/
theorem signals_of_any_cut (calls calls' : List Call)
    (hcap : (Tracker.create provider outputFormat none startedAt capabilityOverride).capability = .structured)
    (hsame : stdoutBytes calls = stdoutBytes calls') (hfits : Fits none [] calls) (hfits' : Fits none [] calls') :
    let s := Tracker.create provider outputFormat none startedAt capabilityOverride
    s.signalsSent E calls = lineSignals E provider (Utf8.write none (stdoutBytes calls)).1 ∧
      s.signalsSent E calls' = s.signalsSent E calls ∧
      (s.run E calls).Counted ∧ (s.run E calls').Counted := by
  intro s
  have hsent := Tracker.signalsSent_eq (E := E) (s := s) calls hcap List.not_mem_nil hfits
  have hsent' := Tracker.signalsSent_eq (E := E) (s := s) calls' hcap List.not_mem_nil hfits'
  have hcounted : s.Counted := Tracker.counted_create provider outputFormat startedAt capabilityOverride
  refine ⟨hsent, ?_, Tracker.counted_run calls hcap hfits hcounted, Tracker.counted_run calls' hcap hfits' hcounted⟩
  rw [hsent, hsent', hsame]

end Cut

section Examples

def claudeTracker : Tracker := .create "claude" (some "stream-json") none (text "1970-01-01T00:00:00.000Z") none

def resultLine : List UInt8 := (text "\x7b\"type\":\"result\"\x7d\n").map UInt16.toUInt8

def epoch : Date := ⟨0, by decide⟩

/-- Two seconds later. -/
def later : Date := ⟨2000, by decide⟩

def atOnce : List Call := [.ingest .stdout (resultLine ++ resultLine) epoch]

def apart : List Call := [.ingest .stdout resultLine epoch, .ingest .stdout resultLine later]

theorem signals_of_two_cuts :
    claudeTracker.signalsSent isoEngine atOnce = lineSignals isoEngine "claude" (Utf8.write none (stdoutBytes atOnce)).1 ∧
      claudeTracker.signalsSent isoEngine apart = claudeTracker.signalsSent isoEngine atOnce ∧
      (claudeTracker.run isoEngine atOnce).Counted ∧ (claudeTracker.run isoEngine apart).Counted :=
  signals_of_any_cut isoEngine "claude" (some "stream-json") (text "1970-01-01T00:00:00.000Z") none atOnce apart (by decide)
    (by decide) ⟨by decide, trivial⟩ ⟨by decide, by decide, trivial⟩

/-- Two signals of one chunk are merged, of two chunks they are not. -/
theorem signals_merged_in_one_chunk :
    claudeTracker.capability = .structured ∧ stdoutBytes atOnce = stdoutBytes apart ∧ resultLine.length = 18 ∧
      COALESCE_WINDOW_MS < later.time - epoch.time ∧
      (claudeTracker.run isoEngine atOnce).events.map (fun e => (e.kind, e.source)) = [(.output, .provider)] ∧
      (claudeTracker.run isoEngine apart).events.map (fun e => (e.kind, e.source)) = [(.output, .provider), (.output, .provider)] := by
  refine ⟨by decide, by decide, by decide, by decide, ?_, ?_⟩
  · decide +kernel
  · decide +kernel

end Examples

end LlmGateway.Progress
