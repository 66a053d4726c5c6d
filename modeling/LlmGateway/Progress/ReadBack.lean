import LlmGateway.Progress.Chunks
import LlmGateway.Progress.Messages
import LlmGateway.Progress.Stored

/-!
# Stored progress reads back

* `Good` — the invariant of a tracker whose numbers are exact; emitting and ingesting keep it (`inv_run`);
* `parse_serialize` — what a good tracker stores is read back as it is;
* `readPages_eq` — a reader who goes on from the cursor of the last page gets each event once, in order.
-/

namespace LlmGateway.Progress

open Lib Lib.Utf16 Lib.JsNumber Lib.JsValue Lib.IsoTime

variable {E : Engine}

/-! ## Sizes -/

theorem length_digits (w n : ℕ) : (digits w n).length = w := by
  induction w generalizing n with
  | zero => rfl
  | succ w ih => rw [digits, List.length_cons, ih]

theorem length_toISOString (d : Date) : d.toISOString.length ≤ 27 := by
  have hyear : (yearText (civil (d.time / 86400000)).year).length ≤ 7 := by
    unfold yearText
    split
    · rw [length_digits]
      omega
    · rw [List.length_cons, length_digits]
  simp only [Date.toISOString, text, isoText, isoChars, dateText, clockText, String.toList_ofList, List.length_map,
    List.length_append, List.length_cons, List.length_nil, length_digits]
  omega

theorem byteLength_phase (p : JobProgressPhase) : byteLength (quote (text p.name)) ≤ 11 := by cases p <;> decide

theorem byteLength_kind (k : JobProgressKind) : byteLength (quote (text k.name)) ≤ 12 := by cases k <;> decide

theorem byteLength_source (s : Source) : byteLength (quote (text s.name)) ≤ 10 := by cases s <;> decide

theorem byteLength_capability (c : JobProgressCapability) : byteLength (quote (text c.name)) ≤ 17 := by cases c <;> decide

theorem byteLength_safe {n : ℕ} (h : n ≤ safe) : byteLength (numeral n) ≤ 16 := by
  apply byteLength_numeral_le _ (by omega)
  unfold safe at h
  omega

/-- **One event is small.** -/
theorem eventBytes_le {e : JobProgressEvent} (hseq : e.seq ≤ safe) (hts : e.ts.length ≤ 27)
    (hmessage : byteLength e.message ≤ MAX_EVENT_MESSAGE_BYTES) : eventBytes E e ≤ 4096 := by
  have htokens : JsonText.tokens (tree E.numbers e.toValue) =
      [[123], quote (text "seq"), [58], numeral e.seq, [44], quote (text "ts"), [58], quote e.ts, [44], quote (text "phase"), [58],
        quote (text e.phase.name), [44], quote (text "kind"), [58], quote (text e.kind.name), [44], quote (text "message"), [58],
        quote e.message, [44], quote (text "source"), [58], quote (text e.source.name), [125]] := by
    simp [JobProgressEvent.toValue, tree, memberTrees, JsonText.tokens, JsonText.memberTokens, JsonText.memberToken,
      numberTree_natCast hseq]
  have hfixed : byteLength (quote (text "seq")) = 5 ∧ byteLength (quote (text "ts")) = 4 ∧ byteLength (quote (text "phase")) = 7 ∧
      byteLength (quote (text "kind")) = 6 ∧ byteLength (quote (text "message")) = 9 ∧ byteLength (quote (text "source")) = 8 ∧
      byteLength [123] = 1 ∧ byteLength [58] = 1 ∧ byteLength [44] = 1 ∧ byteLength [125] = 1 := by decide
  obtain ⟨h₁, h₂, h₃, h₄, h₅, h₆, h₇, h₈, h₉, h₁₀⟩ := hfixed
  have hnumeral := byteLength_safe hseq
  have htsBytes := byteLength_quote_le e.ts
  have hmessageBytes := byteLength_quote_le e.message
  have hlength := length_le_byteLength e.message
  have hphase := byteLength_phase e.phase
  have hkind := byteLength_kind e.kind
  have hsource := byteLength_source e.source
  unfold MAX_EVENT_MESSAGE_BYTES at hmessage
  refine (byteLength_flatten_le (JsonText.tokens (tree E.numbers e.toValue))).trans ?_
  rw [htokens]
  simp only [List.map_cons, List.map_nil, List.sum_cons, List.sum_nil, h₁, h₂, h₃, h₄, h₅, h₆, h₇, h₈, h₉, h₁₀]
  linarith

/-! ## Pruning -/

theorem totalBytes_cons (e : JobProgressEvent) (es : List JobProgressEvent) :
    totalBytes E (e :: es) = eventBytes E e + totalBytes E es := rfl

/-- The limits on the events that are held. -/
def Held (E : Engine) (es : List JobProgressEvent) : Prop := es.length ≤ MAX_EVENTS ∧ totalBytes E es ≤ MAX_EVENTS_BYTES

/-- **Pruning takes away the oldest events**, as few as the limits need. -/
theorem prune_spec (dropped : ℕ) (es : List JobProgressEvent) :
    ∃ k ≤ es.length, prune E (totalBytes E es) dropped es = (es.drop k, increment^[k] dropped) ∧ Held E (es.drop k) ∧
      ∀ j, Held E (es.drop j) → k ≤ j := by
  induction es generalizing dropped with
  | nil => exact ⟨0, le_rfl, rfl, ⟨Nat.zero_le _, Nat.zero_le _⟩, fun j _ => Nat.zero_le j⟩
  | cons e es ih =>
    by_cases hover : MAX_EVENTS < (e :: es).length ∨ MAX_EVENTS_BYTES < totalBytes E (e :: es)
    · obtain ⟨k, hk, hprune, hheld, hleast⟩ := ih (increment dropped)
      refine ⟨k + 1, Nat.succ_le_succ hk, ?_, hheld, ?_⟩
      · rw [prune, if_pos hover, totalBytes_cons, Nat.add_sub_cancel_left, hprune, List.drop_succ_cons,
          Function.iterate_succ_apply]
      · intro j hj
        cases j with
        | zero =>
          rcases hover with h | h
          · exact absurd hj.1 (Nat.not_le.2 h)
          · exact absurd hj.2 (Nat.not_le.2 h)
        | succ j => exact Nat.succ_le_succ (hleast j hj)
    · rw [not_or, Nat.not_lt, Nat.not_lt] at hover
      exact ⟨0, Nat.zero_le _, by rw [prune, if_neg (by omega)]; rfl, hover, fun j _ => Nat.zero_le j⟩

theorem increment_iterate_le {n : ℕ} (h : n ≤ safe) (k : ℕ) : increment^[k] n ≤ safe := by
  induction k generalizing n with
  | zero => exact h
  | succ k ih => exact ih (increment_le h)

/-! ## The invariant -/

/-- An event as `emit` makes it. -/
structure Stable (e : JobProgressEvent) : Prop where
  seq_pos : 0 < e.seq
  seq_safe : e.seq ≤ safe
  dated : ∃ d : Date, e.ts = d.toISOString
  message : (0 : UInt16) ∉ e.message ∧ byteLength e.message ≤ MAX_EVENT_MESSAGE_BYTES
  projected : e.projected = e

theorem Stable.storable {e : JobProgressEvent} (h : Stable e) : Storable E e where
  seq_pos := h.seq_pos
  seq_safe := h.seq_safe
  dated := by
    obtain ⟨d, hd⟩ := h.dated
    rw [hd, Date.toISOString, E.dateParse_isoText d.time d.valid]
    rfl
  message := h.message

theorem Stable.eventBytes_le {e : JobProgressEvent} (h : Stable e) : eventBytes E e ≤ 4096 := by
  obtain ⟨d, hd⟩ := h.dated
  exact Progress.eventBytes_le h.seq_safe (hd ▸ length_toISOString d) h.message.2

/-- The state of a tracker as long as its numbers are exact. -/
structure Good (E : Engine) (s : Tracker) : Prop where
  stable : ∀ e ∈ s.events, Stable e
  numbered : s.events.length ≤ s.lastSeq ∧
    s.events.map (·.seq) = List.range' (s.lastSeq + 1 - s.events.length) s.events.length
  last : (s.events.getLast?.map (·.seq)).getD 0 = s.lastSeq
  held : Held E s.events
  dated : ∃ d : Date, s.lastActivityAt = d.toISOString
  droppedCount_safe : s.droppedCount ≤ safe

/-- The invariant of all runs. -/
def Inv (E : Engine) (s : Tracker) : Prop := s.lastSeq ≤ safe ∧ (s.lastSeq < safe → Good E s)

namespace Tracker

variable {s : Tracker} {e : Emission}

theorem stable_newEvent (hlast : s.lastSeq < safe) (hfree : (0 : UInt16) ∉ e.message) : Stable (s.newEvent e) where
  seq_pos := by
    show 0 < increment s.lastSeq
    rw [increment_of_lt hlast]
    omega
  seq_safe := increment_le hlast.le
  dated := ⟨e.at', rfl⟩
  message := ⟨not_mem_projectEventMessage _ _ hfree, byteLength_projectEventMessage _ _ _⟩
  projected := by
    have hidem := projectEventMessage_idem e.kind e.source e.message
    show ({ s.newEvent e with message := _ } : JobProgressEvent) = s.newEvent e
    simp only [newEvent]
    rw [hidem]

/-- **A new event**: it is held, and with it the last ones of those before. -/
theorem emit_new (hlast : s.lastSeq < safe) (hfree : (0 : UInt16) ∉ e.message) (hnew : s.merged E e = none) :
    ∃ k ≤ s.events.length, (s.emit E e).2 = { s with
      lastActivityAt := e.at'.toISOString, lastSeq := s.lastSeq + 1, events := s.events.drop k ++ [s.newEvent e],
      droppedCount := increment^[k] s.droppedCount } ∧ Held E (s.events.drop k ++ [s.newEvent e]) ∧
      ∀ j, Held E ((s.events ++ [s.newEvent e]).drop j) → k ≤ j := by
  have hstable := stable_newEvent hlast hfree
  obtain ⟨k, hk, hprune, hheld, hleast⟩ := prune_spec (E := E) s.droppedCount (s.events ++ [s.newEvent e])
  -- the new event by itself is within the limits
  have hk : k ≤ s.events.length := by
    apply hleast
    rw [List.drop_left]
    have hbytes := hstable.eventBytes_le (E := E)
    constructor
    · show 1 ≤ 64
      omega
    · show eventBytes E (s.newEvent e) + 0 ≤ 32 * 1024
      omega
  have hdrop : (s.events ++ [s.newEvent e]).drop k = s.events.drop k ++ [s.newEvent e] := List.drop_append_of_le_length hk
  have hseq : (s.newEvent e).seq = s.lastSeq + 1 := increment_of_lt hlast
  rw [hdrop] at hheld hprune
  refine ⟨k, hk, ?_, hheld, hleast⟩
  unfold emit
  rw [hnew]
  simp only [hprune, hseq]

theorem good_emit (h : Good E s) (hlast : s.lastSeq < safe) (hfree : (0 : UInt16) ∉ e.message) : Good E (s.emit E e).2 := by
  cases hnew : s.merged E e with
  | some previous =>
    have hemit : (s.emit E e).2 = { s with lastActivityAt := e.at'.toISOString } := by
      unfold emit
      rw [hnew]
    rw [hemit]
    exact ⟨h.stable, h.numbered, h.last, h.held, ⟨e.at', rfl⟩, h.droppedCount_safe⟩
  | none =>
    obtain ⟨k, hk, hemit, hheld, -⟩ := emit_new (E := E) hlast hfree hnew
    have hseq : (s.newEvent e).seq = s.lastSeq + 1 := increment_of_lt hlast
    obtain ⟨hlen, hseqs⟩ := h.numbered
    rw [hemit]
    refine ⟨?_, ⟨?_, ?_⟩, ?_, hheld, ⟨e.at', rfl⟩, increment_iterate_le h.droppedCount_safe k⟩
    · intro x hx
      rcases List.mem_append.1 hx with hx | hx
      · exact h.stable x ((List.drop_sublist _ _).subset hx)
      · rw [List.mem_singleton.1 hx]
        exact stable_newEvent hlast hfree
    · simp only [List.length_append, List.length_drop, List.length_singleton]
      omega
    · simp only [List.map_append, List.map_drop, hseqs, List.map_cons, List.map_nil, hseq, List.length_append, List.length_drop,
        List.length_singleton, List.drop_range']
      rw [List.range'_1_concat]
      have hstart : s.lastSeq + 1 + 1 - (s.events.length - k + 1) = s.lastSeq + 1 - s.events.length + k * 1 := by omega
      have hend : s.lastSeq + 1 = s.lastSeq + 1 - s.events.length + k * 1 + (s.events.length - k) := by omega
      rw [hstart, ← hend]
    · simp [hseq]

/-- A call of `emit` numbers at most one event. -/
theorem lastSeq_emit (s : Tracker) (e : Emission) : (s.emit E e).2.lastSeq = s.lastSeq ∨ (s.emit E e).2.lastSeq = increment s.lastSeq := by
  unfold emit
  split
  · exact .inl rfl
  · exact .inr rfl

theorem inv_emit (h : Inv E s) (hfree : (0 : UInt16) ∉ e.message) : Inv E (s.emit E e).2 := by
  obtain ⟨hsafe, hgood⟩ := h
  have hseq := lastSeq_emit (E := E) s e
  constructor
  · rcases hseq with hseq | hseq
    · rw [hseq]
      exact hsafe
    · rw [hseq]
      exact increment_le hsafe
  · intro hlt
    have hlast : s.lastSeq < safe := by
      rcases hseq with hseq | hseq
      · rwa [hseq] at hlt
      · rw [hseq] at hlt
        exact (le_increment hsafe).trans_lt hlt
    exact good_emit (hgood hlast) hlast hfree

theorem inv_emitAll {es : List Emission} (h : Inv E s) (hfree : ∀ e ∈ es, (0 : UInt16) ∉ e.message) : Inv E (s.emitAll E es) := by
  induction es generalizing s with
  | nil => exact h
  | cons e es ih => exact ih (inv_emit h (hfree e List.mem_cons_self)) fun x hx => hfree x (List.mem_cons_of_mem _ hx)

/-! ## Chunks of output -/

section Chunk
variable {stream : Stream} {chunk : List UInt8} {at' : Date}

theorem not_mem_activity (at' : Date) : (0 : UInt16) ∉ (activity at').message := by
  show (0 : UInt16) ∉ text "Provider process is active"
  decide

theorem inv_readChunk (h : Inv E s) : Inv E (s.readChunk E stream chunk at').1 := by
  obtain ⟨hsafe, hgood⟩ := h
  unfold readChunk
  simp only
  split
  · exact ⟨hsafe, fun hlt => { hgood hlt with dated := ⟨at', rfl⟩ }⟩
  · split
    · exact ⟨hsafe, fun hlt => { hgood hlt with
        dated := ⟨at', rfl⟩
        droppedCount_safe := increment_le (hgood hlt).droppedCount_safe }⟩
    · exact ⟨hsafe, fun hlt => { hgood hlt with dated := ⟨at', rfl⟩ }⟩

/-- The messages of what a chunk emits are the gateway's own. -/
theorem not_mem_readChunk : ∀ e ∈ (s.readChunk E stream chunk at').2, (0 : UInt16) ∉ e.message := by
  have hactivity : ∀ e ∈ [activity at'], (0 : UInt16) ∉ e.message := by
    intro e he
    rw [List.mem_singleton.1 he]
    exact not_mem_activity at'
  unfold readChunk
  simp only
  split
  · exact hactivity
  · split
    · exact hactivity
    · split
      · exact hactivity
      · intro e he
        obtain ⟨x, hx, rfl⟩ := List.mem_map.1 he
        obtain ⟨line, -, hline⟩ := List.mem_filterMap.1 hx
        exact (ordinary_structuredSignal hline).2.2

end Chunk

/-! ## Runs -/

end Tracker

/-- The messages a caller emits have no NUL. -/
def Call.NulFree : Call → Prop
  | .emit e => (0 : UInt16) ∉ e.message
  | .ingest .. => True

namespace Tracker

variable {s : Tracker}

theorem inv_step {call : Call} (h : Inv E s) (hfree : call.NulFree) : Inv E (s.step E call) := by
  cases call with
  | emit e => exact inv_emit h hfree
  | ingest stream chunk at' => exact inv_emitAll (inv_readChunk h) not_mem_readChunk

theorem inv_run {calls : List Call} (h : Inv E s) (hfree : ∀ c ∈ calls, c.NulFree) : Inv E (s.run E calls) := by
  induction calls generalizing s with
  | nil => exact h
  | cons c calls ih => exact ih (inv_step h (hfree c List.mem_cons_self)) fun x hx => hfree x (List.mem_cons_of_mem _ hx)

theorem inv_create (provider : String) (outputFormat : Option String) (startedAt : Date)
    (capabilityOverride : Option JobProgressCapability) :
    Inv E (create provider outputFormat none startedAt.toISOString capabilityOverride) := by
  refine ⟨Nat.zero_le _, fun _ => ⟨?_, ⟨le_rfl, rfl⟩, rfl, ⟨Nat.zero_le _, Nat.zero_le _⟩, ⟨startedAt, rfl⟩, Nat.zero_le _⟩⟩
  exact fun e he => absurd he List.not_mem_nil

end Tracker

/-! ## Stored, and read back -/

section Stored
variable {s : Tracker}

theorem cursorOf_natCast (n : ℕ) : cursorOf (.finite n) = n := by
  show ⌊(n : ℚ)⌋.toNat = n
  rw [Int.floor_natCast]
  exact Int.toNat_natCast n

/-- All events are stored. -/
theorem stored_of_pos (hpos : ∀ e ∈ s.events, 0 < e.seq) (hlen : s.events.length ≤ MAX_EVENTS) :
    s.stored = ⟨s.capability, s.lastActivityAt, s.lastSeq, s.droppedCount, s.events⟩ := by
  have hall : s.events.filter (fun e => decide (cursorOf (.finite (0 : ℕ)) < e.seq)) = s.events := by
    rw [List.filter_eq_self]
    intro e he
    rw [cursorOf_natCast]
    exact decide_eq_true (hpos e he)
  have hlimit : boundedLimit (.finite MAX_EVENTS) = MAX_EVENTS := by
    show (max 1 (min (MAX_EVENTS : ℤ) ⌊((MAX_EVENTS : ℕ) : ℚ)⌋)).toNat = MAX_EVENTS
    rw [Int.floor_natCast]
    decide
  rw [Nat.cast_zero] at hall
  unfold Tracker.stored Tracker.snapshot
  simp only
  rw [hall, hlimit, List.take_of_length_le hlen]

theorem stored_eq (h : Good E s) : s.stored = ⟨s.capability, s.lastActivityAt, s.lastSeq, s.droppedCount, s.events⟩ :=
  stored_of_pos (fun e he => (h.stable e he).seq_pos) h.held.1

theorem outOfOrder_eq_false {es : List JobProgressEvent} {n : ℕ} (h : es.map (·.seq) = List.range' n es.length) :
    outOfOrder es = false := by
  induction es generalizing n with
  | nil => rfl
  | cons e es ih =>
    rw [List.map_cons, List.length_cons, List.range'_succ, List.cons.injEq] at h
    obtain ⟨he, h⟩ := h
    cases es with
    | nil => rfl
    | cons e' es =>
      rw [outOfOrder, ih h, Bool.or_false, decide_eq_false_iff_not]
      rw [List.map_cons, List.length_cons, List.range'_succ, List.cons.injEq] at h
      omega

theorem not_refused (h : Good E s) : ¬Refused E s.stored := by
  rw [stored_eq h]
  rintro (hlen | horder | hlast | hbytes)
  · exact absurd h.held.1 (Nat.not_le.2 hlen)
  · have hfalse := outOfOrder_eq_false h.numbered.2
    rw [hfalse] at horder
    cases horder
  · have heq := h.last
    simp only [heq] at hlast
    omega
  · exact absurd h.held.2 (Nat.not_le.2 hbytes)

theorem storable_stored (h : Good E s) (hsafe : s.lastSeq ≤ safe) : StorableState E s.stored := by
  rw [stored_eq h]
  refine ⟨?_, hsafe, h.droppedCount_safe, fun e he => (h.stable e he).storable⟩
  obtain ⟨d, hd⟩ := h.dated
  rw [hd, Date.toISOString, E.dateParse_isoText d.time d.valid]
  rfl

theorem byteLength_spellItems_le (vs : List JsValue) : byteLength (JsonText.spellItems (trees E.numbers vs)) ≤
    (vs.map fun v => byteLength (stringify E.numbers v)).sum + vs.length + 1 := by
  induction vs with
  | nil =>
    have hnil : byteLength (JsonText.spellItems []) ≤ 0 + 0 + 1 := by decide
    exact hnil
  | cons v vs ih =>
    have hunit (u : UInt16) (t : Text) : byteLength (stringify E.numbers v ++ u :: t) ≤
        byteLength (stringify E.numbers v) + (unitBytes u + byteLength t) :=
      (byteLength_append_le _ _).trans (Nat.add_le_add_left (byteLength_cons_le u t) _)
    rw [List.map_cons, List.sum_cons, List.length_cons]
    cases vs with
    | nil =>
      have hspell := JsonText.spellItems_one (tree E.numbers v) []
      have hlast := hunit 93 []
      have h93 : unitBytes 93 = 1 := by decide
      rw [List.append_nil] at hspell
      rw [trees, trees, hspell]
      rw [h93, byteLength] at hlast
      exact hlast.trans (by omega)
    | cons v' vs =>
      have hspell := JsonText.spellItems_cons (tree E.numbers v) (trees_ne_nil (P := E.numbers) v' vs) []
      have hmore := hunit 44 (JsonText.spellItems (trees E.numbers (v' :: vs)))
      have h44 : unitBytes 44 = 1 := by decide
      rw [List.append_nil, List.append_nil] at hspell
      rw [trees, hspell]
      rw [h44] at hmore
      exact hmore.trans (by omega)

/-- **The stored text is short enough.** -/
theorem byteLength_serialize_le (h : Good E s) (hsafe : s.lastSeq ≤ safe) :
    byteLength (s.serialize E) ≤ MAX_STORED_PROGRESS_BYTES := by
  obtain ⟨d, hd⟩ := h.dated
  have hone : ((1 : ℕ) : ℚ) = 1 := Nat.cast_one
  have hversion : numberTree E.numbers (.finite 1) = .number [49] := by
    rw [← hone, numberTree_natCast (by decide)]
    rfl
  have hpieces : s.serialize E =
      [[123], quote (text "version"), [58], [49], [44], quote (text "capability"), [58], quote (text s.capability.name), [44],
        quote (text "lastActivityAt"), [58], quote s.lastActivityAt, [44], quote (text "lastSeq"), [58], numeral s.lastSeq, [44],
        quote (text "droppedCount"), [58], numeral s.droppedCount, [44], quote (text "events"), [58], [91],
        JsonText.spellItems (trees E.numbers (s.events.map (·.toValue))), [125]].flatten := by
    rw [Tracker.serialize, stored_eq h]
    simp [stringify, StoredJobProgress.toValue, tree, memberTrees, JsonText.spell, JsonText.tokens, JsonText.memberTokens,
      JsonText.memberToken, numberTree_natCast hsafe, numberTree_natCast h.droppedCount_safe, hversion, JsonText.spellItems]
  have hfixed : byteLength (quote (text "version")) = 9 ∧ byteLength (quote (text "capability")) = 12 ∧
      byteLength (quote (text "lastActivityAt")) = 16 ∧ byteLength (quote (text "lastSeq")) = 9 ∧
      byteLength (quote (text "droppedCount")) = 14 ∧ byteLength (quote (text "events")) = 8 ∧ byteLength [123] = 1 ∧
      byteLength [58] = 1 ∧ byteLength [44] = 1 ∧ byteLength [49] = 1 ∧ byteLength [91] = 1 ∧ byteLength [125] = 1 := by decide
  obtain ⟨h₁, h₂, h₃, h₄, h₅, h₆, h₇, h₈, h₉, h₁₀, h₁₁, h₁₂⟩ := hfixed
  have hcapability := byteLength_capability s.capability
  have hts := byteLength_quote_le s.lastActivityAt
  have hlength := length_toISOString d
  rw [← hd] at hlength
  have hseq := byteLength_safe hsafe
  have hdropped := byteLength_safe h.droppedCount_safe
  have hitems := byteLength_spellItems_le (E := E) (s.events.map (·.toValue))
  have htotal : ((s.events.map (·.toValue)).map fun v => byteLength (stringify E.numbers v)).sum = totalBytes E s.events := by
    rw [List.map_map]
    rfl
  rw [htotal, List.length_map] at hitems
  obtain ⟨hcount, hbytes⟩ := h.held
  have hmax : MAX_EVENTS = 64 ∧ MAX_EVENTS_BYTES = 32768 ∧ MAX_STORED_PROGRESS_BYTES = 40960 := ⟨rfl, rfl, rfl⟩
  rw [hmax.1] at hcount
  rw [hmax.2.1] at hbytes
  rw [hpieces, hmax.2.2]
  refine (byteLength_flatten_le _).trans ?_
  simp only [List.map_cons, List.map_nil, List.sum_cons, List.sum_nil, h₁, h₂, h₃, h₄, h₅, h₆, h₇, h₈, h₉, h₁₀, h₁₁, h₁₂]
  linarith

/-- **What a tracker stores is read back.** -/
theorem parse_serialize (h : Good E s) (hsafe : s.lastSeq ≤ safe) :
    parseStoredJobProgress E (some (s.serialize E)) = some s.stored := by
  have hne : s.serialize E ≠ [] := by
    unfold Tracker.serialize stringify StoredJobProgress.toValue
    simp [tree, JsonText.spell, JsonText.tokens]
  have hprojected : s.events.map (·.projected) = s.events := by
    rw [List.map_congr_left fun e he => (h.stable e he).projected]
    exact List.map_id _
  rw [parseStoredJobProgress, if_neg hne, if_neg (Nat.not_lt.2 (byteLength_serialize_le h hsafe)), Tracker.serialize,
    parseState_stringify (storable_stored h hsafe), if_neg (not_refused h)]
  rw [stored_eq h]
  simp only [hprojected]

/-- A tracker made of what another one stored shows the same pages, and stores the same text. -/
theorem create_stored (h : Good E s) (provider : String) (outputFormat : Option String) (startedAt : Text)
    (capabilityOverride : Option JobProgressCapability) :
    let r := Tracker.create provider outputFormat (some s.stored) startedAt capabilityOverride
    (∀ cursor limit, r.snapshot cursor limit = s.snapshot cursor limit) ∧ r.serialize E = s.serialize E := by
  intro r
  have hr : r = { r with
      capability := s.capability, lastActivityAt := s.lastActivityAt, lastSeq := s.lastSeq, droppedCount := s.droppedCount,
      events := s.events } := by
    show Tracker.create provider outputFormat (some s.stored) startedAt capabilityOverride = _
    rw [stored_eq h]
    rfl
  have hsnapshot : ∀ cursor limit, r.snapshot cursor limit = s.snapshot cursor limit := by
    intro cursor limit
    rw [hr]
    rfl
  refine ⟨hsnapshot, ?_⟩
  unfold Tracker.serialize Tracker.stored
  rw [hsnapshot]

/-! ## Pages -/

/-- The events of `n` pages, each from the cursor the page before it named. -/
def readPages (s : Tracker) (limit : Number) : ℕ → ℕ → List JobProgressEvent
  | 0, _ => []
  | n + 1, cursor =>
    (s.snapshot (.finite cursor) limit).events ++ readPages s limit n (s.snapshot (.finite cursor) limit).nextAfterSeq

theorem boundedLimit_pos {limit : Number} (h : limit ≠ .nan) : 1 ≤ boundedLimit limit := by
  cases limit with
  | nan => exact absurd rfl h
  | infinite negative => cases negative <;> decide
  | finite q =>
    show 1 ≤ (max 1 (min (MAX_EVENTS : ℤ) ⌊q⌋)).toNat
    omega

/-- Behind the last event of the first `k` there are the others. -/
theorem filter_behind {es : List JobProgressEvent} (h : es.Pairwise fun e e' => e.seq < e'.seq) {cursor k : ℕ}
    (hcursor : ∀ e ∈ es, cursor < e.seq) :
    es.filter (fun e => decide (((es.take k).getLast?.map (·.seq)).getD cursor < e.seq)) = es.drop k := by
  induction es generalizing cursor k with
  | nil => simp
  | cons e es ih =>
    obtain ⟨he, hes⟩ := List.pairwise_cons.1 h
    cases k with
    | zero =>
      rw [List.take_zero, List.drop_zero, List.filter_eq_self]
      exact fun x hx => decide_eq_true (hcursor x hx)
    | succ k =>
      have hlast : (((e :: es).take (k + 1)).getLast?.map (·.seq)).getD cursor = ((es.take k).getLast?.map (·.seq)).getD e.seq := by
        rw [List.take_succ_cons, List.getLast?_cons]
        cases (es.take k).getLast? <;> rfl
      have hnot : ¬((es.take k).getLast?.map (·.seq)).getD e.seq < e.seq := by
        cases hl : (es.take k).getLast? with
        | none => simp
        | some x =>
          have hx := he x ((List.take_sublist _ _).subset (List.mem_of_getLast? hl))
          simp only [Option.map_some, Option.getD_some]
          omega
      rw [hlast, List.filter_cons_of_neg (by simpa using hnot), List.drop_succ_cons]
      exact ih hes he

theorem pairwise_of_numbered {es : List JobProgressEvent} {n : ℕ} (h : es.map (·.seq) = List.range' n es.length) :
    es.Pairwise fun e e' => e.seq < e'.seq := by
  have hrange := List.pairwise_lt_range' (s := n) (n := es.length)
  rw [← h, List.pairwise_map] at hrange
  exact hrange

theorem le_nextCursor (es : List JobProgressEvent) (k : ℕ) {cursor : ℕ} (h : ∀ e ∈ es, cursor < e.seq) :
    cursor ≤ ((es.take k).getLast?.map (·.seq)).getD cursor := by
  cases hl : (es.take k).getLast? with
  | none => exact le_rfl
  | some x => exact (h x ((List.take_sublist _ _).subset (List.mem_of_getLast? hl))).le

/-- **Each event is on one page**, in order. -/
theorem readPages_eq (h : Good E s) {limit : Number} (n : ℕ) :
    readPages s limit n 0 = s.events.take (n * boundedLimit limit) := by
  -- from any cursor: what is behind it, page by page
  have hfrom : ∀ n cursor, readPages s limit n cursor =
      (s.events.filter fun e => decide (cursor < e.seq)).take (n * boundedLimit limit) := by
    intro n
    induction n with
    | zero =>
      intro cursor
      rw [Nat.zero_mul, List.take_zero]
      rfl
    | succ n ih =>
      intro cursor
      have hbehind := @filter_behind _ ((pairwise_of_numbered h.numbered.2).filter fun e => decide (cursor < e.seq)) cursor
        (boundedLimit limit) (fun e he => of_decide_eq_true (List.mem_filter.1 he).2)
      have hnext : s.events.filter (fun e => decide ((((s.events.filter fun e => decide (cursor < e.seq)).take
          (boundedLimit limit)).getLast?.map (·.seq)).getD cursor < e.seq)) =
            (s.events.filter fun e => decide (cursor < e.seq)).drop (boundedLimit limit) := by
        rw [← hbehind, List.filter_filter]
        refine List.filter_congr fun e _ => ?_
        have hle := le_nextCursor (s.events.filter fun e => decide (cursor < e.seq)) (boundedLimit limit)
          (fun e he => of_decide_eq_true (List.mem_filter.1 he).2)
        rw [← Bool.decide_and, decide_eq_decide]
        omega
      rw [readPages, ih]
      unfold Tracker.snapshot
      simp only [cursorOf_natCast]
      rw [hnext, Nat.succ_mul, Nat.add_comm, List.take_add]
  have hall : s.events.filter (fun e => decide (0 < e.seq)) = s.events :=
    List.filter_eq_self.2 fun e he => decide_eq_true (h.stable e he).seq_pos
  rw [hfrom, hall]

end Stored

/-! ## Every run -/

/-- **Stored progress reads back**, in every run that numbers fewer than 2^53 events. -/
theorem stored_progress_reads_back (E : Engine) (provider : String) (outputFormat : Option String) (startedAt : Date)
    (capabilityOverride : Option JobProgressCapability) (calls : List Call) (hfree : ∀ c ∈ calls, c.NulFree)
    (hexact : ((Tracker.create provider outputFormat none startedAt.toISOString capabilityOverride).run E calls).lastSeq < safe) :
    let s := (Tracker.create provider outputFormat none startedAt.toISOString capabilityOverride).run E calls
    parseStoredJobProgress E (some (s.serialize E)) = some s.stored ∧
      (∀ provider' outputFormat' startedAt' capabilityOverride',
        let r := Tracker.create provider' outputFormat' (some s.stored) startedAt' capabilityOverride'
        (∀ cursor limit, r.snapshot cursor limit = s.snapshot cursor limit) ∧ r.serialize E = s.serialize E) ∧
      s.events.length ≤ MAX_EVENTS ∧ totalBytes E s.events ≤ MAX_EVENTS_BYTES ∧
      s.events.map (·.seq) = List.range' (s.lastSeq + 1 - s.events.length) s.events.length ∧
      (s.events.getLast?.map (·.seq)).getD 0 = s.lastSeq ∧
      ∀ limit, limit ≠ .nan → 1 ≤ boundedLimit limit ∧ ∀ n, readPages s limit n 0 = s.events.take (n * boundedLimit limit) := by
  intro s
  have hinv : Inv E s := Tracker.inv_run (Tracker.inv_create provider outputFormat startedAt capabilityOverride) hfree
  have hgood : Good E s := hinv.2 hexact
  exact ⟨parse_serialize hgood hinv.1, create_stored hgood, hgood.held.1, hgood.held.2, hgood.numbered.2, hgood.last,
    fun limit hlimit => ⟨boundedLimit_pos hlimit, readPages_eq hgood⟩⟩

section Examples

def queued : Emission := ⟨.queued, .lifecycle, text "Job queued", .gateway, epoch⟩

def fresh : Tracker := .create "claude" none none epoch.toISOString none

def started : Emission := ⟨.starting, .lifecycle, text "Job started", .gateway, epoch⟩

/-- A job that is queued, starts, and writes a line: what is stored, a page of another tracker, and two pages in a row. -/
theorem queued_job_reads_back :
    let s := fresh.run isoEngine [.emit queued, .emit started, .ingest .stdout [123, 125, 10] epoch]
    parseStoredJobProgress isoEngine (some (s.serialize isoEngine)) = some s.stored ∧
      (Tracker.create "codex" none (some s.stored) [] none).snapshot (.finite 1) (.finite 1) = s.snapshot (.finite 1) (.finite 1) ∧
      s.events.map (·.seq) = [1, 2, 3] ∧ readPages s (.finite 2) 2 0 = s.events := by
  intro s
  obtain ⟨hsafe, hseqs⟩ : s.lastSeq < safe ∧ s.events.map (·.seq) = [1, 2, 3] := by decide +kernel
  have hfree : ∀ c ∈ [Call.emit queued, .emit started, .ingest .stdout [123, 125, 10] epoch], c.NulFree := by
    intro c hc
    simp only [List.mem_cons, List.not_mem_nil, or_false] at hc
    rcases hc with rfl | rfl | rfl
    · show (0 : UInt16) ∉ text "Job queued"
      decide
    · show (0 : UInt16) ∉ text "Job started"
      decide
    · trivial
  obtain ⟨hread, hcreate, -, -, -, -, hpages⟩ :=
    stored_progress_reads_back isoEngine "claude" none epoch none _ hfree hsafe
  refine ⟨hread, (hcreate "codex" none [] none).1 _ _, hseqs, ?_⟩
  have hlength : s.events.length = 3 := by simpa using congrArg List.length hseqs
  have hbounded : boundedLimit (.finite 2) = 2 := by decide +kernel
  have hshort : s.events.length ≤ 2 * boundedLimit (.finite 2) := by
    rw [hbounded, hlength]
    decide
  exact ((hpages (.finite 2) (by simp)).2 2).trans (List.take_of_length_le hshort)

theorem queued_not_merged (s : Tracker) : s.merged E queued = none := by
  unfold Tracker.merged
  rw [Option.filter_eq_none_iff]
  intro previous _
  simp [queued, coalescible]

theorem not_mem_queued : (0 : UInt16) ∉ queued.message := by decide

/-- So many emissions, none of them merged. -/
theorem good_replicate (n : ℕ) (hn : n ≤ safe) :
    Good E (fresh.emitAll E (List.replicate n queued)) ∧ (fresh.emitAll E (List.replicate n queued)).lastSeq = n := by
  induction n with
  | zero => exact ⟨(Tracker.inv_create "claude" none epoch none).2 (by decide), rfl⟩
  | succ n ih =>
    obtain ⟨hgood, hseq⟩ := ih (by omega)
    have hlast : (fresh.emitAll E (List.replicate n queued)).lastSeq < safe := by omega
    obtain ⟨k, -, hemit, -, -⟩ := Tracker.emit_new hlast not_mem_queued (queued_not_merged (E := E) _)
    have hsucc : fresh.emitAll E (List.replicate (n + 1) queued) = ((fresh.emitAll E (List.replicate n queued)).emit E queued).2 := by
      rw [List.replicate_succ', Tracker.emitAll, List.foldl_append]
      rfl
    rw [hsucc]
    refine ⟨Tracker.good_emit hgood hlast not_mem_queued, ?_⟩
    rw [hemit, hseq]

theorem outOfOrder_append {es : List JobProgressEvent} {x y : JobProgressEvent} (h : y.seq ≤ x.seq) :
    outOfOrder (es ++ [x, y]) = true := by
  induction es with
  | nil => simp [outOfOrder, h]
  | cons e es ih =>
    cases es with
    | nil =>
      rw [List.nil_append] at ih
      show (decide (x.seq ≤ e.seq) || outOfOrder [x, y]) = true
      rw [ih, Bool.or_true]
    | cons e' es =>
      rw [List.cons_append] at ih
      rw [List.cons_append, List.cons_append, outOfOrder, ih, Bool.or_true]

/-- One event more than there are exact numbers. -/
theorem emit_at_safe {s : Tracker} (h : Good E s) (hseq : s.lastSeq = safe) : ∃ front x, s.events = front ++ [x] ∧ x.seq = safe ∧
    ∃ k, Held E (front.drop k ++ [x, s.newEvent queued]) ∧ ∃ dropped ≤ safe, (s.emit E queued).2 = { s with
      lastActivityAt := epoch.toISOString, lastSeq := safe, events := front.drop k ++ [x, s.newEvent queued],
      droppedCount := dropped } := by
  have hlast := h.last
  rw [hseq] at hlast
  cases hx : s.events.getLast? with
  | none =>
    rw [hx] at hlast
    exact absurd hlast (by decide)
  | some x =>
    rw [hx] at hlast
    obtain ⟨front, hevents⟩ := List.getLast?_eq_some_iff.1 hx
    refine ⟨front, x, hevents, hlast, ?_⟩
    have hxbytes := (h.stable x (by rw [hevents]; exact List.mem_append_right _ List.mem_cons_self)).eventBytes_le (E := E)
    have hnew : (s.newEvent queued).seq = safe := by
      show increment s.lastSeq = safe
      rw [hseq, increment_safe]
    have hbytes : eventBytes E (s.newEvent queued) ≤ 4096 :=
      eventBytes_le hnew.le (length_toISOString epoch)
        (byteLength_projectEventMessage queued.kind queued.source queued.message)
    obtain ⟨k, -, hprune, hheld, hleast⟩ := prune_spec (E := E) s.droppedCount (s.events ++ [s.newEvent queued])
    have hsplit : s.events ++ [s.newEvent queued] = front ++ [x, s.newEvent queued] := by
      rw [hevents, List.append_assoc]
      rfl
    -- the last two events by themselves are within the limits
    have hk : k ≤ front.length := by
      apply hleast
      rw [hsplit, List.drop_left]
      constructor
      · show 2 ≤ 64
        omega
      · show eventBytes E x + (eventBytes E (s.newEvent queued) + 0) ≤ 32 * 1024
        omega
    rw [hsplit, List.drop_append_of_le_length hk] at hprune hheld
    refine ⟨k, hheld, _, increment_iterate_le h.droppedCount_safe k, ?_⟩
    unfold Tracker.emit
    rw [queued_not_merged]
    simp only [hsplit, hprune, hnew]
    rfl

theorem run_replicate (s : Tracker) (n : ℕ) (e : Emission) :
    s.run E (List.replicate n (.emit e)) = s.emitAll E (List.replicate n e) := by
  induction n generalizing s with
  | zero => rfl
  | succ n ih => exact ih _

theorem run_replicate_succ (s : Tracker) (n : ℕ) (e : Emission) :
    s.run E (List.replicate (n + 1) (.emit e)) = ((s.emitAll E (List.replicate n e)).emit E e).2 := by
  rw [run_replicate, List.replicate_succ', Tracker.emitAll, List.foldl_append]
  rfl

theorem refused_at_safe {s : Tracker} (h : Good E s) (hseq : s.lastSeq = safe) :
    (∃ front x y, (s.emit E queued).2.events = front ++ [x, y] ∧ x.seq = y.seq) ∧
      parseStoredJobProgress E (some ((s.emit E queued).2.serialize E)) = none := by
  obtain ⟨front, x, hevents, hx, k, hheld, dropped, hdropped, hemit⟩ := emit_at_safe h hseq
  have hnew : (s.newEvent queued).seq = safe := by
    show increment s.lastSeq = safe
    rw [hseq, increment_safe]
  have hdate : (E.dateParse epoch.toISOString).isSome := by
    rw [Date.toISOString, E.dateParse_isoText epoch.time epoch.valid]
    rfl
  have hstorable : ∀ e ∈ front.drop k ++ [x, s.newEvent queued], Storable E e := by
    intro e he
    rcases List.mem_append.1 he with he | he
    · exact (h.stable e (by rw [hevents]; exact List.mem_append_left _ ((List.drop_sublist _ _).subset he))).storable
    · rcases List.mem_cons.1 he with rfl | he
      · exact (h.stable e (by rw [hevents]; exact List.mem_append_right _ List.mem_cons_self)).storable
      · rw [List.mem_singleton.1 he]
        have hmessage : (0 : UInt16) ∉ projectEventMessage queued.kind queued.source queued.message :=
          not_mem_projectEventMessage _ _ not_mem_queued
        exact ⟨by rw [hnew]; exact Nat.two_pow_pos 53, hnew.le, hdate, hmessage,
          byteLength_projectEventMessage queued.kind queued.source queued.message⟩
  rw [hemit]
  refine ⟨⟨_, x, _, rfl, hx.trans hnew.symm⟩, ?_⟩
  generalize ht : ({ s with
    lastActivityAt := epoch.toISOString, lastSeq := safe, events := front.drop k ++ [x, s.newEvent queued],
    droppedCount := dropped } : Tracker) = t
  have hstored : t.stored = ⟨t.capability, t.lastActivityAt, t.lastSeq, t.droppedCount, t.events⟩ := by
    subst ht
    exact stored_of_pos (fun e he => (hstorable e he).seq_pos) hheld.1
  have hstate : StorableState E t.stored := by
    rw [hstored]
    subst ht
    exact ⟨hdate, le_rfl, hdropped, hstorable⟩
  have hrefused : Refused E t.stored := by
    rw [hstored]
    subst ht
    exact .inr (.inl (outOfOrder_append (hnew.trans hx.symm).le))
  unfold parseStoredJobProgress
  simp only
  split
  · rfl
  · split
    · rfl
    · rw [Tracker.serialize, parseState_stringify hstate, if_pos hrefused]

/-- Where `++` no longer counts, a number comes twice, and the stored text is not read back. -/
theorem number_comes_twice :
    (∃ front x y, (fresh.run isoEngine (List.replicate (safe + 1) (.emit queued))).events = front ++ [x, y] ∧ x.seq = y.seq) ∧
      parseStoredJobProgress isoEngine
        (some ((fresh.run isoEngine (List.replicate (safe + 1) (.emit queued))).serialize isoEngine)) = none := by
  obtain ⟨hgood, hseq⟩ := good_replicate (E := isoEngine) safe le_rfl
  rw [run_replicate_succ]
  exact refused_at_safe hgood hseq

end Examples

end LlmGateway.Progress
