import LlmGateway.Lib.IsoTime
import LlmGateway.Lib.Utf8
import LlmGateway.Progress.Signals

/-!
# The progress of a job

* `Engine` — what the language leaves to its engine or to tables: lower case, the text of a number, `Date.parse`;
* `safeMessage`, `projectEventMessage` — the message of an event, on one line and at most 512 bytes long;
* `emit` — a new event, or the one before it if they are less than a second apart; `prune` — the oldest events go.
-/

namespace LlmGateway.Progress

open Lib Lib.Utf16 Lib.JsNumber Lib.IsoTime

structure Engine where
  lower : LowerCase
  numbers : JsValue.NumberText
  dateParse : Text → Option ℤ
  dateParse_isoText : ∀ t, |t| ≤ maxTime → dateParse (text (isoText t)) = some t

/-! ### An engine that knows ASCII and the ISO format -/

/-- The characters of a text without surrogates. -/
def characters (s : Text) : String := String.ofList (s.map fun u => Char.ofNat u.toNat)

theorem characters_text {cs : List Char} (h : ∀ c ∈ cs, c.toNat < 0x10000) : characters (text (String.ofList cs)) = String.ofList cs := by
  unfold characters text
  rw [String.toList_ofList, List.map_map]
  congr 1
  conv_rhs => rw [← List.map_id cs]
  refine List.map_congr_left fun c hc => ?_
  have hc := h c hc
  simp [Nat.mod_eq_of_lt hc]

theorem small_digits {w n : ℕ} (h : n < 10 ^ w) : ∀ c ∈ digits w n, c.toNat < 0x10000 := by
  induction w generalizing n with
  | zero => exact fun c hc => absurd hc List.not_mem_nil
  | succ w ih =>
    have hp : 0 < 10 ^ w := Nat.pow_pos (by omega)
    have hdigit : ∀ a < 10, (digitChar a).toNat < 0x10000 := by decide
    have hlt : n / 10 ^ w < 10 := by
      rw [Nat.div_lt_iff_lt_mul hp, ← Nat.pow_succ']
      exact h
    intro c hc
    rcases List.mem_cons.1 hc with rfl | hc
    · exact hdigit _ hlt
    · exact ih (Nat.mod_lt n hp) c hc

theorem small_isoChars {t : ℤ} (ht : |t| ≤ maxTime) : ∀ c ∈ isoChars t, c.toNat < 0x10000 := by
  have hrange := abs_le.1 ht
  unfold maxTime at hrange
  have hbounds := civil_bounds (t / 86400000)
  have hlower := civil_year_gt (t / 86400000) (by omega)
  have hupper := civil_year_lt (t / 86400000) (by omega)
  have hclock : (t % 86400000).toNat < 86400000 := by omega
  have hyear : ∀ c ∈ yearText (civil (t / 86400000)).year, c.toNat < 0x10000 := by
    intro c hc
    unfold yearText at hc
    split at hc
    · exact small_digits (by omega) c hc
    · rcases List.mem_cons.1 hc with rfl | hc
      · split <;> decide
      · exact small_digits (by omega) c hc
  intro c hc
  simp only [isoChars, dateText, clockText, List.mem_append, List.mem_cons, List.not_mem_nil, or_false] at hc
  rcases hc with hc | rfl | hc | rfl | hc | rfl | hc | rfl | hc | rfl | hc | rfl | hc | rfl
  · exact hyear c hc
  · decide
  · exact small_digits (by omega) c hc
  · decide
  · exact small_digits (by omega) c hc
  · decide
  · exact small_digits (by omega) c hc
  · decide
  · exact small_digits (by omega) c hc
  · decide
  · exact small_digits (by omega) c hc
  · decide
  · exact small_digits (by omega) c hc
  · decide

def isoEngine : Engine where
  lower := asciiLowerCase
  numbers := ⟨fun _ => []⟩
  dateParse s := readIso (characters s)
  dateParse_isoText t ht := by
    have hchars : characters (text (isoText t)) = isoText t := characters_text (small_isoChars ht)
    rw [hchars]
    exact readIso_of_toISOString (if_pos ht)

/-- A valid date. -/
structure Date where
  time : ℤ
  valid : |time| ≤ maxTime

def Date.toISOString (at' : Date) : Text := text (isoText at'.time)

inductive Source where
  | gateway | provider
deriving DecidableEq, Repr

inductive JobProgressCapability where
  | structured | activityOnly | lifecycleOnly
deriving DecidableEq, Repr

structure JobProgressEvent where
  seq : ℕ
  ts : Text
  phase : JobProgressPhase
  kind : JobProgressKind
  message : Text
  source : Source
deriving DecidableEq

def MAX_EVENT_MESSAGE_BYTES : ℕ := 512
def MAX_EVENTS : ℕ := 64
def MAX_EVENTS_BYTES : ℕ := 32 * 1024
def MAX_STORED_PROGRESS_BYTES : ℕ := MAX_EVENTS_BYTES + 8 * 1024
def MAX_PARTIAL_LINE_BYTES : ℕ := 64 * 1024
def COALESCE_WINDOW_MS : ℤ := 1000

/-! ## Messages -/

/-- `value.slice(0, end)` with the greatest `end` up to `n` that leaves three of `max` bytes. -/
def cut (value : Text) (max : ℕ) : ℕ → ℕ
  | 0 => 0
  | n + 1 => if max - 3 < byteLength (value.take (n + 1)) then cut value max n else n + 1

def truncateUtf8 (value : Text) (max : ℕ) : Text :=
  if byteLength value ≤ max then value else value.take (cut value max value.length) ++ text "..."

def isBreak (u : UInt16) : Bool := u == 13 || u == 10 || u == 9

/-- `value.replace(/[\r\n\t]+/g, " ")` -/
def joinBreaks : Text → Text
  | [] => []
  | u :: s => if isBreak u then if s.head?.any isBreak then joinBreaks s else 32 :: joinBreaks s else u :: joinBreaks s

/-- `value.replace(/\s{2,}/g, " ")`; `run` says that white space is in front. -/
def joinSpaces (run : Bool) : Text → Text
  | [] => []
  | u :: s =>
    if isSpace u then
      if s.head?.any isSpace then joinSpaces true s else (if run then 32 else u) :: joinSpaces false s
    else u :: joinSpaces false s

def normalize (value : Text) : Text := trim (joinSpaces false (joinBreaks value))

def safeMessage (value : Text) : Text :=
  truncateUtf8 (if normalize value = [] then text "Provider activity" else normalize value) MAX_EVENT_MESSAGE_BYTES

def projectEventMessage (kind : JobProgressKind) (source : Source) (value : Text) : Text :=
  if source = .provider ∧ kind = .toolStart then text "Using a provider tool" else safeMessage value

/-! ## Events as values -/

def JobProgressPhase.name : JobProgressPhase → String
  | queued => "queued"
  | starting => "starting"
  | thinking => "thinking"
  | tool => "tool"
  | writing => "writing"
  | completed => "completed"
  | failed => "failed"

def JobProgressKind.name : JobProgressKind → String
  | lifecycle => "lifecycle"
  | reasoning => "reasoning"
  | toolStart => "tool_start"
  | toolError => "tool_error"
  | output => "output"
  | terminal => "terminal"
  | activity => "activity"

def Source.name : Source → String
  | gateway => "gateway"
  | provider => "provider"

def JobProgressCapability.name : JobProgressCapability → String
  | structured => "structured"
  | activityOnly => "activity_only"
  | lifecycleOnly => "lifecycle_only"

/-- The members of an event, in the order `emit` gives them. -/
def JobProgressEvent.toValue (e : JobProgressEvent) : JsValue :=
  .object [(text "seq", .number (.finite e.seq)), (text "ts", .string e.ts), (text "phase", .string (text e.phase.name)),
    (text "kind", .string (text e.kind.name)), (text "message", .string e.message), (text "source", .string (text e.source.name))]

variable (E : Engine)

def eventBytes (e : JobProgressEvent) : ℕ := byteLength (JsValue.stringify E.numbers e.toValue)

def totalBytes (events : List JobProgressEvent) : ℕ := (events.map (eventBytes E)).sum

/-! ## The tracker -/

structure Tracker where
  provider : String
  capability : JobProgressCapability
  stdoutDecoder : Option Utf8.Pending
  stdoutCarry : Text
  events : List JobProgressEvent
  lastSeq : ℕ
  droppedCount : ℕ
  lastActivityAt : Text
deriving DecidableEq

/-- The oldest events go until the rest is small enough: what is left, and the new count. -/
def prune (total dropped : ℕ) : List JobProgressEvent → List JobProgressEvent × ℕ
  | [] => ([], dropped)
  | e :: es =>
    if MAX_EVENTS < (e :: es).length ∨ MAX_EVENTS_BYTES < total then prune (total - eventBytes E e) (increment dropped) es
    else (e :: es, dropped)

def coalescible (kind : JobProgressKind) : Bool := kind == .activity || kind == .output || kind == .reasoning

/-- What is emitted. -/
structure Emission where
  phase : JobProgressPhase
  kind : JobProgressKind
  message : Text
  source : Source
  at' : Date

structure StoredJobProgress where
  capability : JobProgressCapability
  lastActivityAt : Text
  lastSeq : ℕ
  droppedCount : ℕ
  events : List JobProgressEvent
deriving DecidableEq

namespace Tracker

/-- `new JobProgressTracker(provider, outputFormat, stored, startedAt, capabilityOverride)` -/
def create (provider : String) (outputFormat : Option String) (stored : Option StoredJobProgress) (startedAt : Text)
    (capabilityOverride : Option JobProgressCapability) : Tracker where
  provider := provider
  capability := ((stored.map (·.capability)).or capabilityOverride).getD
    (if structuredCapability provider outputFormat then .structured else .activityOnly)
  stdoutDecoder := none
  stdoutCarry := []
  events := (stored.map (·.events)).getD []
  lastSeq := (stored.map (·.lastSeq)).getD 0
  droppedCount := (stored.map (·.droppedCount)).getD 0
  lastActivityAt := (stored.map (·.lastActivityAt)).getD startedAt

/-- The event an emission is merged into. -/
def merged (s : Tracker) (e : Emission) : Option JobProgressEvent :=
  s.events.getLast?.filter fun previous =>
    coalescible e.kind && previous.kind == e.kind && previous.phase == e.phase && previous.source == e.source &&
      (E.dateParse previous.ts).any fun t => decide (e.at'.time - t < COALESCE_WINDOW_MS)

def newEvent (s : Tracker) (e : Emission) : JobProgressEvent where
  seq := increment s.lastSeq
  ts := e.at'.toISOString
  phase := e.phase
  kind := e.kind
  message := projectEventMessage e.kind e.source e.message
  source := e.source

/-- `emit(phase, kind, message, source, at)`: the event, and the tracker. -/
def emit (s : Tracker) (e : Emission) : JobProgressEvent × Tracker :=
  match s.merged E e with
  | some previous => (previous, { s with lastActivityAt := e.at'.toISOString })
  | none =>
    let event := s.newEvent e
    let events := s.events ++ [event]
    let pruned := prune E (totalBytes E events) s.droppedCount events
    (event, { s with
      lastActivityAt := e.at'.toISOString, lastSeq := event.seq, events := pruned.1, droppedCount := pruned.2 })

def emitAll (s : Tracker) (es : List Emission) : Tracker := es.foldl (fun s e => (s.emit E e).2) s

end Tracker

/-- `text.split("\n")`: the lines that are complete, and the last one. -/
def cutLines : Text → List Text × Text
  | [] => ([], [])
  | u :: s =>
    if u = 10 then ([] :: (cutLines s).1, (cutLines s).2)
    else
      match (cutLines s).1 with
      | [] => ([], u :: (cutLines s).2)
      | l :: ls => ((u :: l) :: ls, (cutLines s).2)

inductive Stream where
  | stdout | stderr
deriving DecidableEq

/-- Activity of which nothing else is known. -/
def activity (at' : Date) : Emission := ⟨.thinking, .activity, text "Provider process is active", .provider, at'⟩

namespace Tracker

/-- The signals of the lines. -/
def signalsOf (s : Tracker) (lines : List Text) : List ProgressSignal :=
  lines.filterMap fun line => structuredSignal E.lower s.provider (trim line)

/-- `ingest` as far as its calls of `emit`, and these calls. -/
def readChunk (s : Tracker) (stream : Stream) (chunk : List UInt8) (at' : Date) : Tracker × List Emission :=
  let s := { s with lastActivityAt := at'.toISOString }
  if stream ≠ .stdout ∨ s.capability ≠ .structured then (s, [activity at'])
  else
    let written := Utf8.write s.stdoutDecoder chunk
    let carry := s.stdoutCarry ++ written.1
    if MAX_PARTIAL_LINE_BYTES < byteLength carry then
      ({ s with stdoutCarry := [], stdoutDecoder := none, droppedCount := increment s.droppedCount }, [activity at'])
    else
      let lines := cutLines carry
      let signals := s.signalsOf E lines.1
      ({ s with stdoutCarry := lines.2, stdoutDecoder := written.2 },
        if signals = [] then [activity at'] else signals.map fun x => ⟨x.phase, x.kind, x.message, .provider, at'⟩)

/-- `ingest(stream, chunk, at)` -/
def ingest (s : Tracker) (stream : Stream) (chunk : List UInt8) (at' : Date) : Tracker :=
  (s.readChunk E stream chunk at').1.emitAll E (s.readChunk E stream chunk at').2

end Tracker

/-! ## Pages -/

structure JobProgressSnapshot where
  capability : JobProgressCapability
  lastActivityAt : Text
  lastSeq : ℕ
  highWaterSeq : ℕ
  nextAfterSeq : ℕ
  hasMore : Bool
  droppedCount : ℕ
  events : List JobProgressEvent
deriving DecidableEq

/-- `Math.max(1, Math.min(MAX_EVENTS, Math.floor(limit)))`, as the end of a slice: not a number ends it at once. -/
def boundedLimit : Number → ℕ
  | .nan => 0
  | .infinite negative => if negative then 1 else MAX_EVENTS
  | .finite q => (max 1 (min (MAX_EVENTS : ℤ) ⌊q⌋)).toNat

/-- `Number.isFinite(afterSeq) ? Math.max(0, Math.floor(afterSeq)) : 0` -/
def cursorOf : Number → ℕ
  | .finite q => ⌊q⌋.toNat
  | _ => 0

def Tracker.snapshot (s : Tracker) (afterSeq limit : Number) : JobProgressSnapshot :=
  let matching := s.events.filter fun e => decide (cursorOf afterSeq < e.seq)
  let events := matching.take (boundedLimit limit)
  { capability := s.capability
    lastActivityAt := s.lastActivityAt
    lastSeq := s.lastSeq
    highWaterSeq := s.lastSeq
    nextAfterSeq := (events.getLast?.map (·.seq)).getD (cursorOf afterSeq)
    hasMore := decide (events.length < matching.length)
    droppedCount := s.droppedCount
    events := events }

/-! ## Runs -/

inductive Call where
  | emit (e : Emission)
  | ingest (stream : Stream) (chunk : List UInt8) (at' : Date)

namespace Tracker

def step (s : Tracker) : Call → Tracker
  | .emit e => (s.emit E e).2
  | .ingest stream chunk at' => s.ingest E stream chunk at'

def run (s : Tracker) (calls : List Call) : Tracker := calls.foldl (step E) s

/-- What the calls of `ingest` emit. -/
def emissions (s : Tracker) : List Call → List Emission
  | [] => []
  | .emit e :: calls => emissions (s.step E (.emit e)) calls
  | .ingest stream chunk at' :: calls =>
    (s.readChunk E stream chunk at').2 ++ emissions (s.step E (.ingest stream chunk at')) calls

end Tracker

end LlmGateway.Progress
