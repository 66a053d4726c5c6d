import LlmGateway.Progress.Tracker

/-!
# The stored form of a job's progress

* `serialize` — the JSON text of all events that are in use;
* `parseStoredJobProgress` — such a text read back: every check on it, and its messages projected once more.
-/

namespace LlmGateway.Progress

open Lib Lib.Utf16 Lib.JsNumber Lib.JsValue

/-! ## Checks of single values -/

def textOf : Option JsValue → Option Text
  | some (.string t) => some t
  | _ => none

/-- `Number.isInteger(value)`, and `value` is not negative. -/
def wholeOf : Option JsValue → Option ℕ
  | some (.number (.finite q)) => if q.den = 1 ∧ 0 ≤ q.num then some q.num.toNat else none
  | _ => none

def itemsOf : Option JsValue → Option (List JsValue)
  | some (.array vs) => some vs
  | _ => none

/-- `all.includes(value)` -/
def named {α : Type*} (name : α → String) (all : List α) (value : Option JsValue) : Option α :=
  all.find? fun a => isText (name a) value

def PROGRESS_PHASES : List JobProgressPhase := [.queued, .starting, .thinking, .tool, .writing, .completed, .failed]

def PROGRESS_KINDS : List JobProgressKind := [.lifecycle, .reasoning, .toolStart, .toolError, .output, .terminal, .activity]

def CAPABILITIES : List JobProgressCapability := [.structured, .activityOnly, .lifecycleOnly]

def SOURCES : List Source := [.gateway, .provider]

variable (E : Engine)

/-- A text that `Date.parse` can read. -/
def dateOf (value : Option JsValue) : Option Text := (textOf value).filter fun ts => (E.dateParse ts).isSome

/-- `isProgressEvent(value)`, and the event. -/
def progressEvent (value : JsValue) : Option JobProgressEvent := do
  let event ← objectRecord value
  let seq ← (wholeOf (get "seq" event)).filter fun n => decide (0 < n)
  let ts ← dateOf E (get "ts" event)
  let phase ← named JobProgressPhase.name PROGRESS_PHASES (get "phase" event)
  let kind ← named JobProgressKind.name PROGRESS_KINDS (get "kind" event)
  let message ← (textOf (get "message" event)).filter fun m => decide ((0 : UInt16) ∉ m ∧ byteLength m ≤ MAX_EVENT_MESSAGE_BYTES)
  let source ← named Source.name SOURCES (get "source" event)
  some ⟨seq, ts, phase, kind, message, source⟩

/-! ## The stored text -/

/-- An event does not have a greater number than the one before it. -/
def outOfOrder : List JobProgressEvent → Bool
  | e :: e' :: es => decide (e'.seq ≤ e.seq) || outOfOrder (e' :: es)
  | _ => false

def JobProgressEvent.projected (e : JobProgressEvent) : JobProgressEvent :=
  { e with message := projectEventMessage e.kind e.source e.message }

/-- `parseStoredJobProgress(value)`, for a value that is not empty. -/
def parseState (s : Text) : Option StoredJobProgress := do
  let state ← (JsValue.parse s).bind objectRecord
  let _ ← (wholeOf (get "version" state)).filter fun n => decide (n = 1)
  let capability ← named JobProgressCapability.name CAPABILITIES (get "capability" state)
  let lastActivityAt ← dateOf E (get "lastActivityAt" state)
  let lastSeq ← wholeOf (get "lastSeq" state)
  let droppedCount ← wholeOf (get "droppedCount" state)
  let values ← itemsOf (get "events" state)
  let events ← values.mapM (progressEvent E)
  if MAX_EVENTS < values.length ∨ outOfOrder events = true ∨ lastSeq < (events.getLast?.map (·.seq)).getD 0 ∨
      MAX_EVENTS_BYTES < (values.map fun v => byteLength (stringify E.numbers v)).sum then none
  else some ⟨capability, lastActivityAt, lastSeq, droppedCount, events.map (·.projected)⟩

def parseStoredJobProgress : Option Text → Option StoredJobProgress
  | none => none
  | some s => if s = [] then none else if MAX_STORED_PROGRESS_BYTES < byteLength s then none else parseState E s

def StoredJobProgress.toValue (p : StoredJobProgress) : JsValue :=
  .object [(text "version", .number (.finite 1)), (text "capability", .string (text p.capability.name)),
    (text "lastActivityAt", .string p.lastActivityAt), (text "lastSeq", .number (.finite p.lastSeq)),
    (text "droppedCount", .number (.finite p.droppedCount)), (text "events", .array (p.events.map (·.toValue)))]

/-- The state of a tracker that is stored. -/
def Tracker.stored (s : Tracker) : StoredJobProgress :=
  let snapshot := s.snapshot (.finite 0) (.finite MAX_EVENTS)
  ⟨snapshot.capability, snapshot.lastActivityAt, snapshot.lastSeq, snapshot.droppedCount, snapshot.events⟩

def Tracker.serialize (s : Tracker) : Text := stringify E.numbers s.stored.toValue

/-! ## Reading back -/

variable {E}

@[simp] theorem wholeOf_natCast (n : ℕ) : wholeOf (some (.number (.finite n))) = some n := by simp [wholeOf]

theorem named_phase (p : JobProgressPhase) : named JobProgressPhase.name PROGRESS_PHASES (some (.string (text p.name))) = some p := by
  cases p <;> decide

theorem named_kind (k : JobProgressKind) : named JobProgressKind.name PROGRESS_KINDS (some (.string (text k.name))) = some k := by
  cases k <;> decide

theorem named_source (s : Source) : named Source.name SOURCES (some (.string (text s.name))) = some s := by
  cases s <;> decide

theorem named_capability (c : JobProgressCapability) :
    named JobProgressCapability.name CAPABILITIES (some (.string (text c.name))) = some c := by
  cases c <;> decide

/-- What the checks ask of an event. -/
structure Storable (E : Engine) (e : JobProgressEvent) : Prop where
  seq_pos : 0 < e.seq
  seq_safe : e.seq ≤ safe
  dated : (E.dateParse e.ts).isSome
  message : (0 : UInt16) ∉ e.message ∧ byteLength e.message ≤ MAX_EVENT_MESSAGE_BYTES

theorem plain_event {e : JobProgressEvent} (h : e.seq ≤ safe) : Plain e.toValue := by
  have hnames : ([text "seq", text "ts", text "phase", text "kind", text "message", text "source"] : List Text).Nodup := by
    decide
  exact ⟨hnames, ⟨_, h, rfl⟩, trivial, trivial, trivial, trivial, trivial, trivial⟩

theorem progressEvent_toValue {e : JobProgressEvent} (h : Storable E e) : progressEvent E e.toValue = some e := by
  have hseq : (wholeOf (some (.number (.finite e.seq)))).filter (fun n => decide (0 < n)) = some e.seq := by
    simp [h.seq_pos]
  have hdate : dateOf E (some (.string e.ts)) = some e.ts := by
    simp [dateOf, textOf, Option.filter, h.dated]
  have hmessage : (textOf (some (.string e.message))).filter
      (fun m => decide ((0 : UInt16) ∉ m ∧ byteLength m ≤ MAX_EVENT_MESSAGE_BYTES)) = some e.message := by
    simp [textOf, Option.filter, h.message]
  show (((wholeOf (some (.number (.finite e.seq)))).filter fun n => decide (0 < n)).bind fun seq =>
    (dateOf E (some (.string e.ts))).bind fun ts =>
    (named JobProgressPhase.name PROGRESS_PHASES (some (.string (text e.phase.name)))).bind fun phase =>
    (named JobProgressKind.name PROGRESS_KINDS (some (.string (text e.kind.name)))).bind fun kind =>
    ((textOf (some (.string e.message))).filter
      fun m => decide ((0 : UInt16) ∉ m ∧ byteLength m ≤ MAX_EVENT_MESSAGE_BYTES)).bind fun message =>
    (named Source.name SOURCES (some (.string (text e.source.name)))).bind fun source =>
    some (⟨seq, ts, phase, kind, message, source⟩ : JobProgressEvent)) = some e
  rw [hseq, hdate, named_phase, named_kind, hmessage, named_source]
  rfl

/-- What the checks ask of the rest. -/
structure StorableState (E : Engine) (p : StoredJobProgress) : Prop where
  dated : (E.dateParse p.lastActivityAt).isSome
  lastSeq_safe : p.lastSeq ≤ safe
  droppedCount_safe : p.droppedCount ≤ safe
  events : ∀ e ∈ p.events, Storable E e

theorem plain_stored {p : StoredJobProgress} (h : StorableState E p) : Plain p.toValue := by
  have hnames : ([text "version", text "capability", text "lastActivityAt", text "lastSeq", text "droppedCount",
      text "events"] : List Text).Nodup := by decide
  refine ⟨hnames, ⟨1, by decide, by norm_num⟩, trivial, trivial, ⟨_, h.lastSeq_safe, rfl⟩, ⟨_, h.droppedCount_safe, rfl⟩, ?_,
    trivial⟩
  rw [Plain, plainItems_iff]
  intro v hv
  obtain ⟨e, he, rfl⟩ := List.mem_map.1 hv
  exact plain_event (h.events e he).seq_safe

theorem mapM_progressEvent {es : List JobProgressEvent} (h : ∀ e ∈ es, Storable E e) :
    (es.map (·.toValue)).mapM (progressEvent E) = some es := by
  induction es with
  | nil => rfl
  | cons e es ih =>
    rw [List.map_cons, List.mapM_cons, progressEvent_toValue (h e List.mem_cons_self),
      ih fun x hx => h x (List.mem_cons_of_mem _ hx)]
    rfl

/-- The limits on the events as a whole. -/
def Refused (E : Engine) (p : StoredJobProgress) : Prop :=
  MAX_EVENTS < p.events.length ∨ outOfOrder p.events = true ∨ p.lastSeq < (p.events.getLast?.map (·.seq)).getD 0 ∨
    MAX_EVENTS_BYTES < totalBytes E p.events

instance (p : StoredJobProgress) : Decidable (Refused E p) := inferInstanceAs (Decidable (_ ∨ _ ∨ _ ∨ _))

/-- **A stored text read back**: the same state, with its messages projected once more, if it is within the limits. -/
theorem parseState_stringify {p : StoredJobProgress} (h : StorableState E p) :
    parseState E (stringify E.numbers p.toValue) =
      if Refused E p then none else some { p with events := p.events.map (·.projected) } := by
  have hdate : dateOf E (some (.string p.lastActivityAt)) = some p.lastActivityAt := by
    simp [dateOf, textOf, Option.filter, h.dated]
  have hversion : (wholeOf (some (.number (.finite 1)))).filter (fun n => decide (n = 1)) = some 1 := by decide
  have hbytes : (p.events.map (·.toValue)).map (fun v => byteLength (stringify E.numbers v)) = p.events.map (eventBytes E) := by
    rw [List.map_map]
    rfl
  unfold parseState
  rw [parse_stringify (plain_stored h)]
  show (((wholeOf (some (.number (.finite 1)))).filter fun n => decide (n = 1)).bind fun _ =>
    (named JobProgressCapability.name CAPABILITIES (some (.string (text p.capability.name)))).bind fun capability =>
    (dateOf E (some (.string p.lastActivityAt))).bind fun lastActivityAt =>
    (wholeOf (some (.number (.finite p.lastSeq)))).bind fun lastSeq =>
    (wholeOf (some (.number (.finite p.droppedCount)))).bind fun droppedCount =>
    ((p.events.map (·.toValue)).mapM (progressEvent E)).bind fun events =>
    if MAX_EVENTS < (p.events.map (·.toValue)).length ∨ outOfOrder events = true ∨
        lastSeq < (events.getLast?.map (·.seq)).getD 0 ∨
        MAX_EVENTS_BYTES < ((p.events.map (·.toValue)).map fun v => byteLength (stringify E.numbers v)).sum then none
    else some (⟨capability, lastActivityAt, lastSeq, droppedCount, events.map (·.projected)⟩ : StoredJobProgress)) = _
  rw [hversion, named_capability, hdate, wholeOf_natCast, wholeOf_natCast, mapM_progressEvent h.events, hbytes, List.length_map]
  rfl

end LlmGateway.Progress
