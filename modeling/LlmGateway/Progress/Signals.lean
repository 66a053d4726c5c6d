import LlmGateway.Lib.JsString
import LlmGateway.Lib.JsValue
import LlmGateway.Lib.Substring

/-!
# What a provider's line says about its job

`structuredSignal` reads one line of a provider's event stream: the phase and the kind of work its event stands for, under a
fixed message.  Nothing else of the line is kept.
-/

namespace LlmGateway.Progress

open Lib Lib.Utf16 Lib.Substring Lib.JsValue

inductive JobProgressPhase where
  | queued | starting | thinking | tool | writing | completed | failed
deriving DecidableEq, Repr

inductive JobProgressKind where
  | lifecycle | reasoning | toolStart | toolError | output | terminal | activity
deriving DecidableEq, Repr

structure ProgressSignal where
  phase : JobProgressPhase
  kind : JobProgressKind
  message : Text
deriving DecidableEq

def signal (phase : JobProgressPhase) (kind : JobProgressKind) (message : String) : Option ProgressSignal :=
  some ⟨phase, kind, text message⟩

def objectRecord : JsValue → Option Members
  | .object ms => some ms
  | _ => none

def nestedRecord (record : Members) (key : String) : Option Members := (get key record).bind objectRecord

/-- `value === s` -/
def isText (s : String) : Option JsValue → Bool
  | some (.string t) => t == text s
  | _ => false

def includes (s : Text) (pat : String) : Bool := (search (text pat) s).isSome

/-! ## The providers -/

/-- One block of an assistant's message. -/
def claudeBlock (raw : JsValue) : Option ProgressSignal := do
  let block ← objectRecord raw
  let type := get "type" block
  if isText "tool_use" type then signal .tool .toolStart "Using a provider tool"
  else if isText "thinking" type then signal .thinking .reasoning "Provider reasoning activity"
  else if isText "text" type then signal .writing .output "Provider is writing output"
  else none

def claudeSignal (event : Members) : Option ProgressSignal :=
  let type := get "type" event
  if isText "system" type then signal .starting .lifecycle "Provider session initialized"
  else if isText "assistant" type then
    match (nestedRecord event "message").bind (get "content") with
    | some (.array content) => content.findSome? claudeBlock
    | _ => none
  else if isText "result" type then signal .writing .output "Provider produced a result"
  else none

def codexItem (type : Option JsValue) (item : Option Members) : Option ProgressSignal :=
  let itemType := item.bind (get "type")
  if isText "command_execution" itemType || isText "mcp_tool_call" itemType || isText "file_change" itemType then
    if isText "item.completed" type then
      if isText "failed" (item.bind (get "status")) then signal .tool .toolError "Provider tool reported an error" else none
    -- an update is not the start of a tool
    else if isText "item.updated" type then none
    else signal .tool .toolStart "Using a provider tool"
  else if isText "reasoning" itemType || isText "analysis" itemType then
    signal .thinking .reasoning "Provider reasoning activity"
  else if isText "agent_message" itemType then signal .writing .output "Provider is writing output"
  else none

def codexSignal (event : Members) : Option ProgressSignal :=
  let type := get "type" event
  if isText "thread.started" type || isText "turn.started" type then signal .starting .lifecycle "Provider turn started"
  else if isText "turn.failed" type || isText "error" type then signal .tool .toolError "Provider reported an error"
  else if isText "turn.completed" type then signal .writing .output "Provider turn produced output"
  else if isText "item.started" type || isText "item.completed" type || isText "item.updated" type then
    codexItem type (nestedRecord event "item")
  else none

/-- `a ?? b` -/
def coalesce (a b : Option JsValue) : Option JsValue :=
  match a with
  | none | some .null => b
  | some v => some v

def grokSignal (lower : LowerCase) (event : Members) : Option ProgressSignal :=
  let type := match coalesce (get "type" event) (get "event" event) with
    | some (.string t) => lower.toLowerCase t
    | _ => []
  if includes type "error" then signal .tool .toolError "Provider reported an error"
  else if includes type "tool" then signal .tool .toolStart "Using a provider tool"
  else if includes type "thought" || includes type "reason" then signal .thinking .reasoning "Provider reasoning activity"
  else if includes type "text" || includes type "content" || includes type "result" then
    signal .writing .output "Provider is writing output"
  else none

def geminiSignal (event : Members) : Option ProgressSignal :=
  let type := match get "type" event with
    | some (.string t) => some (.string t)
    | _ => get "event" event
  if isText "init" type then signal .starting .lifecycle "Provider session initialized"
  else if isText "step_update" type then
    if isText "tool" ((nestedRecord event "step_update").bind (get "step_type")) then
      signal .tool .toolStart "Using a provider tool"
    else signal .thinking .reasoning "Provider reasoning activity"
  else if isText "message" type then
    if isText "assistant" (get "role" event) then signal .writing .output "Provider is writing output" else none
  else if isText "result" type then signal .writing .output "Provider produced a result"
  else none

def mistralSignal (event : Members) : Option ProgressSignal :=
  let type := get "type" event
  if isText "reasoning" type then signal .thinking .reasoning "Provider reasoning activity"
  else if isText "effect" type then signal .tool .toolStart "Using a provider tool"
  else if isText "message" type && isText "assistant" (get "role" event) then
    signal .writing .output "Provider is writing output"
  else none

def cursorSignal (event : Members) : Option ProgressSignal :=
  let type := get "type" event
  if isText "system" type && isText "init" (get "subtype" event) then
    signal .starting .lifecycle "Provider session initialized"
  else if isText "thinking" type then signal .thinking .reasoning "Provider reasoning activity"
  else if isText "tool_call" type then
    if isText "completed" (get "subtype" event) then none else signal .tool .toolStart "Using a provider tool"
  else if isText "assistant" type || isText "result" type then signal .writing .output "Provider is writing output"
  else none

def structuredSignal (lower : LowerCase) (provider : String) (line : Text) : Option ProgressSignal := do
  let value ← parse line
  let record ← objectRecord value
  if provider = "claude" then claudeSignal record
  else if provider = "codex" then codexSignal record
  else if provider = "gemini" then geminiSignal record
  else if provider = "grok" then grokSignal lower record
  else if provider = "mistral" then mistralSignal record
  else if provider = "cursor" then cursorSignal record
  else none

def structuredCapability (provider : String) (outputFormat : Option String) : Bool :=
  (provider == "claude" && outputFormat == some "stream-json") ||
  (provider == "codex" && outputFormat == some "json") ||
  (provider == "gemini" && outputFormat == some "stream-json") ||
  (provider == "grok" && outputFormat == some "streaming-json") ||
  (provider == "mistral" && outputFormat == some "streaming") ||
  (provider == "cursor" && outputFormat == some "stream-json")

/-! ## What all signals have in common -/

/-- One of the phases, kinds and messages that a provider can cause: no lifecycle end, and never the generic activity. -/
def Ordinary (s : ProgressSignal) : Prop :=
  s.kind ≠ .activity ∧ s.kind ≠ .terminal ∧ (0 : UInt16) ∉ s.message

theorem ordinary_signal {phase : JobProgressPhase} {kind : JobProgressKind} {message : String} {s : ProgressSignal}
    (h : signal phase kind message = some s)
    (hs : kind ≠ .activity ∧ kind ≠ .terminal ∧ (0 : UInt16) ∉ text message := by decide) : Ordinary s := by
  obtain rfl := Option.some.inj h
  exact hs

variable {s : ProgressSignal}

theorem ordinary_claudeBlock {raw : JsValue} (h : claudeBlock raw = some s) : Ordinary s := by
  obtain ⟨block, -, h⟩ := Option.bind_eq_some_iff.1 h
  simp only at h
  split_ifs at h
  all_goals exact ordinary_signal h

theorem ordinary_claude {event : Members} (h : claudeSignal event = some s) : Ordinary s := by
  unfold claudeSignal at h
  simp only at h
  split_ifs at h
  · exact ordinary_signal h
  · split at h
    · obtain ⟨raw, -, hraw⟩ := List.exists_of_findSome?_eq_some h
      exact ordinary_claudeBlock hraw
    · cases h
  · exact ordinary_signal h

theorem ordinary_codex {event : Members} (h : codexSignal event = some s) : Ordinary s := by
  unfold codexSignal codexItem at h
  simp only at h
  split_ifs at h
  all_goals exact ordinary_signal h

theorem ordinary_grok {lower : LowerCase} {event : Members} (h : grokSignal lower event = some s) : Ordinary s := by
  unfold grokSignal at h
  simp only at h
  split_ifs at h
  all_goals exact ordinary_signal h

theorem ordinary_gemini {event : Members} (h : geminiSignal event = some s) : Ordinary s := by
  unfold geminiSignal at h
  simp only at h
  split_ifs at h
  all_goals exact ordinary_signal h

theorem ordinary_mistral {event : Members} (h : mistralSignal event = some s) : Ordinary s := by
  unfold mistralSignal at h
  simp only at h
  split_ifs at h
  all_goals exact ordinary_signal h

theorem ordinary_cursor {event : Members} (h : cursorSignal event = some s) : Ordinary s := by
  unfold cursorSignal at h
  simp only at h
  split_ifs at h
  all_goals exact ordinary_signal h

/-- **No line is the generic activity**, whatever it says. -/
theorem ordinary_structuredSignal {lower : LowerCase} {provider : String} {line : Text}
    (h : structuredSignal lower provider line = some s) : Ordinary s := by
  obtain ⟨value, -, h⟩ := Option.bind_eq_some_iff.1 h
  obtain ⟨record, -, h⟩ := Option.bind_eq_some_iff.1 h
  split_ifs at h
  · exact ordinary_claude h
  · exact ordinary_codex h
  · exact ordinary_gemini h
  · exact ordinary_grok h
  · exact ordinary_mistral h
  · exact ordinary_cursor h

end LlmGateway.Progress
