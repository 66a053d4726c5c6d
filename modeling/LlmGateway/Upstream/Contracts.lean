import LlmGateway.Lib.JsString
import LlmGateway.Workspace.Registry

/-!
# The contracts of the provider command lines

The part of `UPSTREAM_CLI_CONTRACTS` (upstream-contracts.ts) that the arguments of a request are checked against: the flags of
every provider with their arities, values and patterns, and what else may stand in its command line.
-/

namespace LlmGateway.Upstream

open Lib Lib.Utf16
open Workspace (CliType)

inductive CliFlagArity where
  | none
  | one
  | optional
  | variadic
deriving DecidableEq

structure CliFlagContract where
  arity : CliFlagArity
  values : Option (List Text) := none
  pattern : Option (Text → Bool) := none
  allowLeadingHyphenValue : Bool := false
  inlineValue : Bool := false

structure Command where
  requiredFirstArg : Text
  optionalSecondArg : Option Text

/-- The flags are the own properties of the object; lists that are missing are empty ones. -/
structure CliContract where
  flags : List (Text × CliFlagContract)
  command : Option Command := none
  maxPositionals : ℕ
  allowsEndOfOptionsPrompt : Bool := false
  requiredRequestFlagGroups : List (List Text) := []
  mutuallyExclusiveFlagGroups : List (List Text) := []
  stdinPromptMarker : Option Text := none
  resumeMaxPositionals : Option ℕ := none
  resumeOnlyFlags : List Text := []
  resumeForbiddenFlags : List Text := []

/-! ## Patterns -/

def isDigit (u : UInt16) : Bool := 48 ≤ u && u ≤ 57

/-- One digit or more. -/
def isDigits (v : Text) : Bool := !v.isEmpty && v.all isDigit

/-- `[1-9][0-9]*` -/
def isPositive : Text → Bool
  | [] => false
  | u :: v => isDigit u && u != 48 && v.all isDigit

/-- `(\.[0-9]+)?` -/
def isFraction : Text → Bool
  | [] => true
  | u :: v => u == 46 && isDigits v

/-- `[0-9]+(?:\.[0-9]+)?` -/
def isAmount (v : Text) : Bool := isDigits (v.takeWhile isDigit) && isFraction (v.dropWhile isDigit)

/-- `(0|[1-9][0-9]*)(\.[0-9]+)?` -/
def isPrice (v : Text) : Bool :=
  (v.takeWhile isDigit == [48] || isPositive (v.takeWhile isDigit)) && isFraction (v.dropWhile isDigit)

def isLineEnd (u : UInt16) : Bool := u == 10 || u == 13

def isHex (u : UInt16) : Bool := isDigit u || (65 ≤ u && u ≤ 70) || (97 ≤ u && u ≤ 102)

def isKeyUnit (u : UInt16) : Bool := isDigit u || (65 ≤ u && u ≤ 90) || (97 ≤ u && u ≤ 122) || u == 46 || u == 95

/-- The rest of a quoted key, the quote that ends it, and the trust level. -/
def isTrustOverride : Text → Bool
  | [] => false
  | 34 :: v => v == text ".trust_level=\"untrusted\""
  | 92 :: 117 :: a :: b :: c :: d :: v => [a, b, c, d].all isHex && isTrustOverride v
  | 92 :: 85 :: a :: b :: c :: d :: e :: f :: g :: h :: v => [a, b, c, d, e, f, g, h].all isHex && isTrustOverride v
  | 92 :: u :: v => (text "\"\\btnfr").contains u && isTrustOverride v
  | u :: v => u != 92 && !isLineEnd u && isTrustOverride v

/-- `[a-zA-Z0-9._]+=` and the rest of the line. -/
def isKeyValue (v : Text) : Bool :=
  match v.takeWhile isKeyUnit, v.dropWhile isKeyUnit with
  | _ :: _, 61 :: value => value.all fun u => !isLineEnd u
  | _, _ => false

/-- A key and its value on one line, or the trust level of a project whose key is quoted. -/
def isConfigOverride (v : Text) : Bool :=
  isKeyValue v || ((text "projects.\"").isPrefixOf v && isTrustOverride (v.drop 10))

/-! ## Flags -/

def CLAUDE_WIRE_PERMISSION_MODES : List Text := ["acceptEdits", "auto", "bypassPermissions", "manual", "dontAsk", "plan"].map text

def GROK_PERMISSION_MODES : List Text := ["default", "acceptEdits", "auto", "dontAsk", "bypassPermissions", "plan"].map text

def EFFORT_LEVELS : List Text := ["low", "medium", "high", "xhigh", "max"].map text

def claudeFlags : List (String × CliFlagContract) := [
  ("-p", { arity := .optional }),
  ("--model", { arity := .one }),
  ("--input-format", { arity := .one, values := some (["text", "stream-json"].map text) }),
  ("--output-format", { arity := .one, values := some (["text", "json", "stream-json"].map text) }),
  ("--include-partial-messages", { arity := .none }),
  ("--verbose", { arity := .none }),
  ("--allowed-tools", { arity := .variadic }),
  ("--disallowed-tools", { arity := .variadic }),
  ("--permission-mode", { arity := .one, values := some CLAUDE_WIRE_PERMISSION_MODES }),
  ("--mcp-config", { arity := .one }),
  ("--strict-mcp-config", { arity := .none }),
  ("--agent", { arity := .one }),
  ("--agents", { arity := .one }),
  ("--fork-session", { arity := .none }),
  ("--system-prompt", { arity := .one, allowLeadingHyphenValue := true }),
  ("--append-system-prompt", { arity := .one, allowLeadingHyphenValue := true }),
  ("--max-budget-usd", { arity := .one, pattern := some isAmount }),
  ("--max-turns", { arity := .one, pattern := some isPositive }),
  ("--effort", { arity := .one, values := some EFFORT_LEVELS }),
  ("--exclude-dynamic-system-prompt-sections", { arity := .none }),
  ("--fallback-model", { arity := .one }),
  ("--json-schema", { arity := .one }),
  ("--add-dir", { arity := .one }),
  ("--continue", { arity := .none }),
  ("--resume", { arity := .optional }),
  ("--session-id", { arity := .one }),
  ("--no-session-persistence", { arity := .none }),
  ("--setting-sources", { arity := .one }),
  ("--settings", { arity := .one }),
  ("--tools", { arity := .variadic }),
  ("--include-hook-events", { arity := .none }),
  ("--replay-user-messages", { arity := .none }),
  ("--system-prompt-file", { arity := .one }),
  ("--append-system-prompt-file", { arity := .one }),
  ("--name", { arity := .one }),
  ("--plugin-dir", { arity := .one }),
  ("--plugin-url", { arity := .one }),
  ("--safe-mode", { arity := .none }),
  ("--bare", { arity := .none }),
  ("--disable-slash-commands", { arity := .none }),
  ("--debug", { arity := .optional }),
  ("--debug-file", { arity := .one })]

def codexFlags : List (String × CliFlagContract) := [
  ("--last", { arity := .none }),
  ("--model", { arity := .one }),
  ("--sandbox", { arity := .one, values := some (["read-only", "workspace-write", "danger-full-access"].map text) }),
  ("--dangerously-bypass-approvals-and-sandbox", { arity := .none }),
  ("--json", { arity := .none }),
  ("--skip-git-repo-check", { arity := .none }),
  ("--output-schema", { arity := .one }),
  ("--profile", { arity := .one }),
  ("-c", { arity := .one, pattern := some isConfigOverride }),
  ("--config", { arity := .one, pattern := some isConfigOverride }),
  ("--enable", { arity := .one }),
  ("--disable", { arity := .one }),
  ("--strict-config", { arity := .none }),
  ("--ephemeral", { arity := .none }),
  ("-i", { arity := .one }),
  ("--image", { arity := .one }),
  ("--ignore-user-config", { arity := .none }),
  ("--ignore-rules", { arity := .none }),
  ("--oss", { arity := .none }),
  ("--local-provider", { arity := .one, values := some (["lmstudio", "ollama"].map text) }),
  ("--color", { arity := .one, values := some (["always", "never", "auto"].map text) }),
  ("--output-last-message", { arity := .one }),
  ("--dangerously-bypass-hook-trust", { arity := .none }),
  ("--version", { arity := .none }),
  ("--all", { arity := .none }),
  ("-C", { arity := .one }),
  ("--cd", { arity := .one }),
  ("--add-dir", { arity := .one })]

def geminiFlags : List (String × CliFlagContract) := [
  ("--print", { arity := .none, inlineValue := true }),
  ("-p", { arity := .none }),
  ("--prompt", { arity := .none }),
  ("--model", { arity := .one }),
  ("--add-dir", { arity := .one }),
  ("--sandbox", { arity := .none }),
  ("--mode", { arity := .one, values := some (["accept-edits", "plan"].map text) }),
  ("--dangerously-skip-permissions", { arity := .none }),
  ("--conversation", { arity := .one }),
  ("--continue", { arity := .none }),
  ("-c", { arity := .none }),
  ("--project", { arity := .one }),
  ("--new-project", { arity := .none }),
  ("--output-format", { arity := .one, values := some (["text", "json", "stream-json"].map text) }),
  ("--input-format", { arity := .one, values := some (["text", "stream-json"].map text) }),
  ("--print-timeout", { arity := .one })]

def grokFlags : List (String × CliFlagContract) := [
  ("-p", { arity := .one, inlineValue := true }),
  ("--model", { arity := .one }),
  ("--output-format", {
    arity := .one, values := some (["plain", "json", "streaming-json", "streaming-messages-json"].map text) }),
  ("--always-approve", { arity := .none }),
  ("--permission-mode", { arity := .one, values := some GROK_PERMISSION_MODES }),
  ("--effort", { arity := .one }),
  ("--reasoning-effort", { arity := .one }),
  ("--tools", { arity := .one }),
  ("--disallowed-tools", { arity := .one }),
  ("--resume", { arity := .optional }),
  ("--continue", { arity := .none }),
  ("--max-turns", { arity := .one, pattern := some isPositive }),
  ("--cwd", { arity := .one }),
  ("--sandbox", { arity := .one }),
  ("--rules", { arity := .one, allowLeadingHyphenValue := true }),
  ("--system-prompt-override", { arity := .one, allowLeadingHyphenValue := true }),
  ("--allow", { arity := .one }),
  ("--deny", { arity := .one }),
  ("--agent", { arity := .one }),
  ("--agents", { arity := .one }),
  ("--best-of-n", { arity := .one, pattern := some isPositive }),
  ("--check", { arity := .none }),
  ("--disable-web-search", { arity := .none }),
  ("--experimental-memory", { arity := .none }),
  ("--no-alt-screen", { arity := .none }),
  ("--no-memory", { arity := .none }),
  ("--no-plan", { arity := .none }),
  ("--no-subagents", { arity := .none }),
  ("--oauth", { arity := .none }),
  ("--prompt-file", { arity := .one }),
  ("--prompt-json", { arity := .one }),
  ("--restore-code", { arity := .none }),
  ("--leader-socket", { arity := .one }),
  ("--single", { arity := .one }),
  ("--todo-gate", { arity := .none }),
  ("--verbatim", { arity := .none }),
  ("--version", { arity := .none }),
  ("--worktree", { arity := .optional }),
  ("--worktree-ref", { arity := .one }),
  ("--fork-session", { arity := .none }),
  ("--json-schema", { arity := .one }),
  ("--compaction-mode", { arity := .one, values := some (["summary", "transcript", "segments"].map text) }),
  ("--compaction-detail", { arity := .one, values := some (["none", "minimal", "balanced", "verbose"].map text) })]

def mistralFlags : List (String × CliFlagContract) := [
  ("-p", { arity := .one, inlineValue := true }),
  ("--prompt", { arity := .optional }),
  ("-v", { arity := .none }),
  ("--version", { arity := .none }),
  ("--setup", { arity := .none }),
  ("--output", { arity := .one, values := some (["text", "json", "streaming"].map text) }),
  ("--agent", { arity := .one }),
  ("--enabled-tools", { arity := .one }),
  ("--disabled-tools", { arity := .one }),
  ("--resume", { arity := .optional }),
  ("--continue", { arity := .none }),
  ("--trust", { arity := .none }),
  ("--max-turns", { arity := .one, pattern := some isPositive }),
  ("--max-price", { arity := .one, pattern := some isPrice }),
  ("--max-tokens", { arity := .one, pattern := some isPositive }),
  ("--workdir", { arity := .one }),
  ("--add-dir", { arity := .one })]

def devinFlags : List (String × CliFlagContract) := [
  ("-p", { arity := .optional }),
  ("--model", { arity := .one }),
  ("--permission-mode", { arity := .one, values := some (["auto", "accept-edits", "smart", "dangerous"].map text) }),
  ("--prompt-file", { arity := .one }),
  ("--config", { arity := .one }),
  ("--sandbox", { arity := .none }),
  ("--export", { arity := .optional }),
  ("--agent-config", { arity := .one }),
  ("--respect-workspace-trust", { arity := .optional, values := some (["true", "false"].map text) }),
  ("--resume", { arity := .one }),
  ("--continue", { arity := .none })]

def cursorFlags : List (String × CliFlagContract) := [
  ("--print", { arity := .none }),
  ("--output-format", { arity := .one, values := some (["text", "json", "stream-json"].map text) }),
  ("--model", { arity := .one }),
  ("--mode", { arity := .one, values := some (["plan", "ask"].map text) }),
  ("--force", { arity := .none }),
  ("--auto-review", { arity := .none }),
  ("--sandbox", { arity := .one, values := some (["enabled", "disabled"].map text) }),
  ("--trust", { arity := .none }),
  ("--workspace", { arity := .one }),
  ("--add-dir", { arity := .one }),
  ("--resume", { arity := .one }),
  ("--continue", { arity := .none })]

/-! ## Contracts -/

/-- The flags under their names. -/
def named (flags : List (String × CliFlagContract)) : List (Text × CliFlagContract) := flags.map fun f => (text f.1, f.2)

def UPSTREAM_CLI_CONTRACTS : CliType → CliContract
  | .claude => {
      flags := named claudeFlags
      maxPositionals := 0
      allowsEndOfOptionsPrompt := true
      requiredRequestFlagGroups := [["-p", "--print"].map text] }
  | .codex => {
      flags := named codexFlags
      command := some ⟨text "exec", some (text "resume")⟩
      maxPositionals := 1
      allowsEndOfOptionsPrompt := true
      stdinPromptMarker := some (text "-")
      resumeMaxPositionals := some 2
      resumeOnlyFlags := ["--last", "--all"].map text
      resumeForbiddenFlags := ["--sandbox", "-C", "--cd", "--add-dir", "--profile"].map text }
  | .gemini => {
      flags := named geminiFlags
      maxPositionals := 1
      requiredRequestFlagGroups := [["--print", "-p", "--prompt"].map text] }
  | .grok => {
      flags := named grokFlags
      maxPositionals := 0
      mutuallyExclusiveFlagGroups := [["-p", "--single"].map text, ["--effort", "--reasoning-effort"].map text] }
  | .mistral => { flags := named mistralFlags, maxPositionals := 0 }
  | .devin => {
      flags := named devinFlags
      maxPositionals := 0
      allowsEndOfOptionsPrompt := true
      requiredRequestFlagGroups := [["-p"].map text] }
  | .cursor => {
      flags := named cursorFlags
      maxPositionals := 1
      allowsEndOfOptionsPrompt := true
      requiredRequestFlagGroups := [["--print"].map text] }

end LlmGateway.Upstream
