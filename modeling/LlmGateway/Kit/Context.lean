import LlmGateway.Lib.JsString
import LlmGateway.Lib.JsValue
import LlmGateway.Lib.Utf8

/-!
# The context of a Kit run

`buildKitContext` and `applyKitPreferences` (personal-config.ts), from the files of the release and of the repository on.

* `parsePreferences`, `parseLayerConfig` — the checks of a layer, which is a table of TOML;
* `buildKitContext` — the text, the preferences and the digests of a run;
* `applyKitPreferences` — the parameters of a request under the preferences.

Parameters are the parser of TOML, SHA-256 of some bytes, and the texts of numbers that are not whole or not safe.  The readers of
files have bounded and checked what they give.
-/

namespace LlmGateway.Kit.Context

open Lib Lib.Utf16 Lib.JsNumber

/-! ## Values of TOML -/

/-- A date is an object without properties of its own. -/
inductive TomlValue where
  | string (s : Text)
  | number (n : Number)
  | boolean (b : Bool)
  | date
  | array (items : List TomlValue)
  | table (entries : List (Text × TomlValue))

abbrev Record := List (Text × TomlValue)

/-- The properties of an object that is no array. -/
def asRecord : TomlValue → Option Record
  | .table entries => some entries
  | .date => some []
  | _ => none

def Record.get (r : Record) (name : String) : Option TomlValue := (r.find? fun e => e.1 == text name).map Prod.snd

/-- Some key is not in the set. -/
def Record.hasOther (r : Record) (names : List String) : Bool := r.any fun e => !(names.map text).contains e.1

/-! ## Errors -/

inductive PersonalConfigErrorCode where
  | kit_release_missing
  | kit_request_instructions_too_large
  | kit_context_too_large
  | kit_invalid_baseline
deriving DecidableEq

structure PersonalConfigError where
  code : PersonalConfigErrorCode
  message : Text

abbrev Checked := Except PersonalConfigError

def invalidBaseline {α : Type} (message : Text) : Checked α := .error ⟨.kit_invalid_baseline, message⟩

/-! ## Preferences -/

inductive OutputFormat where
  | text
  | json
deriving DecidableEq

inductive SandboxMode where
  | readOnly
  | workspaceWrite
deriving DecidableEq

inductive PreferenceKey where
  | modelDefault
  | outputFormatDefault
  | maxTurnsCap
  | maxBudgetUsdCap
  | codexSandboxMode
deriving DecidableEq

/-- `order` lists the properties that are there, in the order in which they came. -/
structure KitPreferences where
  modelDefault : Option Text
  outputFormatDefault : Option OutputFormat
  maxTurnsCap : Option ℚ
  maxBudgetUsdCap : Option ℚ
  codexSandboxMode : Option SandboxMode
  order : List PreferenceKey
deriving DecidableEq

namespace KitPreferences

def empty : KitPreferences := ⟨none, none, none, none, none, []⟩

/-- An assignment leaves a property that is there in its place. -/
def place (order : List PreferenceKey) (k : PreferenceKey) : List PreferenceKey := if k ∈ order then order else order ++ [k]

def setModelDefault (p : KitPreferences) (v : Text) : KitPreferences :=
  { p with modelDefault := some v, order := place p.order .modelDefault }

def setOutputFormatDefault (p : KitPreferences) (v : OutputFormat) : KitPreferences :=
  { p with outputFormatDefault := some v, order := place p.order .outputFormatDefault }

def setMaxTurnsCap (p : KitPreferences) (v : ℚ) : KitPreferences :=
  { p with maxTurnsCap := some v, order := place p.order .maxTurnsCap }

def setMaxBudgetUsdCap (p : KitPreferences) (v : ℚ) : KitPreferences :=
  { p with maxBudgetUsdCap := some v, order := place p.order .maxBudgetUsdCap }

def setCodexSandboxMode (p : KitPreferences) (v : SandboxMode) : KitPreferences :=
  { p with codexSandboxMode := some v, order := place p.order .codexSandboxMode }

end KitPreferences

def KIT_PREFERENCE_KEYS : List String :=
  ["model_default", "output_format_default", "max_turns_cap", "max_budget_usd_cap", "codex_sandbox_mode"]
def KIT_LAYER_CONFIG_KEYS : List String := ["instructions", "context", "preferences"]
def KIT_CONTEXT_KEYS : List String := ["instructions"]
def MAX_KIT_TURNS_CAP : ℕ := 10000
def MAX_KIT_BUDGET_USD_CAP : ℕ := 10000
def MAX_KIT_MODEL_IDENTIFIER_LENGTH : ℕ := 128

def isAlphanumeric (u : UInt16) : Bool := (48 ≤ u && u ≤ 57) || (65 ≤ u && u ≤ 90) || (97 ≤ u && u ≤ 122)

/-- `KIT_MODEL_IDENTIFIER_PATTERN` -/
def isModelIdentifier : Text → Bool
  | [] => false
  | u :: s => isAlphanumeric u && s.all fun u => isAlphanumeric u || (text "._:/+@-").contains u

def readModelDefault (candidate : Record) (p : KitPreferences) : Checked KitPreferences :=
  match candidate.get "model_default" with
  | none => .ok p
  | some (.string s) =>
    if s.length ≤ MAX_KIT_MODEL_IDENTIFIER_LENGTH ∧ isModelIdentifier s = true then .ok (p.setModelDefault s)
    else invalidBaseline (text "model_default must be a printable model identifier no longer than 128 characters")
  | some _ => invalidBaseline (text "model_default must be a printable model identifier no longer than 128 characters")

def readOutputFormat (candidate : Record) (p : KitPreferences) : Checked KitPreferences :=
  match candidate.get "output_format_default" with
  | none => .ok p
  | some (.string s) =>
    if s = text "text" then .ok (p.setOutputFormatDefault .text)
    else if s = text "json" then .ok (p.setOutputFormatDefault .json)
    else invalidBaseline (text "output_format_default must be text or json")
  | some _ => invalidBaseline (text "output_format_default must be text or json")

def readMaxTurnsCap (candidate : Record) (p : KitPreferences) : Checked KitPreferences :=
  match candidate.get "max_turns_cap" with
  | none => .ok p
  | some (.number (.finite q)) =>
    if 0 < q ∧ q.den = 1 ∧ q ≤ MAX_KIT_TURNS_CAP then .ok (p.setMaxTurnsCap q)
    else invalidBaseline (text "max_turns_cap must be a safe positive integer no greater than 10000")
  | some _ => invalidBaseline (text "max_turns_cap must be a safe positive integer no greater than 10000")

def readMaxBudgetUsdCap (candidate : Record) (p : KitPreferences) : Checked KitPreferences :=
  match candidate.get "max_budget_usd_cap" with
  | none => .ok p
  | some (.number (.finite q)) =>
    if 0 < q ∧ q ≤ MAX_KIT_BUDGET_USD_CAP then .ok (p.setMaxBudgetUsdCap q)
    else invalidBaseline (text "max_budget_usd_cap must be a finite positive number no greater than 10000")
  | some _ => invalidBaseline (text "max_budget_usd_cap must be a finite positive number no greater than 10000")

def readCodexSandboxMode (candidate : Record) (p : KitPreferences) : Checked KitPreferences :=
  match candidate.get "codex_sandbox_mode" with
  | none => .ok p
  | some (.string s) =>
    if s = text "read-only" then .ok (p.setCodexSandboxMode .readOnly)
    else if s = text "workspace-write" then .ok (p.setCodexSandboxMode .workspaceWrite)
    else invalidBaseline (text "codex_sandbox_mode must be read-only or workspace-write")
  | some _ => invalidBaseline (text "codex_sandbox_mode must be read-only or workspace-write")

def parsePreferences (candidate : Option TomlValue) : Checked KitPreferences :=
  match candidate with
  | none => .ok .empty
  | some v =>
    match asRecord v with
    | none => invalidBaseline (text "preferences must be a TOML table")
    | some r =>
      if r.hasOther KIT_PREFERENCE_KEYS then invalidBaseline (text "preferences contains an unsupported key")
      else do
        let p ← readModelDefault r .empty
        let p ← readOutputFormat r p
        let p ← readMaxTurnsCap r p
        let p ← readMaxBudgetUsdCap r p
        readCodexSandboxMode r p

/-- A layer: its instructions, and its preferences. -/
structure LayerConfig where
  instructions : Option Text
  preferences : KitPreferences

/-- `instructions` of a table; `label` names it in the error. -/
def readInstructions (r : Record) (label : Text) : Checked (Option Text) :=
  match r.get "instructions" with
  | none => .ok none
  | some (.string s) => .ok (some (trim s))
  | some _ => invalidBaseline (label ++ text " instructions must be a string")

/-- The instructions of the `context` of a layer. -/
def readContextInstructions (candidate : Record) (label : Text) : Checked (Option Text) :=
  match candidate.get "context" with
  | none => .ok none
  | some v =>
    match asRecord v with
    | none => invalidBaseline (label ++ text " context must be a TOML table")
    | some r =>
      if r.hasOther KIT_CONTEXT_KEYS then invalidBaseline (label ++ text " context contains an unsupported key")
      else readInstructions r (label ++ text " context")

def parseLayerConfig (candidate : Record) (label : Text) : Checked LayerConfig :=
  if candidate.hasOther KIT_LAYER_CONFIG_KEYS then invalidBaseline (label ++ text " contains an unsupported key")
  else do
    let own ← readInstructions candidate label
    let contextual ← readContextInstructions candidate label
    let preferences ← parsePreferences (candidate.get "preferences")
    return ⟨own <|> contextual, preferences⟩

def parsePersonalPreferencesDocument (candidate : Record) : Checked KitPreferences :=
  match candidate.get "preferences" with
  | some v =>
    if candidate.hasOther ["preferences"] then invalidBaseline (text "preferences.toml contains an unsupported key")
    else parsePreferences (some v)
  | none => parsePreferences (some (.table candidate))

def mostRestrictiveCodexSandbox (left right : Option SandboxMode) : Option SandboxMode :=
  if left = some .readOnly ∨ right = some .readOnly then some .readOnly else left <|> right

/-- The smaller one of two caps, of which the second is there. -/
def smallerCap (left : Option ℚ) (right : ℚ) : ℚ := left.elim right fun l => min l right

def mergePreferences (left right : KitPreferences) : KitPreferences :=
  let next := match right.modelDefault with
    | some (u :: s) => left.setModelDefault (u :: s)
    | _ => left
  let next := match right.outputFormatDefault with
    | some f => next.setOutputFormatDefault f
    | none => next
  let next := match mostRestrictiveCodexSandbox left.codexSandboxMode right.codexSandboxMode with
    | some m => next.setCodexSandboxMode m
    | none => next
  let next := match right.maxTurnsCap with
    | some cap => next.setMaxTurnsCap (smallerCap left.maxTurnsCap cap)
    | none => next
  match right.maxBudgetUsdCap with
  | some cap => next.setMaxBudgetUsdCap (smallerCap left.maxBudgetUsdCap cap)
  | none => next

/-! ## Layers -/

/-- Where a run takes place; a head or a root that is `null` is not there. -/
structure KitScope where
  cwd : Text
  scopeRoot : Option Text
  registeredWorkspaceAlias : Option Text
  repoHead : Option Text
  overlayPath : Option Text
deriving DecidableEq

/-- The readers of the files of a release: a text that has been bounded and checked, where the file is there. -/
structure ReleaseFiles where
  preferencesToml : Checked (Option Text)
  configToml : Checked (Option Text)
  instructionsMd : Checked (Option Text)
  globalMd : Checked (Option Text)

section
variable (parseToml : Text → Option TomlValue)

def readTomlWithinRoot (file : Checked (Option Text)) (label : Text) : Checked Record := do
  match ← file with
  | none => .ok []
  | some s =>
    match parseToml s with
    | none => invalidBaseline (label ++ text " contains invalid TOML")
    | some v =>
      match asRecord v with
      | none => invalidBaseline (label ++ text " must contain a TOML table")
      | some r => .ok r

def readFirstFile (files : List (Checked (Option Text))) : Checked (Option Text) :=
  match files with
  | [] => .ok none
  | file :: rest => do
    match ← file with
    | some s => .ok (some (trim s))
    | none => readFirstFile rest

def readPersonalLayer (files : ReleaseFiles) : Checked LayerConfig := do
  let preferenceConfig ← readTomlWithinRoot parseToml files.preferencesToml (text "preferences.toml")
  let preferences ← parsePersonalPreferencesDocument preferenceConfig
  let config ← readTomlWithinRoot parseToml files.configToml (text "config.toml")
  let parsedConfig ← parseLayerConfig config (text "config.toml")
  let instructions ← readFirstFile [files.instructionsMd, files.globalMd]
  return ⟨instructions <|> parsedConfig.instructions, mergePreferences preferences parsedConfig.preferences⟩

/-- `overlay` is the text of the file at the path of the overlay; `none` where there is none. -/
def readRepositoryLayer (sha256 : Text → Text) (scope : KitScope) (overlay : Checked (Option Text)) :
    Checked (LayerConfig × Option Text) :=
  if scope.overlayPath.getD [] = [] ∨ scope.scopeRoot.getD [] = [] then .ok (⟨none, .empty⟩, none)
  else do
    match ← overlay with
    | none => .ok (⟨none, .empty⟩, none)
    | some s =>
      match parseToml s with
      | none => invalidBaseline (text "Repository Kit overlay contains invalid TOML")
      | some v =>
        match asRecord v with
        | none => invalidBaseline (text "Repository Kit overlay must contain a TOML table")
        | some r => do
          let config ← parseLayerConfig r (text "Repository Kit overlay")
          return (config, some (sha256 s))

end

/-! ## Blocks -/

inductive Source where
  | bundled
  | personal
  | repository
  | request
deriving DecidableEq

def Source.text : Source → Text
  | .bundled => Utf16.text "bundled"
  | .personal => Utf16.text "personal"
  | .repository => Utf16.text "repository"
  | .request => Utf16.text "request"

structure Block where
  source : Source
  text : Text
deriving DecidableEq

def contextBlock (source : Source) (value : Text) : Text :=
  text "<kit-context source=\"" ++ source.text ++ text "\">\n" ++ value ++ text "\n</kit-context>"

/-- The blocks one after the other, an empty line between them. -/
def renderBlocks : List Block → Text
  | [] => []
  | [b] => contextBlock b.source b.text
  | b :: c :: bs => contextBlock b.source b.text ++ text "\n\n" ++ renderBlocks (c :: bs)

/-- A block where there is something to say. -/
def blockOf (source : Source) (value : Option Text) : List Block :=
  match value with
  | some (u :: s) => [⟨source, u :: s⟩]
  | _ => []

/-! ## The context of a run -/

/-- A release that has been verified: it is named after the commit that it was made of. -/
structure PersonalConfigRelease where
  id : Text
  baselineCommit : Text
  createdAt : Text
  treeDigest : Text
  verified : baselineCommit = id
deriving DecidableEq

structure BuildKitContextInput where
  release : Option (PersonalConfigRelease × ReleaseFiles)
  scope : KitScope
  machineId : Text
  overlay : Checked (Option Text)
  bundledInstructions : Option Text
  requestInstructions : Option Text

structure KitExecutionRef where
  releaseId : Text
  configStamp : Text
  scopeRoot : Option Text
  scopeHead : Option Text
  contextIdentity : Text

structure ResolvedKitContext where
  release : PersonalConfigRelease
  scope : KitScope
  text : Text
  contextDigest : Text
  configStamp : Text
  execution : KitExecutionRef
  preferences : KitPreferences
  provenance : List (Source × Text)

def MAX_REQUEST_INSTRUCTIONS_BYTES : ℕ := 16 * 1024
def MAX_EFFECTIVE_CONTEXT_BYTES : ℕ := 64 * 1024
def PERSONAL_CONFIG_COMPILER_VERSION : Text := text "1"

/-- A value that may be `null`. -/
def orNull (s : Option Text) : JsValue := s.elim .null .string

def PreferenceKey.text : PreferenceKey → Text
  | .modelDefault => Utf16.text "modelDefault"
  | .outputFormatDefault => Utf16.text "outputFormatDefault"
  | .maxTurnsCap => Utf16.text "maxTurnsCap"
  | .maxBudgetUsdCap => Utf16.text "maxBudgetUsdCap"
  | .codexSandboxMode => Utf16.text "codexSandboxMode"

def OutputFormat.word : OutputFormat → Text
  | .text => Utf16.text "text"
  | .json => Utf16.text "json"

def SandboxMode.word : SandboxMode → Text
  | .readOnly => text "read-only"
  | .workspaceWrite => text "workspace-write"

def KitPreferences.value (p : KitPreferences) : PreferenceKey → Option JsValue
  | .modelDefault => p.modelDefault.map .string
  | .outputFormatDefault => p.outputFormatDefault.map fun f => .string f.word
  | .maxTurnsCap => p.maxTurnsCap.map fun q => .number (.finite q)
  | .maxBudgetUsdCap => p.maxBudgetUsdCap.map fun q => .number (.finite q)
  | .codexSandboxMode => p.codexSandboxMode.map fun m => .string m.word

/-- The preferences as JSON has them. -/
def KitPreferences.toJson (p : KitPreferences) : JsValue :=
  .object (p.order.filterMap fun k => (p.value k).map fun v => (k.text, v))

section
variable (sha256 : Text → Text) (P : JsValue.NumberText)

/-- What the digest of the context is taken of. -/
def contextJson (instructions : Text) (preferences : KitPreferences) (repositoryConfigDigest : Option Text)
    (release : PersonalConfigRelease) (scope : KitScope) : JsValue :=
  .object [(text "instructions", .string instructions), (text "preferences", preferences.toJson),
    (text "repositoryConfigDigest", orNull repositoryConfigDigest), (text "releaseTreeDigest", .string release.treeDigest),
    (text "scopeCwd", .string scope.cwd)]

/-- A block in the provenance: its source and the digest of its text. -/
def sourceDigest (e : Source × Text) : JsValue := .object [(text "source", .string e.1.text), (text "digest", .string e.2)]

/-- What the stamp is taken of. -/
def stampJson (provenance : List (Source × Text)) (preferences : KitPreferences) (repositoryConfigDigest : Option Text)
    (release : PersonalConfigRelease) (scope : KitScope) (machineId contextDigest : Text) : JsValue :=
  .object [(text "compilerVersion", .string PERSONAL_CONFIG_COMPILER_VERSION),
    (text "baselineCommit", .string release.baselineCommit), (text "releaseTreeDigest", .string release.treeDigest),
    (text "sourceDigests", .array (provenance.map sourceDigest)),
    (text "preferences", preferences.toJson), (text "repositoryConfigDigest", orNull repositoryConfigDigest),
    (text "scopeRoot", orNull scope.scopeRoot), (text "scopeCwd", .string scope.cwd), (text "repoHead", orNull scope.repoHead),
    (text "machineId", .string machineId), (text "contextDigest", .string contextDigest)]

/-- The context of blocks and preferences that have been compiled. -/
def resolveContext (release : PersonalConfigRelease) (scope : KitScope) (machineId : Text) (rawBlocks : List Block)
    (preferences : KitPreferences) (repositoryConfigDigest : Option Text) : ResolvedKitContext :=
  let rendered := renderBlocks rawBlocks
  let contextDigest := sha256 ((contextJson rendered preferences repositoryConfigDigest release scope).stringify P)
  let provenance := rawBlocks.map fun b => (b.source, sha256 b.text)
  let configStamp :=
    sha256 ((stampJson provenance preferences repositoryConfigDigest release scope machineId contextDigest).stringify P)
  let execution := ⟨release.id, configStamp, scope.scopeRoot, scope.repoHead, contextDigest⟩
  ⟨release, scope, rendered, contextDigest, configStamp, execution, preferences, provenance⟩

/-- The blocks and the preferences of an input, and the digest of the overlay. -/
structure Compiled where
  release : PersonalConfigRelease
  rawBlocks : List Block
  personal : KitPreferences
  repository : KitPreferences
  repositoryConfigDigest : Option Text

def activeRelease (input : BuildKitContextInput) : Checked (PersonalConfigRelease × ReleaseFiles) :=
  match input.release with
  | none => .error ⟨.kit_release_missing, text "No verified Personal Agent Config release is active"⟩
  | some r => .ok r

/-- `buildKitContext` up to the digests. -/
def compileLayers (parseToml : Text → Option TomlValue) (input : BuildKitContextInput) : Checked Compiled := do
  let (release, files) ← activeRelease input
  let requestInstructions := (input.requestInstructions.map trim).getD []
  if MAX_REQUEST_INSTRUCTIONS_BYTES < byteLength requestInstructions then
    .error ⟨.kit_request_instructions_too_large, text "requestInstructions exceeds 16384 bytes"⟩
  else do
    let personal ← readPersonalLayer parseToml files
    let (repository, repositoryConfigDigest) ← readRepositoryLayer parseToml sha256 input.scope input.overlay
    let rawBlocks := blockOf .bundled (input.bundledInstructions.map trim) ++ blockOf .personal personal.instructions ++
      blockOf .repository repository.instructions ++ blockOf .request (some requestInstructions)
    if MAX_EFFECTIVE_CONTEXT_BYTES < byteLength (renderBlocks rawBlocks) then
      .error ⟨.kit_context_too_large, text "Effective Kit context exceeds 65536 bytes"⟩
    else return ⟨release, rawBlocks, personal.preferences, repository.preferences, repositoryConfigDigest⟩

def buildKitContext (parseToml : Text → Option TomlValue) (input : BuildKitContextInput) : Checked ResolvedKitContext := do
  let c ← compileLayers sha256 parseToml input
  return resolveContext sha256 P c.release input.scope input.machineId c.rawBlocks (mergePreferences c.personal c.repository)
    c.repositoryConfigDigest

end

/-! ## Requests -/

/-- A value of a parameter that is there. -/
inductive Param where
  | number (n : Number)
  | string (s : Text)
  | other
deriving DecidableEq

/-- The parameters that preferences bear on; `none` is `undefined`. -/
structure RequestParams where
  model : Option Param
  outputFormat : Option Param
  maxTurns : Option Param
  maxBudgetUsd : Option Param
deriving DecidableEq

/-- `Math.min` with a finite number. -/
def minWith (cap : ℚ) : Number → Number
  | .nan => .nan
  | .infinite true => .infinite true
  | .infinite false => .finite cap
  | .finite q => .finite (min q cap)

/-- A parameter under a cap. -/
def applyCap (value : Option Param) (cap : Option ℚ) : Option Param :=
  match value, cap with
  | some (.number n), some c => some (.number (minWith c n))
  | none, some c => some (.number (.finite c))
  | v, _ => v

def applyKitPreferences (params : RequestParams) (preferences : KitPreferences) : RequestParams where
  model := match params.model, preferences.modelDefault with
    | none, some (u :: s) => some (.string (u :: s))
    | v, _ => v
  outputFormat := match params.outputFormat, preferences.outputFormatDefault with
    | none, some f => some (.string f.word)
    | v, _ => v
  maxTurns := applyCap params.maxTurns preferences.maxTurnsCap
  maxBudgetUsd := applyCap params.maxBudgetUsd preferences.maxBudgetUsdCap

end LlmGateway.Kit.Context
