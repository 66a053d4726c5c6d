import LlmGateway.Lib.JsValue
import LlmGateway.Surface.Merge
import LlmGateway.Upstream.Contracts

/-!
# The gate of the arguments of a request

`validateUpstreamCliArgs` (upstream-contracts.ts): the arguments that a provider command line is started with, against the
contract of the provider.

* `Property`, `lookup` — what `contract.flags[name]` finds: a flag, or a property that every object inherits;
* `scanArg`, `scan` — one token with the values behind it, and all of them;
* `validateUpstreamCliArgs` — the result, `none` where it throws.

What the merged surface knows about a flag is a parameter.
-/

namespace LlmGateway.Upstream

open Lib Lib.Utf16
open Workspace (CliType)

def word : CliType → Text
  | .claude => text "claude"
  | .codex => text "codex"
  | .gemini => text "gemini"
  | .grok => text "grok"
  | .mistral => text "mistral"
  | .devin => text "devin"
  | .cursor => text "cursor"

structure ContractViolation where
  cli : CliType
  arg : Option Text := none
  index : Option ℕ := none
  message : Text

structure ContractValidationResult where
  ok : Bool
  violations : List ContractViolation
  unknownFlagCount : Option ℕ := none

/-- The caller's `providerFlags`. -/
abbrev Passthrough := List (Text × JsValue)

/-- The flags of the merged surface, under their names. -/
abbrev SurfaceFlags := CliType → Text → Option Surface.SurfaceFlag

/-! ## Flags -/

/-- The names of the properties that every object inherits. -/
def objectPrototype : List Text :=
  ["constructor", "__defineGetter__", "__defineSetter__", "hasOwnProperty", "__lookupGetter__", "__lookupSetter__",
    "isPrototypeOf", "propertyIsEnumerable", "toString", "valueOf", "__proto__", "toLocaleString"].map text

/-- What is found under the name of a property. -/
inductive Property where
  | flag (contract : CliFlagContract)
  | inherited (name : Text)

/-- An inherited property has no arity. -/
def Property.arity : Property → Option CliFlagArity
  | .flag f => some f.arity
  | .inherited _ => none

def Property.inlineValue : Property → Bool
  | .flag f => f.inlineValue
  | .inherited _ => false

def Property.allowLeadingHyphenValue : Property → Bool
  | .flag f => f.allowLeadingHyphenValue
  | .inherited _ => false

def declaredFlag (contract : CliContract) (name : Text) : Option CliFlagContract :=
  (contract.flags.find? fun f => f.1 == name).map Prod.snd

/-- `contract.flags[name]` -/
def lookup (contract : CliContract) (name : Text) : Option Property :=
  match declaredFlag contract name with
  | some f => some (.flag f)
  | none => if name ∈ objectPrototype then some (.inherited name) else none

def surfacedArity : Option Surface.Arity → CliFlagArity
  | some .one => .one
  | _ => .none

def undeclaredFlagContract (surfaceFlags : SurfaceFlags) (cli : CliType) (flagName : Text) (passthrough : Passthrough) :
    Option CliFlagContract :=
  match passthrough.find? fun p => p.1 == flagName with
  | some (_, .boolean true) => some { arity := .none }
  | some _ => some { arity := .one }
  | none => (surfaceFlags cli flagName).map fun surfaced => { arity := surfacedArity surfaced.arity }

def startsWithHyphen (token : Text) : Bool := token.head? == some 45

/-- The name of a flag and the value behind the first `=`, unless the token starts with it. -/
def splitEquals (arg : Text) : Text × Option Text :=
  match arg.takeWhile (· != 61), arg.dropWhile (· != 61) with
  | c :: name, _ :: value => (c :: name, some value)
  | _, _ => (arg, none)

/-! ## Values -/

def quoted (t : Text) : Text := 34 :: (t ++ [34])

/-- A message about a flag. -/
def flagMessage (cli : CliType) (flag : Text) (rest : Text) : Text := word cli ++ text " flag " ++ quoted flag ++ rest

/-- The violations of a value.  `Object.values` is a function, which has no `includes`. -/
def validateFlagValue (cli : CliType) (arg : Text) (flag : Property) (value : Text) (index : Option ℕ) :
    Option (List ContractViolation) :=
  match flag with
  | .inherited name => if name = text "constructor" then none else some []
  | .flag f => some (
      (if f.values.any fun values => !values.contains value then
        [⟨cli, some value, index, flagMessage cli arg (text " does not accept value " ++ quoted value)⟩] else []) ++
      if f.pattern.any fun pattern => !pattern value then
        [⟨cli, some value, index, flagMessage cli arg (text " value " ++ quoted value ++ text " does not match required shape")⟩]
      else [])

/-- Several values, one behind the other. -/
def validateFlagValues (cli : CliType) (arg : Text) (flag : Property) : ℕ → List Text → Option (List ContractViolation)
  | _, [] => some []
  | index, value :: values =>
    (validateFlagValue cli arg flag value (some index)).bind fun violations =>
      (validateFlagValues cli arg flag (index + 1) values).map (violations ++ ·)

/-! ## Tokens -/

structure Scan where
  violations : List ContractViolation := []
  positionals : List Text := []
  endOfOptions : Bool := false
  endOfOptionsPositionals : List Text := []
  presentFlags : List Text := []
  unknownFlagCount : ℕ := 0

def Scan.report (s : Scan) (violations : List ContractViolation) : Scan := { s with violations := s.violations ++ violations }

section
variable (surfaceFlags : SurfaceFlags) (cli : CliType) (passthrough : Passthrough) (resumeContext : Bool)

/-- The violations of a flag in a context that does not take it. -/
def resumeViolations (flagName : Text) (i : ℕ) : List ContractViolation :=
  let contract := UPSTREAM_CLI_CONTRACTS cli
  (if resumeContext && contract.resumeForbiddenFlags.contains flagName then
    [⟨cli, some flagName, some i, flagMessage cli flagName (text " is not accepted by the resume command contract")⟩]
  else []) ++
  if !resumeContext && contract.resumeOnlyFlags.contains flagName then
    [⟨cli, some flagName, some i, flagMessage cli flagName (text " is only valid with the resume command contract")⟩]
  else []

/-- The values of a flag among the tokens behind it, and their number. -/
def scanValues (s : Scan) (i : ℕ) (arg : Text) (flag : Property) (rest : List Text) : Option (Scan × ℕ) :=
  match flag.arity with
  | some .none => some (s, 0)
  | some .one =>
    match rest with
    | [] => some (s.report [⟨cli, some arg, some i, flagMessage cli arg (text " requires one non-option value")⟩], 0)
    | value :: _ =>
      if !flag.allowLeadingHyphenValue && startsWithHyphen value then
        some (s.report [⟨cli, some arg, some i, flagMessage cli arg (text " requires one non-option value")⟩], 0)
      else (validateFlagValue cli arg flag value (some (i + 1))).map fun violations => (s.report violations, 1)
  | some .optional =>
    match rest with
    | [] => some (s, 0)
    | value :: _ =>
      if startsWithHyphen value then some (s, 0)
      else (validateFlagValue cli arg flag value (some (i + 1))).map fun violations => (s.report violations, 1)
  | _ =>
    match rest.takeWhile fun t => !startsWithHyphen t with
    | [] => some (s.report [⟨cli, some arg, some i, flagMessage cli arg (text " requires at least one value")⟩], 0)
    | values => (validateFlagValues cli arg flag (i + 1) values).map fun violations => (s.report violations, values.length)

/-- A flag in front of the other tokens, and the number of values that it takes of them. -/
def scanFlag (s : Scan) (i : ℕ) (arg flagName : Text) (inlineValue : Option Text) (flag : Property) (rest : List Text) :
    Option (Scan × ℕ) :=
  match inlineValue with
  | some value =>
    if !flag.inlineValue then
      some (s.report [⟨cli, some arg, some i, flagMessage cli flagName (text " does not accept an inline value")⟩], 0)
    else (validateFlagValue cli flagName flag value (some i)).map fun violations => (s.report violations, 0)
  | none => scanValues cli (s.report (resumeViolations cli resumeContext flagName i)) i arg flag rest

/-- One token in front of the others, and the number of values that it takes of them. -/
def scanArg (s : Scan) (i : ℕ) (arg : Text) (rest : List Text) : Option (Scan × ℕ) :=
  let contract := UPSTREAM_CLI_CONTRACTS cli
  if s.endOfOptions then some ({ s with endOfOptionsPositionals := s.endOfOptionsPositionals ++ [arg] }, 0)
  else if arg = text "--" then
    let violations :=
      if !contract.allowsEndOfOptionsPrompt then
        [⟨cli, some arg, some i, word cli ++ text " request contract does not allow an end-of-options prompt boundary"⟩]
      else []
    some ({ s.report violations with endOfOptions := true }, 0)
  else
    let (flagName, inlineValue) := splitEquals arg
    match lookup contract flagName with
    | some declared =>
      scanFlag cli resumeContext { s with presentFlags := s.presentFlags ++ [flagName] } i arg flagName inlineValue declared
        rest
    | none =>
      if contract.stdinPromptMarker = some arg ∨ !startsWithHyphen arg then
        some ({ s with positionals := s.positionals ++ [arg] }, 0)
      else
        match undeclaredFlagContract surfaceFlags cli flagName passthrough with
        | none =>
          let message := text "Unsupported " ++ word cli ++ text " CLI flag for bundled upstream contract"
          some (s.report [⟨cli, none, some i, message⟩], 0)
        | some flag =>
          scanFlag cli resumeContext
            { s with unknownFlagCount := s.unknownFlagCount + 1, presentFlags := s.presentFlags ++ [flagName] }
            i arg flagName inlineValue (.flag flag) rest

def scan (s : Scan) (i : ℕ) : List Text → Option Scan
  | [] => some s
  | arg :: rest =>
    (scanArg surfaceFlags cli passthrough resumeContext s i arg rest).bind fun r => scan r.1 (i + 1 + r.2) (rest.drop r.2)
termination_by args => args.length
decreasing_by
  rw [List.length_drop, List.length_cons]
  omega

/-! ## Results -/

def maxPositionals : ℕ :=
  let contract := UPSTREAM_CLI_CONTRACTS cli
  if resumeContext then contract.resumeMaxPositionals.getD contract.maxPositionals else contract.maxPositionals

/-- Words in a row. -/
def joined (separator : String) : List Text → Text
  | [] => []
  | [t] => t
  | t :: ts => t ++ text separator ++ joined separator ts

/-- The violations of the command line as a whole. -/
def closingViolations (s : Scan) : List ContractViolation :=
  let contract := UPSTREAM_CLI_CONTRACTS cli
  let present (flag : Text) := s.presentFlags.contains flag
  (if maxPositionals cli resumeContext < s.positionals.length then
    [{ cli, message := word cli ++ text " argv has " ++ numeral s.positionals.length ++
      text " positional values; upstream contract allows " ++ numeral (maxPositionals cli resumeContext) }] else []) ++
  (if (s.endOfOptionsPositionals ≠ [] ∨ s.endOfOptions) ∧
      (!contract.allowsEndOfOptionsPrompt ∨ s.endOfOptionsPositionals.length ≠ 1) then
    [{ cli, message := word cli ++ text " argv must place exactly one prompt after an allowed end-of-options boundary" }]
  else []) ++
  ((contract.requiredRequestFlagGroups.filter fun group => !group.any present).map fun group =>
    { cli, message := word cli ++ text " request requires headless flag(s): " ++ joined " or " group }) ++
  (contract.mutuallyExclusiveFlagGroups.filter fun group => 1 < (group.filter present).length).map fun group =>
    { cli, message := word cli ++ text " request flags are mutually exclusive: " ++ joined " and " (group.filter present) }

def resultOf (s : Scan) : ContractValidationResult :=
  let violations := s.violations ++ closingViolations cli resumeContext s
  ⟨violations.isEmpty, violations, if 0 < s.unknownFlagCount then some s.unknownFlagCount else none⟩

end

/-- `validateUpstreamCliArgs`, or `none` where it throws. -/
def validateUpstreamCliArgs (surfaceFlags : SurfaceFlags) (cli : CliType) (args : List Text) (passthrough : Passthrough) :
    Option ContractValidationResult :=
  match (UPSTREAM_CLI_CONTRACTS cli).command with
  | none => (scan surfaceFlags cli passthrough false {} 0 args).map (resultOf cli false)
  | some command =>
    if args.head? ≠ some command.requiredFirstArg then
      let message := word cli ++ text " argv must start with " ++ quoted command.requiredFirstArg
      some ⟨false, [⟨cli, args.head?, some 0, message⟩], none⟩
    else if args.tail.head? = command.optionalSecondArg then
      (scan surfaceFlags cli passthrough true {} 2 (args.drop 2)).map (resultOf cli true)
    else (scan surfaceFlags cli passthrough false {} 1 args.tail).map (resultOf cli false)

end LlmGateway.Upstream
