import LlmGateway.Executor.WindowsCmd
import LlmGateway.Lib.ByteLength

/-!
# How large the input of a provider CLI may be

`cli-input-limits.ts`, with `resolveCommandForSpawn` and the admission in front of the spawn of `spawnCliProcess` (executor.ts).

* `assertCliArgvUtf8Size`, `assertCliProcessInputUtf8Size` — the admission of an argv, and of an argv with its environment;
* `resolveCommandForSpawn`, `admitSpawn` — what is started for a command, and the checks in front of it.

The files that a command is looked up in are a parameter of `admitSpawn`: what the lookup finds, and the extension of that path in
lower case.
-/

namespace LlmGateway.Executor

open Lib Lib.Utf16

def MAX_CLI_ARG_UTF8_BYTES : ℕ := 128 * 1024 - 1
def MAX_CLI_ARGV_UTF8_BYTES_LINUX : ℕ := 1024 * 1024
def MAX_CLI_ARGV_UTF8_BYTES_POSIX : ℕ := 128 * 1024
def MAX_CLI_ARGV_UTF8_BYTES_WINDOWS : ℕ := 30000
def MAX_CLI_ARGV_UTF8_BYTES_WINDOWS_CMD : ℕ := 7500
def MAX_CLI_ENV_UTF8_BYTES_WINDOWS : ℕ := 30000
def MAX_CLI_ARGV_ELEMENTS : ℕ := 2048
def MAX_CLI_PROCESS_ELEMENTS : ℕ := 4096
def CLI_RUNTIME_ENV_HEADROOM_BYTES : ℕ := 32 * 1024
def CLI_WINDOWS_RUNTIME_ENV_HEADROOM_BYTES : ℕ := 4 * 1024

inductive Platform where
  | aix | android | darwin | freebsd | haiku | linux | openbsd | sunos | win32 | cygwin | netbsd
deriving DecidableEq

/-! ## The errors -/

structure CliInputTooLargeError where
  provider : Text
  inputName : Text
  actualUtf8Bytes : Option ℕ
  maxUtf8Bytes : Option ℕ
  message : Text

structure CliInvalidInputError where
  provider : Text
  inputName : Text
  message : Text

inductive CliInputAdmissionError where
  | tooLarge (e : CliInputTooLargeError)
  | invalid (e : CliInvalidInputError)

def tooLargeMessage (provider inputName : Text) (actualUtf8Bytes maxUtf8Bytes : Option ℕ) : Text :=
  let measured := actualUtf8Bytes.elim (text "the platform process limit") fun n => numeral n ++ text " UTF-8 bytes"
  let limit := maxUtf8Bytes.elim [] fun n => text "; maximum " ++ numeral n ++ text " bytes"
  provider ++ text " " ++ inputName ++ text " is too large for the provider CLI argv transport (" ++ measured ++ limit ++
    text "). The gateway will not truncate instructions. Shorten or split the input, or use a verified stdin, ACP, or HTTP provider transport."

def cliInputTooLargeError (provider inputName : Text) (actualUtf8Bytes maxUtf8Bytes : Option ℕ) (message : Option Text) :
    CliInputAdmissionError :=
  .tooLarge ⟨provider, inputName, actualUtf8Bytes, maxUtf8Bytes,
    message.getD (tooLargeMessage provider inputName actualUtf8Bytes maxUtf8Bytes)⟩

def isAlphanumeric (u : UInt16) : Bool := (48 ≤ u && u ≤ 57) || (65 ≤ u && u ≤ 90) || (97 ≤ u && u ≤ 122)

def safeAdmissionLabel (value fallback : Text) : Text :=
  match value with
  | [] => fallback
  | u :: s =>
    if isAlphanumeric u && s.all (fun u => isAlphanumeric u || (text " _./:[]-").contains u) && decide (s.length ≤ 127) then value
    else fallback

def cliInvalidInputError (provider inputName : Text) : CliInputAdmissionError :=
  let safeProvider := safeAdmissionLabel provider (text "provider")
  let safeInputName := safeAdmissionLabel inputName (text "argv input")
  .invalid ⟨safeProvider, safeInputName, safeProvider ++ text " " ++ safeInputName ++
    text " cannot be passed to the provider CLI because it contains an embedded NUL byte. Remove the NUL byte and retry."⟩

/-! ## One argument -/

structure CliInputLimitContext where
  provider : Text
  inputName : Option Text
  maxUtf8Bytes : Option ℕ

abbrev Admission := Except CliInputAdmissionError

def assertCliArgRepresentable (value : Text) (context : CliInputLimitContext) : Admission Unit :=
  if value.contains 0 then .error (cliInvalidInputError context.provider (context.inputName.getD (text "input"))) else .ok ()

def assertCliArgUtf8Size (value : Text) (context : CliInputLimitContext) : Admission Unit := do
  assertCliArgRepresentable value context
  let max := context.maxUtf8Bytes.getD MAX_CLI_ARG_UTF8_BYTES
  if byteLength value ≤ max then .ok ()
  else .error (cliInputTooLargeError context.provider (context.inputName.getD (text "input")) (byteLength value) max none)

/-- A check of each item of a list, with its index. -/
def assertEach {α : Type*} (check : ℕ → α → Admission Unit) (index : ℕ) : List α → Admission Unit
  | [] => .ok ()
  | x :: xs => do
    check index x
    assertEach check (index + 1) xs

/-- `argv[${index}]` -/
def argvName (index : ℕ) : Text := text "argv[" ++ numeral index ++ text "]"

/-! ## Counting -/

def measureCliArgvUtf8Bytes (command : Text) (args : List Text) : ℕ :=
  byteLength command + 1 + (args.map fun argument => byteLength argument + 1).sum

/-- The entries of an environment, those that are undefined among them. -/
abbrev ProcessEnv := List (Text × Option Text)

/-- The entries that are defined. -/
def ProcessEnv.entries (env : ProcessEnv) : List (Text × Text) := env.filterMap fun (key, value) => value.map (key, ·)

def measureCliEnvironmentUtf8Bytes (env : ProcessEnv) : ℕ :=
  (env.entries.map fun (key, value) => byteLength key + 1 + byteLength value + 1).sum

def measureWindowsCliArgvUtf8UpperBound (command : Text) (args : List Text) : ℕ :=
  byteLength command * 2 + 3 + (args.map fun argument => byteLength argument * 2 + 3).sum

def safeAscii (character : Text) : Bool :=
  let codePoint := pointValue character
  (0x30 ≤ codePoint && codePoint ≤ 0x39) || (0x41 ≤ codePoint && codePoint ≤ 0x5a) || (0x61 ≤ codePoint && codePoint ≤ 0x7a) ||
    decide (character <:+: text "_./:=-")

/-- The loop over the characters of an argument; `backslashes` have been read and not yet counted. -/
def preflightOfArgument (backslashes : ℕ) : List Text → ℕ
  | [] => backslashes * 2
  | character :: rest =>
    if character = [92] then preflightOfArgument (backslashes + 1) rest
    else if character = [34] then backslashes * 2 + 3 + preflightOfArgument 0 rest
    else
      backslashes + (if pointValue character ≤ 0x7f then 1 else byteLength character) +
        (if pointValue character ≤ 0x7f ∧ safeAscii character = false then 1 else 0) + preflightOfArgument 0 rest

def wrapperAndResolvedPathHeadroom : ℕ := 1024

def measureWindowsCmdWrapperPreflightUtf8UpperBound (command : Text) (args : List Text) : ℕ :=
  wrapperAndResolvedPathHeadroom + byteLength command * 2 + (args.map fun argument => 5 + preflightOfArgument 0 (points argument)).sum

/-! ## The admission of an argv -/

structure CliArgvLimitContext where
  provider : Text
  platform : Option Platform
  windowsCommandWrapper : Option Bool
  maxUtf8Bytes : Option ℕ
  inputName : Option Text

def maxCliArgvUtf8Bytes (platform : Platform) (windowsCommandWrapper : Bool) : ℕ :=
  if platform = .win32 then
    if windowsCommandWrapper then MAX_CLI_ARGV_UTF8_BYTES_WINDOWS_CMD else MAX_CLI_ARGV_UTF8_BYTES_WINDOWS
  else if platform = .linux ∨ platform = .android then MAX_CLI_ARGV_UTF8_BYTES_LINUX
  else MAX_CLI_ARGV_UTF8_BYTES_POSIX

section
-- `process.platform`
variable (processPlatform : Platform)

/-- The measure that fits the surface, and its limit. -/
def measureForSurface (command : Text) (args : List Text) (context : CliArgvLimitContext) : ℕ × ℕ :=
  let platform := context.platform.getD processPlatform
  let unresolvedWindowsSurface := decide (platform = .win32) && context.windowsCommandWrapper.isNone
  let windowsCommandWrapper := context.windowsCommandWrapper.getD unresolvedWindowsSurface
  (if unresolvedWindowsSurface then measureWindowsCmdWrapperPreflightUtf8UpperBound command args
    else if decide (platform = .win32) && !windowsCommandWrapper then measureWindowsCliArgvUtf8UpperBound command args
    else measureCliArgvUtf8Bytes command args,
  context.maxUtf8Bytes.getD (maxCliArgvUtf8Bytes platform windowsCommandWrapper))

def assertCliArgvUtf8Size (command : Text) (args : List Text) (context : CliArgvLimitContext) : Admission Unit := do
  assertCliArgRepresentable command ⟨context.provider, some (text "command"), none⟩
  assertEach (fun index argument => assertCliArgRepresentable argument ⟨context.provider, some (argvName index), none⟩) 0 args
  let inputName := context.inputName.getD (text "argv aggregate")
  if MAX_CLI_ARGV_ELEMENTS < args.length then
    .error (cliInputTooLargeError context.provider inputName none none (some (context.provider ++ text " " ++ inputName ++
      text " has too many elements for the provider CLI argv transport (" ++ numeral args.length ++ text "; maximum " ++
      numeral MAX_CLI_ARGV_ELEMENTS ++
      text "). Shorten or split the input, or use a verified stdin, ACP, or HTTP provider transport.")))
  else
    let (actual, max) := measureForSurface processPlatform command args context
    if actual ≤ max then .ok () else .error (cliInputTooLargeError context.provider inputName (some actual) (some max) none)

/-- `{ ...inherited, ...overrides }` -/
def mergeEnv (inherited overrides : ProcessEnv) : ProcessEnv :=
  inherited.map (fun (key, value) => (key, (overrides.lookup key).getD value)) ++
    overrides.filter fun (key, _) => !(inherited.map Prod.fst).contains key

/-- One entry of the environment. -/
def assertEnvironmentElement (provider : Text) (entry : Text × Text) : Admission Unit := do
  assertCliArgRepresentable entry.1 ⟨provider, some (text "environment name"), none⟩
  assertCliArgRepresentable entry.2 ⟨provider, some (text "environment value"), none⟩
  assertCliArgUtf8Size (entry.1 ++ text "=" ++ entry.2) ⟨provider, some (text "environment element"), none⟩

def assertCliProcessInputUtf8Size (command : Text) (args : List Text) (envOverrides : ProcessEnv) (context : CliArgvLimitContext)
    (inheritedEnv : ProcessEnv) (reserveRuntimeHeadroom : Bool) : Admission Unit := do
  assertCliArgvUtf8Size processPlatform command args context
  let mergedEnv := mergeEnv inheritedEnv envOverrides
  let entries := mergedEnv.entries
  assertEach (fun _ entry => assertEnvironmentElement context.provider entry) 0 entries
  let aggregate := context.inputName.getD (text "argv and environment aggregate")
  if MAX_CLI_PROCESS_ELEMENTS < args.length + entries.length then
    .error (cliInputTooLargeError context.provider aggregate none none (some (context.provider ++
      text " process input has too many argv and environment elements (" ++ numeral (args.length + entries.length) ++
      text "; maximum " ++ numeral MAX_CLI_PROCESS_ELEMENTS ++
      text "). Shorten or split the input, or use a verified stdin, ACP, or HTTP provider transport.")))
  else if context.platform.getD processPlatform = .win32 then
    let environmentBytes := measureCliEnvironmentUtf8Bytes mergedEnv
    let environmentBudget :=
      MAX_CLI_ENV_UTF8_BYTES_WINDOWS - (if reserveRuntimeHeadroom then CLI_WINDOWS_RUNTIME_ENV_HEADROOM_BYTES else 0)
    if environmentBytes ≤ environmentBudget then .ok ()
    else
      .error (cliInputTooLargeError context.provider (context.inputName.getD (text "environment aggregate"))
        (some environmentBytes) (some environmentBudget) none)
  else
    let max := context.maxUtf8Bytes.getD (maxCliArgvUtf8Bytes (context.platform.getD processPlatform) false)
    let admitted := Nat.max 1 (max - if reserveRuntimeHeadroom then CLI_RUNTIME_ENV_HEADROOM_BYTES else 0)
    let actual := measureCliArgvUtf8Bytes command args + measureCliEnvironmentUtf8Bytes mergedEnv
    if actual ≤ admitted then .ok ()
    else .error (cliInputTooLargeError context.provider aggregate (some actual) (some admitted) none)

end

/-! ## What is started -/

structure ResolvedSpawnCommand where
  command : Text
  args : List Text
  windowsVerbatimArguments : Bool
deriving DecidableEq

section
variable (normalize : Text → Text)

/-- The arguments of cmd.exe for a shim. -/
def shimArgs (resolved : Text) (args : List Text) : List Text :=
  [text "/d", text "/s", text "/c", 34 :: (buildWindowsCmdCommand normalize resolved args ++ [34])]

/-- `resolved` is what the lookup of the command finds, `extension` the extension of that path in lower case. -/
def resolveCommandForSpawn (platform : Platform) (resolved : Option Text) (extension : Text → Text) (command : Text)
    (args : List Text) : ResolvedSpawnCommand :=
  if platform ≠ .win32 then ⟨command, args, false⟩
  else
    match resolved with
    | none => ⟨command, args, false⟩
    | some resolved =>
      if extension resolved = text ".ps1" then
        ⟨text "powershell.exe", [text "-NoProfile", text "-ExecutionPolicy", text "Bypass", text "-File", resolved] ++ args, false⟩
      else if extension resolved = text ".cmd" ∨ extension resolved = text ".bat" then
        ⟨text "cmd.exe", shimArgs normalize resolved args, true⟩
      else ⟨resolved, args, false⟩

/-- The checks of `spawnCliProcess` in front of the spawn; `env` is the environment behind `applySpawnEnvIsolation`. -/
def admitSpawn (platform : Platform) (resolved : Option Text) (extension : Text → Text) (command : Text) (args : List Text)
    (env : ProcessEnv) : Admission ResolvedSpawnCommand := do
  assertCliArgvUtf8Size platform command args ⟨command, some platform, none, none, none⟩
  assertCliProcessInputUtf8Size platform command args env ⟨command, none, none, none, none⟩ [] false
  let spawned := resolveCommandForSpawn normalize platform resolved extension command args
  let context : CliArgvLimitContext := ⟨command, some platform, some spawned.windowsVerbatimArguments, none, none⟩
  assertCliArgvUtf8Size platform spawned.command spawned.args context
  assertCliProcessInputUtf8Size platform spawned.command spawned.args env context [] false
  assertEach (fun index argument => assertCliArgUtf8Size argument ⟨command, some (argvName index), none⟩) 0 spawned.args
  return spawned

end

end LlmGateway.Executor
