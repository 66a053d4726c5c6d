import LlmGateway.Lib.JsValue
import LlmGateway.Lib.PosixPath
import LlmGateway.Lib.Utf8

/-!
# The replay context of a job

`captureJobReplayContext` and `parseJobReplayContext` (job-replay-context.ts), on a platform with POSIX paths.

* `Host` — the answers of the file system and of Git; `Opened` — a file that has been opened, whose reads need not agree with what
  was found out about it before;
* `instructionRuleFiles`, `discoverInstructionSources` — the files that a provider reads its instructions from;
* `parseJobReplayContext` — the reader of a stored context.

SHA-256, the order of names in a directory and the texts of numbers that are not whole or not safe are parameters.
-/

namespace LlmGateway.Replay

open Lib Lib.PosixPath Lib.Utf16 Lib.JsNumber

inductive EntryKind where
  | file
  | dir
  | link
  | other
deriving DecidableEq

structure Dirent where
  name : Name
  kind : EntryKind

/-- `fstatSync` and `readSync` of a descriptor: at most so many bytes from an offset on, or none where the call throws. -/
structure Opened where
  isFile : Bool
  size : ℕ
  read : ℕ → ℕ → Option (List UInt8)
  size_safe : size ≤ safe
  read_le : ∀ offset n bytes, read offset n = some bytes → bytes.length ≤ n

/-- `isFile` is that of `statSync`, and false where it throws; no path that it finds is longer than `PATH_MAX`.  `toplevel` and
`head` are what Git prints, trimmed, where it succeeds. -/
structure Host where
  cwd : Path
  isFile : Path → Bool
  existsSync : Path → Bool
  lstat : Path → Option EntryKind
  readdir : Path → Option (List Dirent)
  openSync : Path → Option Opened
  toplevel : Path → Option Path
  head : Path → Option Text
  path_max : ∀ p, isFile p = true → (Utf8.units p).length ≤ 4096

inductive Provider where
  | claude
  | codex
  | gemini
  | grok
  | mistral
  | devin
  | cursor
  | other
deriving DecidableEq

def HASH_READ_CEILING_BYTES : ℕ := 1024 * 1024
def CODEX_PROJECT_DOC_MAX_BYTES : ℕ := 32 * 1024
def MAX_ANCESTORS : ℕ := 64
def MAX_RULE_FILES : ℕ := 256
def MAX_RULE_DIRECTORIES : ℕ := 512
def MAX_RULE_ENTRIES : ℕ := 4096
def MAX_REPLAY_PATH_CHARS : ℕ := 32 * 1024
def MAX_REPLAY_CONTEXT_CHARS : ℕ := 20 * 1024 * 1024

/-! ## Rule files -/

structure RuleScan where
  pending : List Path
  files : List Path
  directories : ℕ
  entriesSeen : ℕ

/-- The entries of a directory. -/
def scanEntries (current : Path) (s : RuleScan) : List Dirent → RuleScan
  | [] => s
  | e :: es =>
    let s := { s with entriesSeen := s.entriesSeen + 1 }
    if MAX_RULE_FILES ≤ s.files.length ∨ MAX_RULE_ENTRIES < s.entriesSeen then s
    else
      let candidate := joinPaths [current, e.name]
      let s :=
        match e.kind with
        | .dir =>
          if s.pending.length + s.directories < MAX_RULE_DIRECTORIES then { s with pending := s.pending ++ [candidate] } else s
        | .file => { s with files := s.files ++ [candidate] }
        | _ => s
      scanEntries current s es

theorem directories_scanEntries (current : Path) (es : List Dirent) :
    ∀ s, (scanEntries current s es).directories = s.directories := by
  induction es with
  | nil => exact fun _ => rfl
  | cons e es ih =>
    intro s
    rw [scanEntries]
    dsimp only
    split
    · rfl
    · rw [ih]
      split
      · split <;> rfl
      · rfl
      · rfl

section
variable (host : Host) (sortByName : List Dirent → List Dirent)

def scanDirectories (s : RuleScan) : List Path :=
  match s.pending with
  | [] => s.files
  | current :: pending =>
    if _hlimit : s.files.length < MAX_RULE_FILES ∧ s.directories < MAX_RULE_DIRECTORIES ∧ s.entriesSeen < MAX_RULE_ENTRIES then
      let s' : RuleScan := ⟨pending, s.files, s.directories + 1, s.entriesSeen⟩
      match host.readdir current with
      | none => scanDirectories s'
      | some entries => scanDirectories (scanEntries current s' (sortByName entries))
    else s.files
termination_by MAX_RULE_DIRECTORIES - s.directories
decreasing_by
  · show MAX_RULE_DIRECTORIES - (s.directories + 1) < _
    omega
  · rw [directories_scanEntries]
    show MAX_RULE_DIRECTORIES - (s.directories + 1) < _
    omega

def instructionRuleFiles (directory : Path) : List Path := scanDirectories host sortByName ⟨[directory], [], 0, 0⟩

/-! ## Sources -/

/-- The directory and those above it, at most so many. -/
def ancestorsUp : ℕ → Path → List Path
  | 0, _ => []
  | count + 1, current =>
    if current = ['/'] then [current]
    else
      let parent := dirname current
      if parent = current then [current] else current :: ancestorsUp count parent

def ancestorsFromRoot (cwd : Path) : List Path := (ancestorsUp MAX_ANCESTORS (resolve host.cwd cwd)).reverse

def repositoryRoot (cwd : Path) : Option Path :=
  ((host.toplevel cwd).filter isAbsolute).map (resolve host.cwd)

def isHexUnit (u : UInt16) : Bool := (48 ≤ u && u ≤ 57) || (65 ≤ u && u ≤ 70) || (97 ≤ u && u ≤ 102)

def repositoryHead (cwd : Path) : Option Text :=
  ((host.head cwd).filter fun head => decide (40 ≤ head.length ∧ head.length ≤ 64) && head.all isHexUnit).map fun head =>
    head.map fun u => if 65 ≤ u ∧ u ≤ 70 then u + 32 else u

structure InstructionSource where
  path : Path
  effectiveLimitBytes : Option ℕ

/-- The paths that have been seen are those of the sources. -/
def addFile (effectiveLimitBytes : Option ℕ) (sources : List InstructionSource) (candidate : Path) : List InstructionSource :=
  let absolute := resolve host.cwd candidate
  if (sources.any fun s => s.path == absolute) || !host.isFile absolute then sources
  else sources ++ [⟨absolute, effectiveLimitBytes⟩]

def addRules (effectiveLimitBytes : Option ℕ) (sources : List InstructionSource) (candidate : Path) : List InstructionSource :=
  if host.existsSync candidate && host.lstat candidate == some .dir then
    (instructionRuleFiles host sortByName candidate).foldl (addFile host effectiveLimitBytes) sources
  else sources

/-- A path below a directory. -/
def below (directory : Path) (names : List String) : Path := joinPaths (directory :: names.map String.toList)

def globalByProvider (home : Path) : Provider → List Path
  | .claude => [below home [".claude", "CLAUDE.md"]]
  | .codex => [below home [".codex", "AGENTS.md"]]
  | .gemini => [below home [".gemini", "GEMINI.md"]]
  | .grok => [below home [".grok", "AGENTS.md"]]
  | .mistral => [below home [".vibe", "AGENTS.md"]]
  | .devin => [below home [".devin", "AGENTS.md"]]
  | .cursor => [below home [".cursor", "AGENTS.md"]]
  | .other => []

def providerLimit (provider : Provider) : Option ℕ := if provider = .codex then some CODEX_PROJECT_DOC_MAX_BYTES else none

/-- What a provider reads in a directory. -/
def addDirectory (provider : Provider) (sources : List InstructionSource) (directory : Path) : List InstructionSource :=
  match provider with
  | .claude =>
    let sources := [below directory ["CLAUDE.md"], below directory ["CLAUDE.local.md"],
      below directory [".claude", "CLAUDE.md"]].foldl (addFile host none) sources
    addRules host sortByName none sources (below directory [".claude", "rules"])
  | .codex =>
    let override := below directory ["AGENTS.override.md"]
    addFile host (providerLimit .codex) sources (if host.isFile override then override else below directory ["AGENTS.md"])
  | .gemini => addFile host none sources (below directory ["GEMINI.md"])
  | .mistral | .devin =>
    [below directory ["AGENTS.md"], below directory [".agents", "AGENTS.md"]].foldl (addFile host none) sources
  | .cursor =>
    let sources := [below directory [".cursorrules"], below directory ["AGENTS.md"]].foldl (addFile host none) sources
    addRules host sortByName none sources (below directory [".cursor", "rules"])
  | .grok | .other => sources

/-- The directory is the root of the repository, or below it. -/
def isWithin (root candidate : Path) : Bool :=
  let fromRoot := relative root candidate
  fromRoot == [] || (!(['.', '.'].isPrefixOf fromRoot) && !isAbsolute fromRoot)

def discoverInstructionSources (provider : Provider) (cwd : Option Path) (home : Path) : List InstructionSource :=
  let sources := (globalByProvider home provider).foldl (addFile host (providerLimit provider)) []
  match cwd with
  | none | some [] => sources
  | some cwd =>
    let root := repositoryRoot host cwd
    let allAncestors := ancestorsFromRoot host cwd
    let ancestors := root.elim allAncestors fun root => allAncestors.filter (isWithin root)
    if provider = .grok then root.elim sources fun root => addFile host none sources (below root ["GROK.md"])
    else ancestors.foldl (addDirectory host sortByName provider) sources

end

/-! ## Digests -/

inductive InstructionDigestStatus where
  | captured
  | too_large
  | unreadable
deriving DecidableEq

structure JobInstructionDigest where
  path : Text
  sha256 : Option Text
  sourceBytes : Option ℕ
  effectiveBytes : ℕ
  effectiveLimitBytes : Option ℕ
  truncated : Bool
  status : InstructionDigestStatus

structure JobReplayContext where
  instructionFiles : List JobInstructionDigest
  repositoryHead : Option Text

/-- The bytes that are read behind those that are there, up to so many. -/
def readUpTo (file : Opened) (total : ℕ) (bytes : List UInt8) : Option (List UInt8) :=
  if _hmore : bytes.length < total then
    match _hread : file.read bytes.length (total - bytes.length) with
    | none => none
    | some [] => some bytes
    | some (b :: bs) => readUpTo file total (bytes ++ b :: bs)
  else some bytes
termination_by total - bytes.length
decreasing_by
  rw [List.length_append, List.length_cons]
  omega

/-- The smaller one of two limits that may be missing. -/
def effectiveLimit (limit remaining : Option ℕ) : Option ℕ :=
  match remaining, limit with
  | none, limit => limit
  | some r, none => some r
  | some r, some l => some (min l r)

section
variable (sha256 : List UInt8 → Text) (host : Host)

def unreadable (source : InstructionSource) : JobInstructionDigest :=
  ⟨Utf8.units source.path, none, none, 0, source.effectiveLimitBytes, false, .unreadable⟩

/-- The bytes of a file that a provider consumes, where the limits allow them. -/
def allowance (source : InstructionSource) (remaining : Option ℕ) (file : Opened) : ℕ :=
  min file.size ((effectiveLimit source.effectiveLimitBytes remaining).getD file.size)

def digestSource (source : InstructionSource) (remaining : Option ℕ) : JobInstructionDigest :=
  match host.openSync source.path with
  | none => unreadable source
  | some file =>
    let effectiveBytes := allowance source remaining file
    if !file.isFile ∨ HASH_READ_CEILING_BYTES < effectiveBytes then
      ⟨Utf8.units source.path, none, some file.size, effectiveBytes, source.effectiveLimitBytes,
        decide (effectiveBytes < file.size), .too_large⟩
    else
      match readUpTo file effectiveBytes [] with
      | none => unreadable source
      | some bytes =>
        ⟨Utf8.units source.path, some (sha256 bytes), some file.size, bytes.length, source.effectiveLimitBytes,
          decide (bytes.length < file.size), .captured⟩

/-- The digests of all sources; what is left of the budget goes on to the next one. -/
def digestSources : Option ℕ → List InstructionSource → List JobInstructionDigest
  | _, [] => []
  | remaining, source :: sources =>
    let digest := digestSource sha256 host source remaining
    digest :: digestSources (remaining.map fun r => r - digest.effectiveBytes) sources

inductive JobCwdScope where
  | neutral
  | other
deriving DecidableEq

def effectiveCwd (scope : JobCwdScope) (path : Option Path) : Option Path := if scope = .neutral then none else path

def captureJobReplayContext (sortByName : List Dirent → List Dirent) (provider : Provider) (scope : JobCwdScope)
    (path : Option Path) (kitExecutionPresent : Bool) (home : Path) : Option JobReplayContext :=
  if kitExecutionPresent then none
  else
    let cwd := effectiveCwd scope path
    let sources := discoverInstructionSources host sortByName provider cwd home
    some ⟨digestSources sha256 host (providerLimit provider) sources,
      (cwd.filter fun c => !c.isEmpty).bind (repositoryHead host)⟩

end

/-! ## Stored contexts -/

def InstructionDigestStatus.word : InstructionDigestStatus → Text
  | .captured => text "captured"
  | .too_large => text "too_large"
  | .unreadable => text "unreadable"

def numberOrNull (n : Option ℕ) : JsValue := n.elim .null fun n => .number (.finite n)

def textOrNull (s : Option Text) : JsValue := s.elim .null .string

def JobInstructionDigest.members (d : JobInstructionDigest) : JsValue.Members :=
  [(text "path", .string d.path), (text "sha256", textOrNull d.sha256), (text "sourceBytes", numberOrNull d.sourceBytes),
    (text "effectiveBytes", .number (.finite d.effectiveBytes)),
    (text "effectiveLimitBytes", numberOrNull d.effectiveLimitBytes), (text "truncated", .boolean d.truncated),
    (text "status", .string d.status.word)]

def JobReplayContext.toJson (c : JobReplayContext) : JsValue :=
  .object [(text "version", .number (.finite 1)),
    (text "instructionFiles", .array (c.instructionFiles.map fun d => .object d.members)),
    (text "repositoryHead", textOrNull c.repositoryHead)]

/-- A context that has been read: the objects of its files, and the head. -/
structure ParsedContext where
  instructionFiles : List JsValue.Members
  repositoryHead : Option Text

/-- The context as an object. -/
def JobReplayContext.object (c : JobReplayContext) : ParsedContext := ⟨c.instructionFiles.map (·.members), c.repositoryHead⟩

def isNumber : JsValue → Bool
  | .number _ => true
  | _ => false

def isString : JsValue → Bool
  | .string _ => true
  | _ => false

def isNull : JsValue → Bool
  | .null => true
  | _ => false

def isBoolean : JsValue → Bool
  | .boolean _ => true
  | _ => false

/-- The property is there, and of a kind. -/
def hasKind (kind : JsValue → Bool) (name : String) (item : JsValue.Members) : Bool := (JsValue.get name item).any kind

def hasPath (v : JsValue) : Bool :=
  match v with
  | .string p => p.length ≤ MAX_REPLAY_PATH_CHARS && p.head? == some 47
  | _ => false

def isStatus (v : JsValue) : Bool :=
  match v with
  | .string s => [text "captured", text "too_large", text "unreadable"].contains s
  | _ => false

def isInstructionDigest (item : JsValue.Members) : Bool :=
  hasKind hasPath "path" item && hasKind (fun v => isString v || isNull v) "sha256" item &&
    hasKind (fun v => isNumber v || isNull v) "sourceBytes" item && hasKind isNumber "effectiveBytes" item &&
    hasKind (fun v => isNumber v || isNull v) "effectiveLimitBytes" item && hasKind isBoolean "truncated" item &&
    hasKind isStatus "status" item

/-- The objects of the files, where all of them pass the check. -/
def readFiles : List JsValue → Option (List JsValue.Members)
  | [] => some []
  | .object item :: entries => if isInstructionDigest item then (readFiles entries).map (item :: ·) else none
  | _ => none

/-- The commit checked out, which may be `null`. -/
def readHead : Option JsValue → Option (Option Text)
  | some .null => some none
  | some (.string s) => if s.length ≤ 256 then some (some s) else none
  | _ => none

def parseRecord : JsValue → Option ParsedContext
  | .object record =>
    match JsValue.get "version" record, JsValue.get "instructionFiles" record with
    | some (.number (.finite q)), some (.array entries) =>
      if q = 1 ∧ entries.length ≤ MAX_RULE_FILES then
        (readHead (JsValue.get "repositoryHead" record)).bind fun head =>
          (readFiles entries).map fun files => ⟨files, head⟩
      else none
    | _, _ => none
  | _ => none

def parseJobReplayContext (value : Text) : Option ParsedContext :=
  if MAX_REPLAY_CONTEXT_CHARS < value.length then none else (JsValue.parse value).bind parseRecord

end LlmGateway.Replay
