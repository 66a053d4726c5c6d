import LlmGateway.Lib.FileTree
import Mathlib.Algebra.GroupWithZero.Nat

/-!
# The registry of workspaces

The checks of paths of `workspace-registry.ts`.

* `realExistingPath`, `assertNotDeniedPath` — the real path of something that exists, none of its components denied;
* `validatePathInsideWorkspace` — a path that a remote caller gives for a workspace;
* `isProviderWorkspacePath` — whether the nearest registration around a directory lists a provider.

The directory that the process runs in is a parameter of the last one.
-/

namespace LlmGateway.Workspace

open Lib Lib.PosixPath

variable {ι β : Type*}

inductive CliType where
  | claude | codex | gemini | grok | mistral | devin | cursor
deriving DecidableEq

structure WorkspaceRepo where
  alias' : List Char
  path : Path
  providers : List CliType
  allowAddDir : Bool

structure EffectiveWorkspace where
  alias' : List Char
  root : Path
  repo : WorkspaceRepo

inductive PathPolicy where
  | workingDir
  | addDir
deriving DecidableEq

def PathPolicy.text : PathPolicy → List Char
  | .workingDir => "workingDir".toList
  | .addDir => "addDir".toList

/-- What a check throws: an error of the registry, or one of the file system. -/
inductive Failure where
  | registry (message : List Char)
  | errno (code : Errno)
deriving DecidableEq

def DENIED_NAMES : List Name :=
  [".llm-cli-gateway".toList, ".ssh".toList, ".aws".toList, ".azure".toList, ".config".toList, ".gnupg".toList, ".kube".toList,
    ".password-store".toList]

def assertNotDeniedPath (realPath : Path) : Except Failure Unit :=
  match ((split realPath).filter fun n => !n.isEmpty).find? fun n => DENIED_NAMES.contains n with
  | some name => .error (.registry ("Workspace path targets denied directory \"".toList ++ name ++ ['"']))
  | none => .ok ()

def realExistingPath (t : FileTree ι β) (p : Path) : Except Failure Path :=
  if isAbsolute p = false then .error (.registry ("Workspace path must be absolute: ".toList ++ p))
  else if t.existsSync p = false then .error (.registry ("Workspace path does not exist: ".toList ++ p))
  else
    match t.realpathSync p with
    | .error code => .error (.errno code)
    | .ok real => (assertNotDeniedPath real).map fun _ => real

def isUnder (parent child : Path) : Bool :=
  let rel := relative parent child
  rel == [] || (!rel.isEmpty && !dotdot.isPrefixOf rel && !isAbsolute rel)

def validatePathInsideWorkspace (t : FileTree ι β) (workspace : EffectiveWorkspace) (candidate : Path) (policy : PathPolicy) :
    Except Failure Path :=
  if isAbsolute candidate = true ∧ policy = .workingDir then
    .error (.registry "Absolute workingDir is not allowed for remote workspaces".toList)
  else if isAbsolute candidate = true ∧ policy = .addDir ∧ workspace.repo.allowAddDir = false then
    .error (.registry "Absolute addDir is not allowed for this workspace".toList)
  else
    match realExistingPath t (if isAbsolute candidate then candidate else joinPaths [workspace.root, candidate]) with
    | .error e => .error e
    | .ok resolved =>
      if isUnder workspace.root resolved = false then
        .error (.registry (policy.text ++ " must stay inside workspace \"".toList ++ workspace.alias' ++ ['"']))
      else .ok resolved

/-! ## The nearest registration -/

/-- `length` of a text: a character outside the basic plane takes two code units. -/
def textLength (p : Path) : ℕ := (p.map fun c => if c.toNat < 0x10000 then 1 else 2).sum

structure Nearest where
  root : Path
  providers : List CliType
  withheld : Bool

/-- One registration in turn; `root` is the real path of its directory, where that can be resolved. -/
def consider (provider : CliType) (candidate : Path) (nearest : Option Nearest) (root : Except Errno Path)
    (providers : List CliType) : Option Nearest :=
  match root with
  | .error _ => nearest
  | .ok root =>
    if isUnder root candidate = false then nearest
    else
      let allows := providers.contains provider
      match nearest with
      | none => some ⟨root, providers, !allows⟩
      | some found =>
        if textLength found.root < textLength root then some ⟨root, providers, !allows⟩
        else if root = found.root ∧ allows = false then some ⟨root, providers, true⟩
        else some found

def isProviderWorkspacePath (t : FileTree ι β) (processCwd : Path) (repos : List WorkspaceRepo) (provider : CliType) (cwd : Path) :
    Bool :=
  match t.realpathSync (resolve processCwd cwd) with
  | .error _ => false
  | .ok candidate =>
    match repos.foldl (fun nearest repo =>
        consider provider candidate nearest (t.realpathSync (resolve processCwd repo.path)) repo.providers) none with
    | none => false
    | some nearest => !nearest.withheld && nearest.providers.contains provider

end LlmGateway.Workspace
