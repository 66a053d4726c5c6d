import LlmGateway.Review.Status

/-!
# The plan of a review

`buildScopePlan` and what it calls (review-scope.ts).

* `Git` — the commands that are run, with what they print or the error they end in;
* `buildScopePlan` — by the mode: `commitPlan`, `uncommittedPlan`, `branchPlan`, `autoPlan`.

A text that is empty counts as absent where the code tests it; `truthy` says so.
-/

namespace LlmGateway.Review.Plan

open Lib Lib.Utf16

inductive ReviewScopeMode where
  | auto
  | uncommitted
  | branch
  | commit
deriving DecidableEq

inductive ResolvedMode where
  | uncommitted
  | branch
  | commit
deriving DecidableEq

structure ScopePlan where
  requestedMode : ReviewScopeMode
  resolvedMode : ResolvedMode
  baseRef : Option Text
  baseSha : Text
  baseTipSha : Option Text
  headSha : Option Text
  mergeBaseSha : Option Text
  workingTreeIncluded : Bool
deriving DecidableEq

structure Git where
  /-- The output of a command that succeeds. -/
  runGit (args : List Text) (input : List UInt8) : Checked (List UInt8)
  /-- The output of a command, if it succeeds. -/
  runGitMaybe (args : List Text) : Checked (Option (List UInt8))

def truthy (s : Option Text) : Option Text := s.filter fun t => !t.isEmpty

/-! ## Refs -/

def invalidRef (field : Text) : ReviewScopeError :=
  ⟨.invalid_input, field ++ lit " must be a non-empty Git ref that does not start with '-' or contain control separators", []⟩

def isValidRef (ref : Text) : Bool :=
  !ref.isEmpty && !(lit "-").isPrefixOf ref && !ref.contains 0 && !ref.any fun u => u == 0xD || u == 0xA

def validateRef (ref field : Text) : Checked Text := if isValidRef ref then .ok ref else .error (invalidRef field)

/-- `rev-parse --verify --end-of-options` -/
def revParse (ref : Text) : List Text :=
  [lit "rev-parse", lit "--verify", lit "--end-of-options", ref ++ lit "^\x7bcommit\x7d"]

section

variable (git : Git)

def resolveCommit (ref : Text) : Checked (Option Text) := do
  let output ← git.runGitMaybe (revParse ref)
  return output.map trimAscii

def emptyTreeSha : Checked Text := do
  let output ← git.runGit [lit "hash-object", lit "-t", lit "tree", lit "--stdin"] []
  return trimAscii output

structure BaseRef where
  ref : Text
  sha : Text

/-- The first candidate that is a commit. -/
def firstCommit : List (Option Text) → Checked (Option BaseRef)
  | [] => return none
  | candidate :: candidates =>
    match truthy candidate with
    | none => firstCommit candidates
    | some ref => do
      let sha ← resolveCommit git ref
      match truthy sha with
      | some sha => return some ⟨ref, sha⟩
      | none => firstCommit candidates

def resolveDefaultBaseRef : Checked (Option BaseRef) := do
  let symbolic ← git.runGitMaybe [lit "symbolic-ref", lit "--quiet", lit "refs/remotes/origin/HEAD"]
  firstCommit git
    [symbolic.map trimAscii, some (lit "refs/heads/main"), some (lit "refs/remotes/origin/main"), some (lit "refs/heads/master"),
      some (lit "refs/remotes/origin/master")]

def noMergeBase (left right : Text) : ReviewScopeError :=
  ⟨.base_not_found, lit "Base and head have no merge base", [("left", left), ("right", right)]⟩

def mergeBase (left right : Text) : Checked Text := do
  let output ← git.runGitMaybe [lit "merge-base", left, right]
  match output with
  | none => throw (noMergeBase left right)
  | some output => return trimAscii output

/-! ## The explicit base -/

def baseNotFound (ref : Text) : ReviewScopeError := ⟨.base_not_found, lit "Review base ref was not found: " ++ ref, []⟩

/-- The explicit base, with its commit. -/
def resolveExplicitBase (requestedBase : Option Text) : Checked (Option BaseRef) :=
  match truthy requestedBase with
  | none => return none
  | some base => do
    let explicitBase ← validateRef base (lit "base")
    let explicitBaseSha ← resolveCommit git explicitBase
    match truthy explicitBaseSha with
    | none => throw (baseNotFound explicitBase)
    | some sha => return some ⟨explicitBase, sha⟩

/-- The merge base, where both commits are there. -/
def mergeBaseIfAny : Option Text → Option Text → Checked (Option Text)
  | some left, some right => do
    let common ← mergeBase git left right
    return some common
  | _, _ => return none

/-! ## The modes -/

def headNotFound (mode : String) : ReviewScopeError :=
  ⟨.head_not_found, lit mode ++ lit " review requires an existing HEAD commit", []⟩

def defaultBranchNotFound : ReviewScopeError :=
  ⟨.default_branch_not_found, lit "Branch review could not resolve a local default branch ref; pass base explicitly", []⟩

/-- `resolveCommit(context, "HEAD^") ?? emptyTree` -/
def parentOrEmptyTree (emptyTree : Text) : Checked Text := do
  let parentSha ← resolveCommit git (lit "HEAD^")
  return parentSha.getD emptyTree

def commitPlan (requestedMode : ReviewScopeMode) (explicitBase : Option BaseRef) (headSha : Option Text) (emptyTree : Text) :
    Checked ScopePlan :=
  match truthy headSha with
  | none => throw (headNotFound "Commit")
  | some head => do
    let parentSha ← parentOrEmptyTree git emptyTree
    let mergeBaseSha ← mergeBaseIfAny git (explicitBase.map (·.sha)) (some head)
    return {
      requestedMode
      resolvedMode := .commit
      baseRef := explicitBase.map (·.ref)
      baseSha := (explicitBase.map (·.sha)).getD parentSha
      baseTipSha := explicitBase.map (·.sha)
      headSha
      mergeBaseSha
      workingTreeIncluded := false }

def uncommittedPlan (requestedMode : ReviewScopeMode) (explicitBase : Option BaseRef) (headSha : Option Text) (emptyTree : Text) :
    Checked ScopePlan := do
  let mergeBaseSha ← mergeBaseIfAny git (explicitBase.map (·.sha)) (truthy headSha)
  return {
    requestedMode
    resolvedMode := .uncommitted
    baseRef := explicitBase.map (·.ref)
    baseSha := (explicitBase.map (·.sha)).getD (headSha.getD emptyTree)
    baseTipSha := explicitBase.map (·.sha)
    headSha
    mergeBaseSha
    workingTreeIncluded := true }

/-- A review from the merge base of a ref and `HEAD`. -/
def planFrom (requestedMode : ReviewScopeMode) (selected : BaseRef) (headSha : Option Text) (common : Text) : ScopePlan where
  requestedMode
  resolvedMode := .branch
  baseRef := some selected.ref
  baseSha := common
  baseTipSha := some selected.sha
  headSha
  mergeBaseSha := some common
  workingTreeIncluded := true

/-- `explicitBaseSha ? { ref: explicitBase, sha: explicitBaseSha } : resolveDefaultBaseRef(context)` -/
def selectBaseRef : Option BaseRef → Checked (Option BaseRef)
  | some explicitBase => return some explicitBase
  | none => resolveDefaultBaseRef git

def branchPlan (requestedMode : ReviewScopeMode) (explicitBase : Option BaseRef) (headSha : Option Text) : Checked ScopePlan :=
  match truthy headSha with
  | none => throw (headNotFound "Branch")
  | some head => do
    let selected ← selectBaseRef git explicitBase
    match selected with
    | none => throw defaultBranchNotFound
    | some selected =>
      let common ← mergeBase git selected.sha head
      return planFrom requestedMode selected headSha common

/-- A review without a base ref. -/
def planWithout (requestedMode : ReviewScopeMode) (resolvedMode : ResolvedMode) (baseSha : Text) (headSha : Option Text)
    (workingTreeIncluded : Bool) : ScopePlan where
  requestedMode
  resolvedMode
  baseRef := none
  baseSha
  baseTipSha := none
  headSha
  mergeBaseSha := none
  workingTreeIncluded

/-- What is reviewed when nothing has been committed besides the default branch. -/
def localPlan (requestedMode : ReviewScopeMode) (head emptyTree : Text) (state : ReviewWorkingTreeState) : Checked ScopePlan :=
  if hasDirtyState state then return planWithout requestedMode .uncommitted head (some head) true
  else do
    let baseSha ← parentOrEmptyTree git emptyTree
    return planWithout requestedMode .commit baseSha (some head) false

def autoPlan (requestedMode : ReviewScopeMode) (headSha : Option Text) (emptyTree : Text) (state : ReviewWorkingTreeState) :
    Checked ScopePlan :=
  match truthy headSha with
  | none => return planWithout requestedMode .uncommitted emptyTree none true
  | some head => do
    let defaultBase ← resolveDefaultBaseRef git
    match defaultBase with
    | none => localPlan git requestedMode head emptyTree state
    | some defaultBase =>
      let common ← mergeBase git defaultBase.sha head
      if common ≠ head then return planFrom requestedMode defaultBase (some head) common
      else localPlan git requestedMode head emptyTree state

def buildScopePlan (requestedMode : ReviewScopeMode) (requestedBase : Option Text) (state : ReviewWorkingTreeState) :
    Checked ScopePlan := do
  let headSha ← resolveCommit git (lit "HEAD")
  let emptyTree ← emptyTreeSha git
  let explicitBase ← resolveExplicitBase git requestedBase
  match requestedMode, explicitBase with
  | .commit, _ => commitPlan git requestedMode explicitBase headSha emptyTree
  | .uncommitted, _ => uncommittedPlan git requestedMode explicitBase headSha emptyTree
  | .branch, _ => branchPlan git requestedMode explicitBase headSha
  | .auto, some _ => branchPlan git requestedMode explicitBase headSha
  | .auto, none => autoPlan git requestedMode headSha emptyTree state

end

end LlmGateway.Review.Plan
