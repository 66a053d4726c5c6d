import LlmGateway.Review.ScopePlan
import Mathlib.Logic.Relation

/-!
# What a plan of a review covers

* `Documented` — what Git says about the history: `parents` gives the parents of a commit, the first one first;
* `Refusal` — the reasons for which there is no plan;
* `Meets` — a computation has a result that is right, or ends in an error that is.
-/

namespace LlmGateway.Review.Plan

open Lib Lib.Utf16

/-! ## Histories -/

/-- `b` is `a` or one of its ancestors. -/
def Reaches (parents : Text → List Text) : Text → Text → Prop :=
  Relation.ReflTransGen fun commit parent => parent ∈ parents commit

/-- The commits of `base..head`. -/
def InRange (parents : Text → List Text) (base head commit : Text) : Prop :=
  Reaches parents head commit ∧ ¬Reaches parents base commit

/-- `HEAD^` is the first parent of `HEAD`, if it has one, and a merge base is an ancestor of both commits. -/
structure Documented (git : Git) (parents : Text → List Text) : Prop where
  head_parent : ∀ {head parent}, resolveCommit git (lit "HEAD") = .ok (some head) → resolveCommit git (lit "HEAD^") = .ok parent →
    parent = (parents head).head?
  merge_base : ∀ {left right output}, git.runGitMaybe [lit "merge-base", left, right] = .ok (some output) →
    Reaches parents left (trimAscii output) ∧ Reaches parents right (trimAscii output)

variable {git : Git} {parents : Text → List Text} {requestedMode : ReviewScopeMode} {requestedBase : Option Text}

variable (git requestedBase) in
/-- The ref with which `HEAD` is compared: the explicit base, or else the default branch. -/
def Selected (selected : BaseRef) : Prop :=
  (do let explicitBase ← resolveExplicitBase git requestedBase; selectBaseRef git explicitBase) = .ok (some selected)

variable (git requestedMode requestedBase) in
/-- The errors of a plan, each with its reason. -/
inductive Refusal : ReviewScopeError → Prop where
  | command {args input e} (h : git.runGit args input = .error e) : Refusal e
  | lookup {args e} (h : git.runGitMaybe args = .error e) : Refusal e
  | invalid_base {ref} (hbase : truthy requestedBase = some ref) (h : isValidRef ref = false) : Refusal (invalidRef (lit "base"))
  | base_not_found {ref sha} (hbase : truthy requestedBase = some ref) (h : resolveCommit git ref = .ok sha)
      (hnone : truthy sha = none) : Refusal (baseNotFound ref)
  | unrelated {selected head} (hselected : Selected git requestedBase selected)
      (hhead : resolveCommit git (lit "HEAD") = .ok (some head))
      (h : git.runGitMaybe [lit "merge-base", selected.sha, head] = .ok none) : Refusal (noMergeBase selected.sha head)
  | head_not_found {head} (hbranch : requestedMode = .branch ∨ (truthy requestedBase).isSome = true)
      (hhead : resolveCommit git (lit "HEAD") = .ok head) (hnone : truthy head = none) : Refusal (headNotFound "Branch")
  | default_branch_not_found (hmode : requestedMode = .branch) (hbase : truthy requestedBase = none)
      (h : resolveDefaultBaseRef git = .ok none) : Refusal defaultBranchNotFound

/-! ## Results and errors -/

def Meets {α : Type} (E : ReviewScopeError → Prop) (Q : α → Prop) : Checked α → Prop
  | .ok a => Q a
  | .error e => E e

namespace Meets

variable {α β : Type} {E : ReviewScopeError → Prop} {Q : α → Prop} {R : β → Prop} {x : Checked α}

theorem bind {f : α → Checked β} (hx : Meets E Q x) (hf : ∀ a, Q a → Meets E R (f a)) : Meets E R (x >>= f) := by
  cases x with
  | error e => exact hx
  | ok a => exact hf a hx

theorem pure {a : α} (h : Q a) : Meets E Q (Pure.pure a) := h

theorem throw {e : ReviewScopeError} (h : E e) : Meets E Q (MonadExcept.throw e) := h

theorem imp {Q' : α → Prop} (hx : Meets E Q x) (h : ∀ a, Q a → Q' a) : Meets E Q' x := by
  cases x with
  | error e => exact hx
  | ok a => exact h a hx

/-- What a computation returns, it returns. -/
theorem and_eq (hx : Meets E Q x) : Meets E (fun a => Q a ∧ x = .ok a) x := by
  cases x with
  | error e => exact hx
  | ok a => exact ⟨hx, rfl⟩

end Meets

/-- A computation of a plan: it ends well, or is refused with a reason. -/
abbrev Ends {α : Type} (git : Git) (requestedMode : ReviewScopeMode) (requestedBase : Option Text) (Q : α → Prop)
    (x : Checked α) : Prop :=
  Meets (Refusal git requestedMode requestedBase) Q x

theorem truthy_eq_some {s : Option Text} {t : Text} (h : truthy s = some t) : s = some t := (Option.filter_eq_some_iff.1 h).1

/-! ## The answers of Git -/

theorem lookup_ends (args : List Text) :
    Ends git requestedMode requestedBase (fun output => git.runGitMaybe args = .ok output) (git.runGitMaybe args) := by
  cases h : git.runGitMaybe args with
  | error e => exact Refusal.lookup h
  | ok output => exact rfl

theorem resolveCommit_ends (ref : Text) :
    Ends git requestedMode requestedBase (fun sha => resolveCommit git ref = .ok sha) (resolveCommit git ref) := by
  have hends : Ends git requestedMode requestedBase (fun _ => True) (resolveCommit git ref) :=
    (lookup_ends _).bind fun _ _ => trivial
  exact hends.and_eq.imp fun _ h => h.2

theorem emptyTreeSha_ends :
    Ends git requestedMode requestedBase (fun sha => emptyTreeSha git = .ok sha) (emptyTreeSha git) := by
  have hends : Ends git requestedMode requestedBase (fun _ => True) (emptyTreeSha git) := by
    refine Meets.bind (Q := fun _ => True) ?_ fun _ _ => trivial
    cases h : git.runGit [lit "hash-object", lit "-t", lit "tree", lit "--stdin"] [] with
    | error e => exact Refusal.command h
    | ok output => exact trivial
  exact hends.and_eq.imp fun _ h => h.2

theorem firstCommit_ends (candidates : List (Option Text)) :
    Ends git requestedMode requestedBase (fun _ => True) (firstCommit git candidates) := by
  induction candidates with
  | nil => exact trivial
  | cons candidate candidates ih =>
    unfold firstCommit
    split
    · exact ih
    · refine (resolveCommit_ends _).bind fun sha _ => ?_
      split
      · exact trivial
      · exact ih

theorem resolveDefaultBaseRef_ends :
    Ends git requestedMode requestedBase (fun base => resolveDefaultBaseRef git = .ok base) (resolveDefaultBaseRef git) := by
  have hends : Ends git requestedMode requestedBase (fun _ => True) (resolveDefaultBaseRef git) :=
    (lookup_ends _).bind fun _ _ => firstCommit_ends _
  exact hends.and_eq.imp fun _ h => h.2

theorem mergeBase_ends (hgit : Documented git parents) {selected : BaseRef} {head : Text}
    (hselected : Selected git requestedBase selected) (hhead : resolveCommit git (lit "HEAD") = .ok (some head)) :
    Ends git requestedMode requestedBase (fun common => Reaches parents selected.sha common ∧ Reaches parents head common)
      (mergeBase git selected.sha head) := by
  refine (lookup_ends _).bind fun output houtput => ?_
  cases output with
  | none => exact Refusal.unrelated hselected hhead houtput
  | some output => exact hgit.merge_base houtput

theorem validateRef_ends {ref : Text} (hbase : truthy requestedBase = some ref) :
    Ends git requestedMode requestedBase (fun base => base = ref) (validateRef ref (lit "base")) := by
  unfold validateRef
  split
  · exact rfl
  · next h => exact Refusal.invalid_base hbase (eq_false_of_ne_true h)

theorem resolveExplicitBase_ends :
    Ends git requestedMode requestedBase
      (fun base => resolveExplicitBase git requestedBase = .ok base ∧ base.isSome = (truthy requestedBase).isSome)
      (resolveExplicitBase git requestedBase) := by
  have hends : Ends git requestedMode requestedBase (fun base => base.isSome = (truthy requestedBase).isSome)
      (resolveExplicitBase git requestedBase) := by
    unfold resolveExplicitBase
    cases hbase : truthy requestedBase with
    | none => exact rfl
    | some ref =>
      refine (validateRef_ends hbase).bind fun base href => ?_
      subst href
      refine (resolveCommit_ends base).bind fun sha hsha => ?_
      cases hnone : truthy sha with
      | none => exact Refusal.base_not_found hbase hsha hnone
      | some sha => exact rfl
  exact hends.and_eq.imp fun _ h => ⟨h.2, h.1⟩

theorem selected_of_explicit {base : BaseRef} (h : resolveExplicitBase git requestedBase = .ok (some base)) :
    Selected git requestedBase base := by
  unfold Selected
  rw [h]
  rfl

theorem selected_iff_of_none (h : resolveExplicitBase git requestedBase = .ok none) (base : BaseRef) :
    Selected git requestedBase base ↔ resolveDefaultBaseRef git = .ok (some base) := by
  unfold Selected
  rw [h]
  rfl

/-! ## The plans -/

variable (git parents requestedMode requestedBase) in
/-- What a plan of a working tree with these records covers. -/
structure Covers (records : List Record) (plan : ScopePlan) : Prop where
  working_tree : records ≠ [] → plan.workingTreeIncluded = true
  unborn : requestedMode = .auto → ∀ {headSha}, resolveCommit git (lit "HEAD") = .ok headSha → truthy headSha = none →
    emptyTreeSha git = .ok plan.baseSha
  base : requestedMode = .auto → ∀ {headSha head}, resolveCommit git (lit "HEAD") = .ok headSha → truthy headSha = some head →
    Reaches parents head plan.baseSha ∨ (parents head = [] ∧ records = [] ∧ emptyTreeSha git = .ok plan.baseSha)
  range : requestedMode = .auto → ∀ {headSha head}, resolveCommit git (lit "HEAD") = .ok headSha → truthy headSha = some head →
    ∀ {selected}, Selected git requestedBase selected → ∀ {commit}, Reaches parents head commit →
      ¬Reaches parents selected.sha commit → InRange parents plan.baseSha head commit

variable {records : List Record}

theorem Selected.unique {base base' : BaseRef} (h : Selected git requestedBase base) (h' : Selected git requestedBase base') :
    base = base' := by
  have heq : some base = some base' := Except.ok.inj (h.symm.trans h')
  exact Option.some.inj heq

/-- **From a merge base**: an ancestor of it is an ancestor of the ref. -/
theorem covers_planFrom {selected : BaseRef} {head common : Text} {headSha : Option Text}
    (hhead : resolveCommit git (lit "HEAD") = .ok headSha) (htruthy : truthy headSha = some head)
    (hselected : Selected git requestedBase selected)
    (hcommon : Reaches parents selected.sha common ∧ Reaches parents head common) :
    Covers git parents requestedMode requestedBase records (planFrom requestedMode selected headSha common) where
  working_tree _ := rfl
  unborn _ headSha' hhead' hnone := by
    obtain rfl := Except.ok.inj (hhead.symm.trans hhead')
    rw [htruthy] at hnone
    cases hnone
  base _ headSha' head' hhead' htruthy' := by
    obtain rfl := Except.ok.inj (hhead.symm.trans hhead')
    obtain rfl := Option.some.inj (htruthy.symm.trans htruthy')
    exact .inl hcommon.2
  range _ headSha' head' hhead' htruthy' selected' hselected' commit hcommit hnew := by
    obtain rfl := hselected.unique hselected'
    exact ⟨hcommit, fun hold => hnew (hcommon.1.trans hold)⟩

theorem branchPlan_ends (hgit : Documented git parents) {explicitBase : Option BaseRef} {headSha : Option Text}
    (hmode : requestedMode = .branch ∨ explicitBase.isSome = true)
    (hexplicit : resolveExplicitBase git requestedBase = .ok explicitBase)
    (hsome : explicitBase.isSome = (truthy requestedBase).isSome) (hhead : resolveCommit git (lit "HEAD") = .ok headSha) :
    Ends git requestedMode requestedBase (Covers git parents requestedMode requestedBase records)
      (branchPlan git requestedMode explicitBase headSha) := by
  unfold branchPlan
  cases htruthy : truthy headSha with
  | none => exact Refusal.head_not_found (hmode.imp id fun h => hsome ▸ h) hhead htruthy
  | some head =>
    have hheadSome : resolveCommit git (lit "HEAD") = .ok (some head) := by rw [hhead, truthy_eq_some htruthy]
    have hplan (selected : BaseRef) (hselected : Selected git requestedBase selected) :
        Ends git requestedMode requestedBase (Covers git parents requestedMode requestedBase records)
          (do let common ← mergeBase git selected.sha head; return planFrom requestedMode selected headSha common) :=
      (mergeBase_ends hgit hselected hheadSome).bind fun common hcommon => covers_planFrom hhead htruthy hselected hcommon
    cases explicitBase with
    | some base => exact hplan base (selected_of_explicit hexplicit)
    | none =>
      refine resolveDefaultBaseRef_ends.bind fun selected hselected => ?_
      cases selected with
      | none =>
        have hbranch : requestedMode = .branch := hmode.resolve_right (by simp)
        have hnone : truthy requestedBase = none := by simpa using hsome
        exact Refusal.default_branch_not_found hbranch hnone hselected
      | some selected => exact hplan selected ((selected_iff_of_none hexplicit selected).2 hselected)

theorem uncommittedPlan_ends (hgit : Documented git parents) (hmode : requestedMode = .uncommitted)
    {explicitBase : Option BaseRef} {headSha : Option Text} (emptyTree : Text) (hexplicit : resolveExplicitBase git requestedBase = .ok explicitBase)
    (hhead : resolveCommit git (lit "HEAD") = .ok headSha) :
    Ends git requestedMode requestedBase (Covers git parents requestedMode requestedBase records)
      (uncommittedPlan git requestedMode explicitBase headSha emptyTree) := by
  subst hmode
  unfold uncommittedPlan
  have hmerge : Ends git .uncommitted requestedBase (fun _ => True)
      (mergeBaseIfAny git (explicitBase.map (·.sha)) (truthy headSha)) := by
    cases explicitBase with
    | none => exact trivial
    | some base =>
      cases htruthy : truthy headSha with
      | none => exact trivial
      | some head =>
        have hheadSome : resolveCommit git (lit "HEAD") = .ok (some head) := by rw [hhead, truthy_eq_some htruthy]
        exact (mergeBase_ends hgit (selected_of_explicit hexplicit) hheadSome).bind fun _ _ => trivial
  refine hmerge.bind fun mergeBaseSha _ => ?_
  exact ⟨fun _ => rfl, nofun, nofun, nofun⟩

/-- **Without a ref**: `HEAD` has nothing that the selected ref has not. -/
theorem localPlan_ends (hgit : Documented git parents) {sha256 : List UInt8 → Text} {state : ReviewWorkingTreeState}
    (hstate : summarizeStatus sha256 (render records) = .ok state) {headSha : Option Text} {head emptyTree : Text}
    (hhead : resolveCommit git (lit "HEAD") = .ok headSha) (htruthy : truthy headSha = some head)
    (htree : emptyTreeSha git = .ok emptyTree)
    (hold : ∀ {selected}, Selected git requestedBase selected → Reaches parents selected.sha head) :
    Ends git .auto requestedBase (Covers git parents .auto requestedBase records) (localPlan git .auto head emptyTree state) := by
  have hheadSome : resolveCommit git (lit "HEAD") = .ok (some head) := by rw [hhead, truthy_eq_some htruthy]
  have hcovers (resolvedMode : ResolvedMode) (baseSha : Text) (included : Bool) (hincluded : records ≠ [] → included = true)
      (hbase : Reaches parents head baseSha ∨ (parents head = [] ∧ records = [] ∧ emptyTreeSha git = .ok baseSha)) :
      Covers git parents .auto requestedBase records (planWithout .auto resolvedMode baseSha (some head) included) := by
    refine ⟨hincluded, fun _ _ hhead' hnone => ?_, fun _ _ _ hhead' htruthy' => ?_,
      fun _ _ _ hhead' htruthy' _ hselected _ hcommit hnew => ?_⟩
    · obtain rfl := Except.ok.inj (hhead.symm.trans hhead')
      rw [htruthy] at hnone
      cases hnone
    · obtain rfl := Except.ok.inj (hhead.symm.trans hhead')
      obtain rfl := Option.some.inj (htruthy.symm.trans htruthy')
      exact hbase
    · obtain rfl := Except.ok.inj (hhead.symm.trans hhead')
      obtain rfl := Option.some.inj (htruthy.symm.trans htruthy')
      exact absurd ((hold hselected).trans hcommit) hnew
  unfold localPlan
  cases hdirty : hasDirtyState state with
  | true => exact hcovers .uncommitted head true (fun _ => rfl) (.inl .refl)
  | false =>
    have hclean : records = [] := by
      by_contra hne
      rw [hasDirtyState_of_ne_nil hstate hne] at hdirty
      cases hdirty
    refine Meets.bind (Q := fun baseSha => Reaches parents head baseSha ∨ (parents head = [] ∧ records = [] ∧
      emptyTreeSha git = .ok baseSha)) ?_ fun baseSha hbase => hcovers .commit baseSha false (fun hne => absurd hclean hne) hbase
    refine (resolveCommit_ends _).bind fun parent hparent => ?_
    have hfirst := hgit.head_parent hheadSome hparent
    cases hparents : parents head with
    | nil =>
      rw [hparents] at hfirst
      subst hfirst
      exact .inr ⟨rfl, hclean, htree⟩
    | cons first rest =>
      rw [hparents] at hfirst
      subst hfirst
      exact .inl (.single (by rw [hparents]; exact List.mem_cons_self))

theorem autoPlan_ends (hgit : Documented git parents) {sha256 : List UInt8 → Text} {state : ReviewWorkingTreeState}
    (hstate : summarizeStatus sha256 (render records) = .ok state) {headSha : Option Text} {emptyTree : Text}
    (hexplicit : resolveExplicitBase git requestedBase = .ok none) (hhead : resolveCommit git (lit "HEAD") = .ok headSha)
    (htree : emptyTreeSha git = .ok emptyTree) :
    Ends git .auto requestedBase (Covers git parents .auto requestedBase records) (autoPlan git .auto headSha emptyTree state) := by
  unfold autoPlan
  cases htruthy : truthy headSha with
  | none =>
    refine ⟨fun _ => rfl, fun _ _ _ _ => htree, fun _ _ _ hhead' htruthy' => ?_, fun _ _ _ hhead' htruthy' => ?_⟩
    all_goals
      obtain rfl := Except.ok.inj (hhead.symm.trans hhead')
      rw [htruthy] at htruthy'
      cases htruthy'
  | some head =>
    have hheadSome : resolveCommit git (lit "HEAD") = .ok (some head) := by rw [hhead, truthy_eq_some htruthy]
    refine resolveDefaultBaseRef_ends.bind fun selected hdefault => ?_
    cases selected with
    | none =>
      refine localPlan_ends hgit hstate hhead htruthy htree fun {selected} hselected => ?_
      rw [selected_iff_of_none hexplicit, hdefault] at hselected
      cases hselected
    | some selected =>
      have hselected := (selected_iff_of_none hexplicit selected).2 hdefault
      refine (mergeBase_ends hgit hselected hheadSome).bind fun common hcommon => ?_
      split
      · have hheadSha := truthy_eq_some htruthy
        rw [← hheadSha]
        exact covers_planFrom hhead htruthy hselected hcommon
      · next hsame =>
        obtain rfl : common = head := not_not.1 hsame
        refine localPlan_ends hgit hstate hhead htruthy htree fun {selected'} hselected' => ?_
        obtain rfl := hselected.unique hselected'
        exact hcommon.1

theorem buildScopePlan_ends (hgit : Documented git parents) (hmode : requestedMode ≠ .commit) {sha256 : List UInt8 → Text}
    {state : ReviewWorkingTreeState} (hstate : summarizeStatus sha256 (render records) = .ok state) :
    Ends git requestedMode requestedBase (Covers git parents requestedMode requestedBase records)
      (buildScopePlan git requestedMode requestedBase state) := by
  unfold buildScopePlan
  refine (resolveCommit_ends _).bind fun headSha hhead => ?_
  refine emptyTreeSha_ends.bind fun emptyTree htree => ?_
  refine resolveExplicitBase_ends.bind fun explicitBase hexplicit => ?_
  obtain ⟨hexplicit, hsome⟩ := hexplicit
  cases requestedMode with
  | commit => exact absurd rfl hmode
  | uncommitted => exact uncommittedPlan_ends hgit rfl emptyTree hexplicit hhead
  | branch => exact branchPlan_ends hgit (.inl rfl) hexplicit hsome hhead
  | auto =>
    cases explicitBase with
    | some base => exact branchPlan_ends hgit (.inr rfl) hexplicit hsome hhead
    | none => exact autoPlan_ends hgit hstate hexplicit hhead htree

/-- **No change is missed.**  The summary is exact where the names are UTF-8 and no former name begins like a record; a name that is
not UTF-8 is refused.  A plan has the working tree if there is a record, and an automatic one the commits that the selected ref has
not; there is no plan only for one of the reasons of `Refusal`. -/
theorem review_scope_covers (git : Git) (parents : Text → List Text) (hgit : Documented git parents) (sha256 : List UInt8 → Text)
    (records : List Record) (requestedMode : ReviewScopeMode) (hmode : requestedMode ≠ .commit) (requestedBase : Option Text) :
    ((∀ r ∈ records, ∀ n ∈ r.names, n.IsUtf8) → (∀ r ∈ records, r.Plain) →
      summarizeStatus sha256 (render records) =
        .ok ⟨records.any Record.staged, records.any Record.unstaged, records.any Record.isUntracked,
          records.countP Record.isUntracked, sha256 (render records)⟩) ∧
    (¬(∀ r ∈ records, ∀ n ∈ r.names, n.IsUtf8) →
      summarizeStatus sha256 (render records) = .error (unsupportedEncoding (lit "Git status path"))) ∧
    ∀ state, summarizeStatus sha256 (render records) = .ok state →
      Ends git requestedMode requestedBase (Covers git parents requestedMode requestedBase records)
        (buildScopePlan git requestedMode requestedBase state) := by
  refine ⟨summarizeStatus_of_plain, fun hutf8 => ?_, fun state hstate => buildScopePlan_ends hgit hmode hstate⟩
  rw [summarizeStatus_render, if_neg hutf8]

/-- A repository in which Git answers from a table. -/
def tableGit (answers : List (List Text × List UInt8)) : Git where
  runGit _ _ := .ok [116, 10]
  runGitMaybe args := .ok (answers.lookup args)

/-- `HEAD` is one commit ahead of `main`. -/
def aheadOfMain : List (List Text × List UInt8) :=
  [(revParse (lit "HEAD"), [99, 10]), (revParse (lit "HEAD^"), [98, 10]), (revParse (lit "refs/heads/main"), [98, 10]),
    ([lit "merge-base", [98], [99]], [98, 10])]

def aheadParents (commit : Text) : List Text := if commit = [99] then [[98]] else []

theorem documented_aheadOfMain : Documented (tableGit aheadOfMain) aheadParents where
  head_parent {head parent} hhead hparent := by
    have hc : resolveCommit (tableGit aheadOfMain) (lit "HEAD") = .ok (some [99]) := by decide +kernel
    have hb : resolveCommit (tableGit aheadOfMain) (lit "HEAD^") = .ok (some [98]) := by decide +kernel
    obtain rfl := Option.some.inj (Except.ok.inj (hc.symm.trans hhead))
    obtain rfl := Except.ok.inj (hb.symm.trans hparent)
    rfl
  merge_base {left right output} h := by
    have hlookup : aheadOfMain.lookup [lit "merge-base", left, right] = some output := Except.ok.inj h
    have hargs : [lit "merge-base", left, right] = [lit "merge-base", [98], [99]] ∧ output = [98, 10] := by
      simp only [aheadOfMain, revParse, List.lookup_cons, List.lookup_nil] at hlookup
      split at hlookup
      · next heq => simp at heq
      · split at hlookup
        · next heq => simp at heq
        · split at hlookup
          · next heq => simp at heq
          · split at hlookup
            · next heq => exact ⟨by simpa using heq, (Option.some.inj hlookup).symm⟩
            · cases hlookup
    obtain ⟨hargs, rfl⟩ := hargs
    obtain ⟨rfl, rfl⟩ : left = [98] ∧ right = [99] := by simpa using hargs
    have htrim : trimAscii [98, 10] = [98] := by decide
    rw [htrim]
    exact ⟨.refl, .single (by decide)⟩

/-- A modified file whose name is `a`. -/
def modifiedRecord : Record := .ordinary ⟨.unmodified, .modified, by decide⟩ ⟨[78], by decide⟩ ⟨[97], by decide⟩

theorem review_scope_covers_aheadOfMain :
    ∃ plan, buildScopePlan (tableGit aheadOfMain) .auto none ⟨false, true, false, 0, []⟩ = .ok plan ∧
      Covers (tableGit aheadOfMain) aheadParents .auto none [modifiedRecord] plan := by
  have hcovers := review_scope_covers (tableGit aheadOfMain) aheadParents documented_aheadOfMain (fun _ => []) [modifiedRecord]
    .auto (by decide) none
  have hstate := hcovers.1 (by decide) (by simp [modifiedRecord, Record.Plain])
  have hplan : Ends (tableGit aheadOfMain) .auto none (Covers (tableGit aheadOfMain) aheadParents .auto none [modifiedRecord])
      (buildScopePlan (tableGit aheadOfMain) .auto none ⟨false, true, false, 0, []⟩) := hcovers.2.2 _ hstate
  have heq : buildScopePlan (tableGit aheadOfMain) .auto none ⟨false, true, false, 0, []⟩ =
      .ok ⟨.auto, .branch, some (lit "refs/heads/main"), [98], some [98], some [99], some [98], true⟩ := by
    decide +kernel
  rw [heq] at hplan
  exact ⟨_, heq, hplan⟩

/-- An untracked file whose name is the byte `FF`. -/
def unnamable : Record := .untracked ⟨[0xFF], by decide⟩

/-- `HEAD` has no parents, and there is no other ref. -/
def rootOnly : List (List Text × List UInt8) := [(revParse (lit "HEAD"), [99, 10])]

theorem documented_rootOnly : Documented (tableGit rootOnly) fun _ => [] where
  head_parent {head parent} _ hparent := by
    have hnone : resolveCommit (tableGit rootOnly) (lit "HEAD^") = .ok none := by decide +kernel
    exact (Except.ok.inj (hnone.symm.trans hparent)).symm
  merge_base {left right output} h := by
    have hlookup : rootOnly.lookup [lit "merge-base", left, right] = some output := Except.ok.inj h
    simp only [rootOnly, revParse, List.lookup_cons, List.lookup_nil] at hlookup
    split at hlookup
    · next heq => simp at heq
    · cases hlookup

/-- The name is refused; a base that is not there leaves no plan; and a root commit is compared with the empty tree. -/
theorem not_every_state_has_a_plan :
    ¬(∀ (sha256 : List UInt8 → Text) (records : List Record), ∃ state, summarizeStatus sha256 (render records) = .ok state ∧
        state.untrackedCount = records.countP Record.isUntracked) ∧
    ¬(∀ (git : Git) (parents : Text → List Text) (requestedBase : Option Text) (state : ReviewWorkingTreeState),
        Documented git parents → ∃ plan, buildScopePlan git .auto requestedBase state = .ok plan) ∧
    ¬(∀ (git : Git) (parents : Text → List Text) (state : ReviewWorkingTreeState) (plan : ScopePlan) (head : Text),
        Documented git parents → resolveCommit git (lit "HEAD") = .ok (some head) → buildScopePlan git .auto none state = .ok plan →
        Reaches parents head plan.baseSha) := by
  refine ⟨fun h => ?_, fun h => ?_, fun h => ?_⟩
  · obtain ⟨state, hstate, -⟩ := h (fun _ => []) [unnamable]
    have herror : summarizeStatus (fun _ => []) (render [unnamable]) = .error (unsupportedEncoding (lit "Git status path")) := by
      decide +kernel
    rw [herror] at hstate
    cases hstate
  · obtain ⟨plan, hplan⟩ := h (tableGit rootOnly) (fun _ => []) (some (lit "x")) ⟨false, false, false, 0, []⟩ documented_rootOnly
    have herror : buildScopePlan (tableGit rootOnly) .auto (some (lit "x")) ⟨false, false, false, 0, []⟩ =
        .error (baseNotFound (lit "x")) := by
      decide +kernel
    rw [herror] at hplan
    cases hplan
  · have hplan : buildScopePlan (tableGit rootOnly) .auto none ⟨false, false, false, 0, []⟩ =
        .ok ⟨.auto, .commit, none, [116], none, some [99], none, false⟩ := by
      decide +kernel
    have hreaches := h (tableGit rootOnly) (fun _ => []) _ _ [99] documented_rootOnly (by decide +kernel) hplan
    cases Relation.ReflTransGen.cases_head hreaches with
    | inl heq => exact absurd heq (by decide)
    | inr hstep =>
      obtain ⟨_, hmem, -⟩ := hstep
      cases hmem

end LlmGateway.Review.Plan
