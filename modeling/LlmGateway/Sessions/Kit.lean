import Mathlib.Algebra.Order.Group.Int
import LlmGateway.Lib.Utf16

/-!
# Kit executions, attempts and bindings

`personal-config-types.ts`, and the pointer keys of `session-manager.ts`.

* `KitExecutionRef`, `KitSessionAttempt`, `KitSessionBinding` — the records, `isKit…` their guards, `cloneKit…` the
  detached copies; `none` is a TypeError;
* `kitExecutionIdentity`, `kitActiveSessionKey`, `kitScopeKey` — the texts that stand for an execution and for a pointer.

`dateParse` is the engine's `Date.parse`, `none` its NaN.
-/

namespace LlmGateway.Sessions.Kit

open LlmGateway.Lib Utf16

/-- White space and line terminators; all of them are single code units. -/
def isSpace (u : UInt16) : Bool :=
  (0x9 ≤ u && u ≤ 0xD) || u == 0x20 || u == 0xA0 || u == 0x1680 || (0x2000 ≤ u && u ≤ 0x200A) || u == 0x2028 ||
    u == 0x2029 || u == 0x202F || u == 0x205F || u == 0x3000 || u == 0xFEFF

/-- `value.trim().length > 0` -/
def isNonEmptyString (value : Text) : Bool := value.any fun u => !isSpace u

/-- Its `version` is always 1. -/
structure KitExecutionRef where
  releaseId : Text
  configStamp : Text
  scopeRoot : Option Text
  scopeHead : Option Text
  contextIdentity : Text
deriving DecidableEq

inductive AttemptKind where
  | durable
  | direct
deriving DecidableEq

structure KitSessionAttempt where
  id : Text
  kind : AttemptKind
  acquiredAt : Text
  expiresAt : Text
  expectedNativeSessionId : Option Text
deriving DecidableEq

structure KitSessionBinding where
  execution : KitExecutionRef
  nativeSessionId : Option Text
  resumeEligible : Bool
  attempt : Option KitSessionAttempt
deriving DecidableEq

/-! ## Guards and copies -/

def isHexDigit (u : UInt16) : Bool := (48 ≤ u && u ≤ 57) || (65 ≤ u && u ≤ 70) || (97 ≤ u && u ≤ 102)

/-- The groups of a UUID; the third and the fourth begin with the version and the variant. -/
def isKitNativeSessionId (value : Text) : Bool :=
  value.length = 36 &&
    value.zipIdx.all fun x =>
      if x.2 = 8 ∨ x.2 = 13 ∨ x.2 = 18 ∨ x.2 = 23 then x.1 == 45
      else if x.2 = 14 then 49 ≤ x.1 && x.1 ≤ 56
      else if x.2 = 19 then x.1 == 56 || x.1 == 57 || x.1 == 65 || x.1 == 66 || x.1 == 97 || x.1 == 98
      else isHexDigit x.1

variable (dateParse : Text → Option ℤ)

def isKitSessionAttempt (value : KitSessionAttempt) : Bool :=
  isNonEmptyString value.id &&
    (match dateParse value.acquiredAt, dateParse value.expiresAt with
      | some acquiredAt, some expiresAt => decide (acquiredAt < expiresAt)
      | _, _ => false) &&
    value.expectedNativeSessionId.all isKitNativeSessionId

def cloneKitSessionAttempt (value : KitSessionAttempt) : Option KitSessionAttempt :=
  if isKitSessionAttempt dateParse value then some { value with expectedNativeSessionId := none } else none

def isKitSessionAttemptActive (attempt : KitSessionAttempt) (now : ℤ) : Bool :=
  match dateParse attempt.expiresAt with
  | some expiresAt => decide (now < expiresAt)
  | none => false

def isKitExecutionRef (value : KitExecutionRef) : Bool :=
  isNonEmptyString value.releaseId && isNonEmptyString value.configStamp && value.scopeRoot.all isNonEmptyString &&
    value.scopeHead.all isNonEmptyString && isNonEmptyString value.contextIdentity

def isKitSessionBinding (value : KitSessionBinding) : Bool :=
  isKitExecutionRef value.execution && value.nativeSessionId.all isKitNativeSessionId &&
    value.attempt.all (isKitSessionAttempt dateParse)

def cloneKitSessionBinding (value : KitSessionBinding) : Option KitSessionBinding :=
  if isKitSessionBinding dateParse value then
    some {
      execution := value.execution
      nativeSessionId := none
      resumeEligible := false
      attempt := value.attempt.map fun attempt => { attempt with expectedNativeSessionId := none } }
  else none

/-- What a clone looks like: no native session, not to be resumed, and a valid attempt or none. -/
structure Canonical (binding : KitSessionBinding) : Prop where
  execution : isKitExecutionRef binding.execution = true
  nativeSessionId : binding.nativeSessionId = none
  resumeEligible : binding.resumeEligible = false
  attempt : ∀ a, binding.attempt = some a → isKitSessionAttempt dateParse a = true ∧ a.expectedNativeSessionId = none

section Canonical

variable {dateParse} {a a' : KitSessionAttempt} {b c : KitSessionBinding}

theorem isKitSessionAttempt_clone (h : isKitSessionAttempt dateParse a = true) :
    isKitSessionAttempt dateParse { a with expectedNativeSessionId := none } = true := by
  unfold isKitSessionAttempt at h ⊢
  simp only [Bool.and_eq_true] at h ⊢
  exact ⟨h.1, rfl⟩

theorem cloneKitSessionAttempt_eq_some (h : cloneKitSessionAttempt dateParse a = some a') :
    isKitSessionAttempt dateParse a' = true ∧ a' = { a with expectedNativeSessionId := none } := by
  unfold cloneKitSessionAttempt at h
  split at h
  · rename_i ha
    cases h
    exact ⟨isKitSessionAttempt_clone ha, rfl⟩
  · cases h

theorem canonical_clone (h : cloneKitSessionBinding dateParse b = some c) :
    Canonical dateParse c ∧ c.execution = b.execution := by
  unfold cloneKitSessionBinding at h
  split at h
  · rename_i hb
    cases h
    simp only [isKitSessionBinding, Bool.and_eq_true] at hb
    refine ⟨⟨hb.1.1, rfl, rfl, fun a ha => ?_⟩, rfl⟩
    obtain ⟨a₀, ha₀, rfl⟩ := Option.map_eq_some_iff.1 ha
    have hvalid := hb.2
    rw [ha₀] at hvalid
    exact ⟨isKitSessionAttempt_clone hvalid, rfl⟩
  · cases h

theorem Canonical.isKitSessionBinding (h : Canonical dateParse b) : isKitSessionBinding dateParse b = true := by
  have hattempt : b.attempt.all (isKitSessionAttempt dateParse) = true := by
    cases ha : b.attempt with
    | none => rfl
    | some a => exact (h.attempt a ha).1
  simp [Kit.isKitSessionBinding, h.execution, h.nativeSessionId, hattempt]

theorem Canonical.clone (h : Canonical dateParse b) : cloneKitSessionBinding dateParse b = some b := by
  have hattempt : (b.attempt.map fun a => { a with expectedNativeSessionId := none }) = b.attempt := by
    cases ha : b.attempt with
    | none => rfl
    | some a =>
      have hnone := (h.attempt a ha).2
      cases a
      simp only at hnone
      subst hnone
      rfl
  have hn := h.nativeSessionId
  have hr := h.resumeEligible
  rw [cloneKitSessionBinding, if_pos h.isKitSessionBinding, hattempt]
  cases b
  simp only at hn hr
  rw [hn, hr]

/-- The binding stays canonical under another valid attempt. -/
theorem Canonical.withAttempt (h : Canonical dateParse b) {attempt : Option KitSessionAttempt}
    (ha : ∀ a, attempt = some a → isKitSessionAttempt dateParse a = true ∧ a.expectedNativeSessionId = none) :
    Canonical dateParse { b with attempt := attempt } :=
  ⟨h.execution, h.nativeSessionId, h.resumeEligible, ha⟩

end Canonical

/-! ## Identities and keys -/

/-- An item of an identity. -/
inductive Item where
  | version
  | null
  | text (value : Text)

def Item.json : Item → Text
  | version => [49]
  | null => Utf16.text "null"
  | text value => quote value

def Item.ofOption : Option Text → Item
  | none => null
  | some value => text value

/-- `JSON.stringify` of the fields of an execution. -/
def executionJson (value : KitExecutionRef) : Text :=
  jsonArray Item.json [.version, .text value.releaseId, .text value.configStamp, .ofOption value.scopeRoot,
    .ofOption value.scopeHead, .text value.contextIdentity]

def kitExecutionIdentity (value : KitExecutionRef) : Option Text :=
  if isKitExecutionRef value then some (executionJson value) else none

def sameKitExecutionRef (left right : KitExecutionRef) : Option Bool := do
  let left ← kitExecutionIdentity left
  let right ← kitExecutionIdentity right
  return left = right

/-- `JSON.stringify([identity, ownerPrincipal])`, of a valid execution. -/
def pointerJson (execution : KitExecutionRef) (ownerPrincipal : Text) : Text :=
  jsonArray quote [executionJson execution, ownerPrincipal]

def kitActiveSessionKey (scopeRoot : Option Text) (execution : KitExecutionRef) (ownerPrincipal : Text) : Option Text :=
  if execution.scopeRoot ≠ scopeRoot ∨ !isNonEmptyString ownerPrincipal ∨ !isKitExecutionRef execution then none
  else some (pointerJson execution ownerPrincipal)

/-- `kitScopeKey` of a scope root alone. -/
def rootScopeKey (scopeRoot : Option Text) : Text := (Item.ofOption scopeRoot).json

/-- `kitScopeKey` of a scope root, a stamp and a principal. -/
def kitScopeKey (scopeRoot : Option Text) (configStamp ownerPrincipal : Text) : Text :=
  jsonArray Item.json [.ofOption scopeRoot, .text configStamp, .text ownerPrincipal]

/-- The key of a pointer in the file, or one of its two older encodings, for a validated binding and its owner. -/
def canonicalizeKitActiveSessionPointerKey (sourceKey : Text) (execution : KitExecutionRef) (ownerPrincipal : Text) :
    Option Text := do
  let canonicalKey ← kitActiveSessionKey execution.scopeRoot execution ownerPrincipal
  if sourceKey = canonicalKey ∨ sourceKey = kitScopeKey execution.scopeRoot execution.configStamp ownerPrincipal then
    some canonicalKey
  else if ownerPrincipal = text "local" ∧ sourceKey = rootScopeKey execution.scopeRoot then some canonicalKey
  else none

/-! ## Identities are exact -/

theorem selfDelimiting_item : SelfDelimiting Item.json := by
  intro a b r r' h
  cases a with
  | version =>
    cases b with
    | version => exact ⟨rfl, (List.cons.inj h).2⟩
    | null | text t => exact absurd (List.cons.inj h).1 (by decide)
  | null =>
    cases b with
    | version => exact absurd (List.cons.inj h).1 (by decide)
    | null => exact ⟨rfl, List.append_cancel_left h⟩
    | text t => exact absurd (List.cons.inj h).1 (by decide)
  | text s =>
    cases b with
    | version | null => exact absurd (List.cons.inj h).1 (by decide)
    | text t =>
      obtain ⟨rfl, hr⟩ := selfDelimiting_quote s t r r' h
      exact ⟨rfl, hr⟩

theorem head_item (a : Item) : ∃ c t, a.json = c :: t ∧ c ≠ 93 := by
  cases a with
  | version => exact ⟨49, _, rfl, by decide⟩
  | null => exact ⟨110, _, rfl, by decide⟩
  | text s => exact ⟨34, _, rfl, by decide⟩

theorem Item.ofOption_inj {a b : Option Text} (h : Item.ofOption a = Item.ofOption b) : a = b := by
  cases a <;> cases b <;> simp_all [Item.ofOption]

theorem executionJson_inj {a b : KitExecutionRef} (h : executionJson a = executionJson b) : a = b := by
  have hitems := (selfDelimiting_jsonArray selfDelimiting_item head_item).injective h
  obtain ⟨r, s, o, p, c⟩ := a
  obtain ⟨r', s', o', p', c'⟩ := b
  simp only [List.cons.injEq, Item.text.injEq, true_and, and_true] at hitems
  obtain ⟨rfl, rfl, ho, hp, rfl⟩ := hitems
  rw [Item.ofOption_inj ho, Item.ofOption_inj hp]

theorem sameKitExecutionRef_eq_some {a b : KitExecutionRef} {r : Bool} (h : sameKitExecutionRef a b = some r) :
    r = decide (a = b) := by
  unfold sameKitExecutionRef kitExecutionIdentity at h
  split at h
  · split at h
    · simp only [Option.bind_eq_bind, Option.bind_some, Option.pure_def, Option.some.injEq] at h
      rw [← h]
      exact decide_eq_decide.2 ⟨executionJson_inj, congrArg _⟩
    · cases h
  · cases h

theorem kitActiveSessionKey_eq_some {scopeRoot : Option Text} {e : KitExecutionRef} {o key : Text} :
    kitActiveSessionKey scopeRoot e o = some key ↔
      e.scopeRoot = scopeRoot ∧ isNonEmptyString o = true ∧ isKitExecutionRef e = true ∧ pointerJson e o = key := by
  unfold kitActiveSessionKey
  split
  · rename_i h
    constructor
    · intro hn
      cases hn
    · rintro ⟨hs, ho, he, _⟩
      simp [hs, ho, he] at h
  · rename_i h
    simp only [ne_eq, Bool.not_eq_true', not_or, not_not, Bool.not_eq_false] at h
    simp [h.1, h.2.1, h.2.2]

end LlmGateway.Sessions.Kit
