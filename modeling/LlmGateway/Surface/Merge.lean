import Mathlib.Data.Finset.Basic
import Mathlib.Data.Finset.Dedup
import Mathlib.Data.List.Sort
import Mathlib.Data.List.Induction
import LlmGateway.Lib.JsMap

/-!
# Merging provider surfaces

`resolveProviderSurface` merges the inputs of five sources into one surface per provider, and `resolveWithSkips` does so with the
sources that could be loaded.  A provider's share of the merge is a fold of `mergeEntry` over what the inputs say of that provider
(`held_resolve`), so what follows is about one provider.
-/

namespace LlmGateway.Surface

open LlmGateway.Lib

inductive SurfaceSourceName
  | retained | seed | pack | discovery | overlay
  deriving DecidableEq, Repr

/-- Applied in this order. -/
def SURFACE_PRECEDENCE : List SurfaceSourceName := [.retained, .seed, .pack, .discovery, .overlay]

inductive Arity
  | none | one
  deriving DecidableEq, Repr

structure SurfaceFlagInput where
  flag : String
  arity : Option Arity
  values : Option (List String)
  deriving DecidableEq, Repr

/-- What one input says of one provider; an absent refused list is the empty one. -/
structure SurfaceProviderInput where
  cli : String
  commandScope : List String
  flags : List SurfaceFlagInput
  refused : List String
  deriving DecidableEq, Repr

structure SurfaceInput where
  name : SurfaceSourceName
  providers : List SurfaceProviderInput
  deriving DecidableEq, Repr

structure SurfaceFlag where
  flag : String
  arity : Option Arity
  values : Option (List String)
  sources : List SurfaceSourceName
  factsFrom : SurfaceSourceName
  deriving DecidableEq, Repr

structure ProviderSurface where
  cli : String
  commandScope : List String
  flags : List SurfaceFlag
  sources : List SurfaceSourceName
  deriving DecidableEq, Repr

structure Skipped where
  name : SurfaceSourceName
  reason : String
  deriving DecidableEq, Repr

structure SurfaceResolution where
  providers : List ProviderSurface
  skipped : List Skipped
  deriving DecidableEq, Repr

def orderInputs (inputs : List SurfaceInput) : List SurfaceInput :=
  SURFACE_PRECEDENCE.flatMap fun name =>
    let matching := inputs.filter fun input => input.name = name
    if matching = [] then [] else [⟨name, matching.flatMap fun input => input.providers⟩]

def mergeFlag (previous : Option SurfaceFlag) (incoming : SurfaceFlagInput) (source : SurfaceSourceName) : SurfaceFlag :=
  match previous with
  | none => ⟨incoming.flag, incoming.arity, incoming.values, [source], source⟩
  | some previous =>
    -- a source that names a flag without describing it has refined nothing
    let refines := incoming.arity.isSome || incoming.values.isSome
    { flag := previous.flag
      arity := incoming.arity.or previous.arity
      values := incoming.values.or previous.values
      sources := if source ∈ previous.sources then previous.sources else previous.sources ++ [source]
      factsFrom := if refines then source else previous.factsFrom }

/-- A provider of the merge: the surface without its flags, and the flags. -/
structure Held where
  entry : ProviderSurface
  flags : JsMap String SurfaceFlag

/-- A provider's share of the merge. -/
structure Share where
  existing : Option Held
  refused : Finset String

def Share.start : Share := ⟨none, ∅⟩

/-! ### One entry -/

section Entry

variable (st : Share) (name : SurfaceSourceName) (provider : SurfaceProviderInput)

def refusedHere : Finset String := st.refused ∪ provider.refused.toFinset

def incomingLive : ℕ := (provider.flags.filter fun flag => flag.flag ∉ refusedHere st provider).length

def existingLive : ℕ :=
  match st.existing with
  | none => 0
  | some h => ((h.flags.rows.map Prod.fst).filter fun flag => flag ∉ refusedHere st provider).length

/-- The source describes another command than the surface. -/
def scopeConflict : Bool :=
  match st.existing with
  | none => false
  | some h =>
    0 < existingLive st provider && 0 < incomingLive st provider && h.entry.commandScope != provider.commandScope

def mergedScope : List String :=
  match st.existing with
  | none => provider.commandScope
  | some h =>
    if 0 < existingLive st provider ∧ incomingLive st provider = 0 then h.entry.commandScope else provider.commandScope

def mergedFlags : JsMap String SurfaceFlag :=
  provider.flags.foldl (fun flags flag => flags.set flag.flag (mergeFlag (flags.get flag.flag) flag name))
    (match st.existing with
    | none => Table.empty
    | some h => h.flags)

def mergedSources : List SurfaceSourceName :=
  match st.existing with
  | none => [name]
  | some h => if name ∈ h.entry.sources then h.entry.sources else h.entry.sources ++ [name]

def mergedHeld : Held where
  entry := ⟨provider.cli, mergedScope st provider, [], mergedSources st name⟩
  flags := mergedFlags st name provider

/-- Merge one entry into its provider's share, unless it describes another command.  Only the floor may refuse. -/
def mergeEntry : Share :=
  if scopeConflict st provider then st
  else ⟨some (mergedHeld st name provider), if name = .retained then refusedHere st provider else st.refused⟩

end Entry

/-! ### The merge -/

structure Merge where
  providers : JsMap String Held
  refused : JsMap String (Finset String)
  scopeConflicts : List Skipped

def Merge.start : Merge := ⟨Table.empty, Table.empty, []⟩

def Merge.share (m : Merge) (cli : String) : Share := ⟨m.providers.get cli, (m.refused.get cli).getD ∅⟩

def conflictReason (st : Share) (provider : SurfaceProviderInput) : String :=
  provider.cli ++ ": source describes command [" ++ String.intercalate " " provider.commandScope ++ "] but the surface is [" ++
    String.intercalate " " (st.existing.elim [] fun h => h.entry.commandScope) ++ "]"

def Merge.add (m : Merge) (entry : SurfaceSourceName × SurfaceProviderInput) : Merge :=
  let st := m.share entry.2.cli
  if scopeConflict st entry.2 then
    { m with scopeConflicts := m.scopeConflicts ++ [⟨entry.1, conflictReason st entry.2⟩] }
  else
    { m with
      providers := m.providers.set entry.2.cli (mergedHeld st entry.1 entry.2)
      -- a set is made for the first flag that is refused
      refused :=
        if entry.1 = .retained ∧ entry.2.refused ≠ [] then m.refused.set entry.2.cli (refusedHere st entry.2) else m.refused }

/-- What the inputs say, entry by entry, in the order in which it is merged. -/
def entries (inputs : List SurfaceInput) : List (SurfaceSourceName × SurfaceProviderInput) :=
  (orderInputs inputs).flatMap fun input => input.providers.map fun provider => (input.name, provider)

def mergeInputs (inputs : List SurfaceInput) : Merge := (entries inputs).foldl Merge.add Merge.start

section Resolve

variable (localeCompare : String → String → Ordering)

def flagOrder (a b : SurfaceFlag) : Prop := (localeCompare a.flag b.flag).isLE = true

instance : DecidableRel (flagOrder localeCompare) := fun a b => inferInstanceAs (Decidable ((localeCompare a.flag b.flag).isLE = true))

def cliOrder (a b : ProviderSurface) : Prop := (localeCompare a.cli b.cli).isLE = true

instance : DecidableRel (cliOrder localeCompare) := fun a b => inferInstanceAs (Decidable ((localeCompare a.cli b.cli).isLE = true))

def surfaceOfHeld (m : Merge) (h : Held) : ProviderSurface :=
  { h.entry with
    flags := (h.flags.values.filter fun flag => flag.flag ∉ (m.share h.entry.cli).refused).insertionSort (flagOrder localeCompare) }

def resolveProviderSurface (inputs : List SurfaceInput) : SurfaceResolution :=
  let m := mergeInputs inputs
  { providers := (m.providers.values.map (surfaceOfHeld localeCompare m)).insertionSort (cliOrder localeCompare)
    skipped := m.scopeConflicts }

/-- A source that is offered: its name, and what loading it gives. -/
structure Offered where
  name : SurfaceSourceName
  load : Except String SurfaceInput

/-- The loop of `resolveWithSkips`: the inputs that could be loaded, under the names they were offered with, and the others. -/
def loadOffered : List Offered → List SurfaceInput × List Skipped
  | [] => ([], [])
  | source :: rest =>
    match source.load with
    | .ok input => ({ input with name := source.name } :: (loadOffered rest).1, (loadOffered rest).2)
    | .error reason => ((loadOffered rest).1, ⟨source.name, reason⟩ :: (loadOffered rest).2)

def resolveWithSkips (offered : List Offered) : SurfaceResolution :=
  let resolution := resolveProviderSurface localeCompare (loadOffered offered).1
  { resolution with skipped := (loadOffered offered).2 ++ resolution.skipped }

end Resolve

/-! ### A provider's share of the merge -/

/-- What the inputs say of one provider. -/
def entriesFor (inputs : List SurfaceInput) (cli : String) : List (SurfaceSourceName × SurfaceProviderInput) :=
  (entries inputs).filter fun entry => entry.2.cli = cli

def mergeEntries (es : List (SurfaceSourceName × SurfaceProviderInput)) : Share :=
  es.foldl (fun st entry => mergeEntry st entry.1 entry.2) Share.start

theorem mergeEntries_concat (es : List (SurfaceSourceName × SurfaceProviderInput)) (e : SurfaceSourceName × SurfaceProviderInput) :
    mergeEntries (es ++ [e]) = mergeEntry (mergeEntries es) e.1 e.2 := by
  unfold mergeEntries
  rw [List.foldl_append, List.foldl_cons, List.foldl_nil]

theorem share_add (m : Merge) (e : SurfaceSourceName × SurfaceProviderInput) (cli : String) :
    (m.add e).share cli = if e.2.cli = cli then mergeEntry (m.share cli) e.1 e.2 else m.share cli := by
  unfold Merge.add mergeEntry
  by_cases hcli : e.2.cli = cli
  · subst hcli
    rw [if_pos rfl]
    by_cases hc : scopeConflict (m.share e.2.cli) e.2 = true
    · simp only [hc, if_true]
      rfl
    · simp only [hc, if_false, Bool.false_eq_true]
      unfold Merge.share
      rw [JsMap.get_set, if_pos rfl, Share.mk.injEq]
      refine ⟨rfl, ?_⟩
      by_cases hname : e.1 = .retained
      · by_cases hrefused : e.2.refused = []
        · simp [hname, hrefused, refusedHere]
        · simp [hname, hrefused, JsMap.get_set]
      · simp [hname]
  · rw [if_neg hcli]
    by_cases hc : scopeConflict (m.share e.2.cli) e.2 = true
    · simp only [hc, if_true]
      rfl
    · simp only [hc, if_false, Bool.false_eq_true]
      unfold Merge.share
      rw [JsMap.get_set, if_neg hcli, Share.mk.injEq]
      refine ⟨rfl, ?_⟩
      split
      · rw [JsMap.get_set, if_neg hcli]
      · rfl

/-- **The merge, provider by provider.** -/
theorem share_mergeInputs (inputs : List SurfaceInput) (cli : String) :
    (mergeInputs inputs).share cli = mergeEntries (entriesFor inputs cli) := by
  have hfold : ∀ (es : List (SurfaceSourceName × SurfaceProviderInput)) (m : Merge),
      (es.foldl Merge.add m).share cli =
        (es.filter fun e => e.2.cli = cli).foldl (fun st entry => mergeEntry st entry.1 entry.2) (m.share cli) := by
    intro es
    induction es with
    | nil =>
      intro m
      rfl
    | cons e es ih =>
      intro m
      rw [List.foldl_cons, ih, share_add, List.filter_cons]
      by_cases hcli : e.2.cli = cli
      · simp [hcli]
      · simp [hcli]
  exact hfold (entries inputs) Merge.start

/-- What is held is held under its own names. -/
structure Named (cli : String) (h : Held) : Prop where
  cli_eq : h.entry.cli = cli
  flag_eq : ∀ f s, h.flags.get f = some s → s.flag = f

theorem flag_mergeFlag {previous : Option SurfaceFlag} {incoming : SurfaceFlagInput} {source : SurfaceSourceName}
    (h : ∀ s, previous = some s → s.flag = incoming.flag) : (mergeFlag previous incoming source).flag = incoming.flag := by
  cases previous with
  | none => rfl
  | some s => exact h s rfl

theorem flag_eq_foldl (name : SurfaceSourceName) (incoming : List SurfaceFlagInput) (flags : JsMap String SurfaceFlag)
    (h : ∀ f s, flags.get f = some s → s.flag = f) :
    ∀ f s, (incoming.foldl (fun flags flag => flags.set flag.flag (mergeFlag (flags.get flag.flag) flag name)) flags).get f =
      some s → s.flag = f := by
  induction incoming generalizing flags with
  | nil => exact h
  | cons i incoming ih =>
    apply ih
    intro f s hf
    rw [JsMap.get_set] at hf
    split at hf
    · rename_i hi
      cases hf
      rw [← hi]
      exact flag_mergeFlag fun s hs => h i.flag s hs
    · exact h f s hf

theorem named_mergeEntry {st : Share} {cli : String} {e : SurfaceSourceName × SurfaceProviderInput} (hcli : e.2.cli = cli)
    (h : ∀ held, st.existing = some held → Named cli held) :
    ∀ held, (mergeEntry st e.1 e.2).existing = some held → Named cli held := by
  intro held hheld
  unfold mergeEntry at hheld
  split at hheld
  · exact h held hheld
  · cases hheld
    refine ⟨hcli, ?_⟩
    apply flag_eq_foldl
    cases hst : st.existing with
    | none =>
      intro f s hf
      cases hf
    | some held => exact (h held hst).flag_eq

theorem named_mergeEntries {cli : String} (es : List (SurfaceSourceName × SurfaceProviderInput))
    (hes : ∀ e ∈ es, e.2.cli = cli) : ∀ held, (mergeEntries es).existing = some held → Named cli held := by
  induction es using List.reverseRecOn with
  | nil =>
    intro held hheld
    cases hheld
  | append_singleton es e ih =>
    rw [mergeEntries_concat]
    apply named_mergeEntry (hes e (List.mem_append_right _ List.mem_cons_self))
    exact ih fun x hx => hes x (List.mem_append_left _ hx)

theorem cli_of_mem_entriesFor {inputs : List SurfaceInput} {cli : String} {e : SurfaceSourceName × SurfaceProviderInput}
    (h : e ∈ entriesFor inputs cli) : e.2.cli = cli := by
  simpa using (List.mem_filter.1 h).2

/-! ### Reading the resolution -/

def SurfaceResolution.surfaceOf (res : SurfaceResolution) (cli : String) : Option ProviderSurface :=
  res.providers.find? fun p => p.cli = cli

def ProviderSurface.flagOf (p : ProviderSurface) (f : String) : Option SurfaceFlag := p.flags.find? fun s => s.flag = f

/-- Finding by a key, in another order. -/
theorem find?_eq_some_of_perm {α κ : Type*} [DecidableEq κ] {key : α → κ} {l l' : List α} (hperm : l.Perm l')
    (hkeys : (l'.map key).Nodup) {k : κ} {a : α} (ha : a ∈ l') (hk : key a = k) : (l.find? fun x => key x = k) = some a := by
  have hfound : (l.find? fun x => key x = k).isSome = true := by
    rw [List.find?_isSome]
    exact ⟨a, hperm.mem_iff.2 ha, by simpa using hk⟩
  obtain ⟨b, hb⟩ := Option.isSome_iff_exists.1 hfound
  have hkey : key b = k := by simpa using List.find?_some hb
  have hmem : b ∈ l' := hperm.mem_iff.1 (List.mem_of_find?_eq_some hb)
  rw [hb, List.inj_on_of_nodup_map hkeys hmem ha (hkey.trans hk.symm)]

end LlmGateway.Surface
