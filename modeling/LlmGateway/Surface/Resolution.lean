import Mathlib.Data.List.GetD
import LlmGateway.Surface.Laws

/-!
# Merging provider surfaces never subtracts

The laws of `resolveProviderSurface` and `resolveWithSkips` about whole lists of inputs (`NeverSubtracts`), read from the share of
each provider.
-/

namespace LlmGateway.Surface

open LlmGateway.Lib

/-! ### Reading the resolution -/

section Read

variable (localeCompare : String → String → Ordering) (inputs : List SurfaceInput) (cli : String)

theorem named_share (h : Held) (hh : ((mergeInputs inputs).share cli).existing = some h) : Named cli h := by
  rw [share_mergeInputs] at hh
  exact named_mergeEntries _ (fun e he => cli_of_mem_entriesFor he) h hh

theorem surfaceOf_resolve :
    (resolveProviderSurface localeCompare inputs).surfaceOf cli =
      ((mergeInputs inputs).share cli).existing.map (surfaceOfHeld localeCompare (mergeInputs inputs)) := by
  let m := mergeInputs inputs
  let surfaces := m.providers.values.map (surfaceOfHeld localeCompare m)
  have hsorted : (resolveProviderSurface localeCompare inputs).providers.Perm surfaces := List.perm_insertionSort _ surfaces
  have hnamed : ∀ x ∈ m.providers.rows, x.2.entry.cli = x.1 := by
    intro x hx
    exact (named_share inputs x.1 x.2 (JsMap.get_of_mem hx)).cli_eq
  have hkeys : surfaces.map (fun p => p.cli) = m.providers.rows.map Prod.fst := by
    change ((m.providers.rows.map Prod.snd).map (surfaceOfHeld localeCompare m)).map (fun p => p.cli) = _
    rw [List.map_map, List.map_map]
    exact List.map_congr_left hnamed
  unfold SurfaceResolution.surfaceOf
  cases hheld : (m.share cli).existing with
  | none =>
    rw [Option.map_none, List.find?_eq_none]
    intro p hp
    have hp' := List.mem_map_of_mem (f := fun p : ProviderSurface => p.cli) (hsorted.mem_iff.1 hp)
    rw [hkeys] at hp'
    obtain ⟨x, hx, hxp⟩ := List.mem_map.1 hp'
    simp only [decide_eq_true_eq]
    intro hcli
    have hget : m.providers.get cli = some x.2 := by
      rw [← hcli, ← hxp]
      exact JsMap.get_of_mem hx
    exact absurd (hget.symm.trans hheld) (by simp)
  | some h =>
    have hmem : (cli, h) ∈ m.providers.rows := JsMap.get_eq_some_iff.1 hheld
    apply find?_eq_some_of_perm hsorted
    · rw [hkeys]
      exact m.providers.nodup
    · exact List.mem_map.2 ⟨h, List.mem_map.2 ⟨(cli, h), hmem, rfl⟩, rfl⟩
    · exact hnamed _ hmem

/-- The flag of a provider in a resolution. -/
def SurfaceResolution.flagOf (res : SurfaceResolution) (cli f : String) : Option SurfaceFlag :=
  (res.surfaceOf cli).bind fun p => p.flagOf f

def SurfaceResolution.scopeOf (res : SurfaceResolution) (cli : String) : Option (List String) :=
  (res.surfaceOf cli).map fun p => p.commandScope

theorem flagOf_surfaceOfHeld {m : Merge} {h : Held} (hnamed : Named cli h) (f : String) :
    (surfaceOfHeld localeCompare m h).flagOf f = if f ∈ (m.share cli).refused then none else h.flags.get f := by
  let kept := h.flags.values.filter fun flag => flag.flag ∉ (m.share h.entry.cli).refused
  have hsorted : (surfaceOfHeld localeCompare m h).flags.Perm kept := List.perm_insertionSort _ kept
  have hkeys : (kept.map fun s => s.flag).Nodup := by
    have hall : h.flags.values.map (fun s => s.flag) = h.flags.rows.map Prod.fst := by
      change (h.flags.rows.map Prod.snd).map (fun s => s.flag) = _
      rw [List.map_map]
      apply List.map_congr_left
      intro x hx
      exact hnamed.flag_eq x.1 x.2 (JsMap.get_of_mem hx)
    apply List.Nodup.sublist (List.filter_sublist.map _)
    rw [hall]
    exact h.flags.nodup
  have hmem : ∀ s, s ∈ kept ↔ f ∉ (m.share cli).refused ∧ h.flags.get f = some s ∨ s ∈ kept ∧ s.flag ≠ f := by
    intro s
    by_cases hsf : s.flag = f
    · constructor
      · intro hs
        obtain ⟨hvalue, hrefused⟩ := List.mem_filter.1 hs
        obtain ⟨k, hk⟩ := JsMap.mem_values.1 hvalue
        have hkf : k = f := (hnamed.flag_eq k s hk).symm.trans hsf
        rw [hnamed.cli_eq, hsf] at hrefused
        exact .inl ⟨by simpa using hrefused, hkf ▸ hk⟩
      · rintro (⟨hf, hget⟩ | ⟨-, hne⟩)
        · refine List.mem_filter.2 ⟨JsMap.mem_values.2 ⟨f, hget⟩, ?_⟩
          rw [hnamed.cli_eq, hsf]
          simpa using hf
        · exact absurd hsf hne
    · constructor
      · exact fun hs => .inr ⟨hs, hsf⟩
      · rintro (⟨-, hget⟩ | ⟨hs, -⟩)
        · exact absurd (hnamed.flag_eq f s hget) hsf
        · exact hs
  unfold ProviderSurface.flagOf
  split
  · rename_i hf
    rw [List.find?_eq_none]
    intro s hs
    rcases (hmem s).1 (hsorted.mem_iff.1 hs) with ⟨hf', -⟩ | ⟨-, hne⟩
    · exact absurd hf hf'
    · simpa using hne
  · rename_i hf
    cases hget : h.flags.get f with
    | none =>
      rw [List.find?_eq_none]
      intro s hs
      rcases (hmem s).1 (hsorted.mem_iff.1 hs) with ⟨-, hsome⟩ | ⟨-, hne⟩
      · rw [hget] at hsome
        cases hsome
      · simpa using hne
    | some s => exact find?_eq_some_of_perm hsorted hkeys ((hmem s).2 (.inl ⟨hf, hget⟩)) (hnamed.flag_eq f s hget)

theorem flagOf_resolve (f : String) :
    (resolveProviderSurface localeCompare inputs).flagOf cli f =
      if f ∈ (mergeEntries (entriesFor inputs cli)).refused then none else (mergeEntries (entriesFor inputs cli)).flagOf f := by
  rw [← share_mergeInputs]
  unfold SurfaceResolution.flagOf Share.flagOf
  rw [surfaceOf_resolve]
  cases hheld : ((mergeInputs inputs).share cli).existing with
  | none => simp
  | some h => exact flagOf_surfaceOfHeld localeCompare cli (named_share inputs cli h hheld) f

theorem scopeOf_resolve :
    (resolveProviderSurface localeCompare inputs).scopeOf cli =
      (mergeEntries (entriesFor inputs cli)).existing.map fun h => h.entry.commandScope := by
  rw [← share_mergeInputs]
  unfold SurfaceResolution.scopeOf
  rw [surfaceOf_resolve]
  cases ((mergeInputs inputs).share cli).existing with
  | none => rfl
  | some h => rfl

end Read

/-! ### The order of the entries -/

def precedence (name : SurfaceSourceName) : ℕ := SURFACE_PRECEDENCE.idxOf name

/-- What the inputs of one source say. -/
def entriesNamed (inputs : List SurfaceInput) (name : SurfaceSourceName) : List Statement :=
  ((inputs.filter fun input => input.name = name).flatMap fun input => input.providers).map fun provider => (name, provider)

theorem entries_eq (inputs : List SurfaceInput) : entries inputs = SURFACE_PRECEDENCE.flatMap (entriesNamed inputs) := by
  unfold entries orderInputs
  rw [List.flatMap_assoc]
  apply List.flatMap_congr
  intro name _
  unfold entriesNamed
  dsimp only
  split
  · rename_i h
    rw [h]
    rfl
  · simp

theorem fst_of_mem_entriesNamed {inputs : List SurfaceInput} {name : SurfaceSourceName} {e : Statement}
    (h : e ∈ entriesNamed inputs name) : e.1 = name := by
  obtain ⟨p, -, rfl⟩ := List.mem_map.1 h
  rfl

theorem mem_entriesFor {inputs : List SurfaceInput} {cli : String} {e : Statement} :
    e ∈ entriesFor inputs cli ↔ ∃ i ∈ inputs, i.name = e.1 ∧ e.2 ∈ i.providers ∧ e.2.cli = cli := by
  have hall : ∀ name : SurfaceSourceName, name ∈ SURFACE_PRECEDENCE := by
    intro name
    cases name <;> decide
  unfold entriesFor
  rw [entries_eq, List.mem_filter, List.mem_flatMap]
  simp only [decide_eq_true_eq]
  constructor
  · rintro ⟨⟨name, -, he⟩, hcli⟩
    obtain ⟨p, hp, rfl⟩ := List.mem_map.1 he
    obtain ⟨i, hi, hip⟩ := List.mem_flatMap.1 hp
    obtain ⟨hi, hname⟩ := List.mem_filter.1 hi
    exact ⟨i, hi, by simpa using hname, hip, hcli⟩
  · rintro ⟨i, hi, hname, hip, hcli⟩
    refine ⟨⟨e.1, hall e.1, List.mem_map.2 ⟨e.2, List.mem_flatMap.2 ⟨i, ?_, hip⟩, rfl⟩⟩, hcli⟩
    exact List.mem_filter.2 ⟨hi, by simpa using hname⟩

theorem entriesFor_sorted (inputs : List SurfaceInput) (cli : String) :
    (entriesFor inputs cli).Pairwise fun a b => precedence a.1 ≤ precedence b.1 := by
  apply List.Pairwise.sublist List.filter_sublist
  rw [entries_eq, List.pairwise_flatMap]
  constructor
  · intro name _
    apply List.pairwise_of_forall_mem_list
    intro a ha b hb
    rw [fst_of_mem_entriesNamed ha, fst_of_mem_entriesNamed hb]
  · have hprecedence : SURFACE_PRECEDENCE.Pairwise fun a b => precedence a ≤ precedence b := by decide
    apply hprecedence.imp
    intro name name' hle a ha b hb
    rw [fst_of_mem_entriesNamed ha, fst_of_mem_entriesNamed hb]
    exact hle

theorem floorFirst_entriesFor (inputs : List SurfaceInput) (cli : String) : FloorFirst (entriesFor inputs cli) := by
  intro pre e post hes hname x hx
  have hsorted := entriesFor_sorted inputs cli
  rw [hes, List.pairwise_append] at hsorted
  have hle := hsorted.2.2 x hx e List.mem_cons_self
  rw [hname] at hle
  revert hle
  cases x.1 <;> decide

theorem entriesFor_congr {inputs inputs' : List SurfaceInput}
    (h : ∀ name, inputs.filter (fun i => i.name = name) = inputs'.filter fun i => i.name = name) :
    entries inputs = entries inputs' := by
  rw [entries_eq, entries_eq]
  apply List.flatMap_congr
  intro name _
  unfold entriesNamed
  rw [h name]

/-! ### Facts -/

/-- The fact that the occurrences show is one that an occurrence of the highest precedence states. -/
def HighestStates {α : Type*} (fact : SurfaceFlagInput → Option α) (os : List (SurfaceSourceName × SurfaceFlagInput))
    (shown : Option α) : Prop :=
  match shown with
  | none => ∀ o ∈ os, fact o.2 = none
  | some a => ∃ o ∈ os, fact o.2 = some a ∧ ∀ o' ∈ os, (fact o'.2).isSome = true → precedence o'.1 ≤ precedence o.1

section Facts

variable {α : Type*} {fact : SurfaceFlagInput → Option α} {os : List (SurfaceSourceName × SurfaceFlagInput)}
  {o : SurfaceSourceName × SurfaceFlagInput} {shown : Option α}

theorem HighestStates.concat (h : HighestStates fact os shown) (hlast : ∀ o' ∈ os, precedence o'.1 ≤ precedence o.1) :
    HighestStates fact (os ++ [o]) ((fact o.2).or shown) := by
  have hself : o ∈ os ++ [o] := List.mem_append_right _ List.mem_cons_self
  cases hfact : fact o.2 with
  | some a =>
    refine ⟨o, hself, hfact, ?_⟩
    intro o' ho' _
    rcases List.mem_append.1 ho' with ho' | ho'
    · exact hlast o' ho'
    · rw [List.mem_singleton.1 ho']
  | none =>
    rw [Option.none_or]
    cases shown with
    | none =>
      intro o' ho'
      rcases List.mem_append.1 ho' with ho' | ho'
      · exact h o' ho'
      · rw [List.mem_singleton.1 ho', hfact]
    | some a =>
      obtain ⟨b, hb, hba, hhighest⟩ := h
      refine ⟨b, List.mem_append_left _ hb, hba, ?_⟩
      intro o' ho' hstates
      rcases List.mem_append.1 ho' with ho' | ho'
      · exact hhighest o' ho' hstates
      · rw [List.mem_singleton.1 ho', hfact] at hstates
        cases hstates

/-- What is shown of a flag. -/
structure Shows (os : List (SurfaceSourceName × SurfaceFlagInput)) (s : SurfaceFlag) : Prop where
  arity : HighestStates (fun i => i.arity) os s.arity
  values : HighestStates (fun i => i.values) os s.values
  sources : ∀ name, name ∈ s.sources ↔ ∃ o ∈ os, o.1 = name

theorem mergeFlag_arity (previous : Option SurfaceFlag) (i : SurfaceFlagInput) (name : SurfaceSourceName) :
    (mergeFlag previous i name).arity = i.arity.or (previous.bind fun s => s.arity) := by
  cases previous with
  | none => simp [mergeFlag]
  | some s => rfl

theorem mergeFlag_values (previous : Option SurfaceFlag) (i : SurfaceFlagInput) (name : SurfaceSourceName) :
    (mergeFlag previous i name).values = i.values.or (previous.bind fun s => s.values) := by
  cases previous with
  | none => simp [mergeFlag]
  | some s => rfl

theorem mem_mergeFlag_sources {previous : Option SurfaceFlag} {i : SurfaceFlagInput} {source name : SurfaceSourceName} :
    name ∈ (mergeFlag previous i source).sources ↔ (∃ s, previous = some s ∧ name ∈ s.sources) ∨ source = name := by
  cases previous with
  | none => simp [mergeFlag, eq_comm]
  | some s =>
    unfold mergeFlag
    dsimp only
    split
    · rename_i hsource
      constructor
      · exact fun hname => .inl ⟨s, rfl, hname⟩
      · rintro (⟨s', hs', hname⟩ | rfl)
        · cases hs'
          exact hname
        · exact hsource
    · simp [eq_comm]

theorem shows_mergeOccurrences (os : List (SurfaceSourceName × SurfaceFlagInput))
    (hsorted : os.Pairwise fun a b => precedence a.1 ≤ precedence b.1) (s : SurfaceFlag)
    (hs : mergeOccurrences none os = some s) : Shows os s := by
  have hall : HighestStates (fun i => i.arity) os ((mergeOccurrences none os).bind fun s => s.arity) ∧
      HighestStates (fun i => i.values) os ((mergeOccurrences none os).bind fun s => s.values) ∧
      ∀ name, (∃ s, mergeOccurrences none os = some s ∧ name ∈ s.sources) ↔ ∃ o ∈ os, o.1 = name := by
    clear hs
    induction os using List.reverseRecOn with
    | nil =>
      refine ⟨?_, ?_, ?_⟩
      · intro o ho
        cases ho
      · intro o ho
        cases ho
      · intro name
        simp [mergeOccurrences]
    | append_singleton os o ih =>
      rw [List.pairwise_append] at hsorted
      obtain ⟨harity, hvalues, hsources⟩ := ih hsorted.1
      have hlast : ∀ o' ∈ os, precedence o'.1 ≤ precedence o.1 := fun o' ho' => hsorted.2.2 o' ho' o List.mem_cons_self
      have hstep : mergeOccurrences none (os ++ [o]) = some (mergeFlag (mergeOccurrences none os) o.2 o.1) :=
        mergeOccurrences_append none os [o]
      rw [hstep]
      refine ⟨?_, ?_, ?_⟩
      · rw [Option.bind_some, mergeFlag_arity]
        exact harity.concat hlast
      · rw [Option.bind_some, mergeFlag_values]
        exact hvalues.concat hlast
      · intro name
        simp only [Option.some.injEq, exists_eq_left', mem_mergeFlag_sources, hsources name, List.mem_append,
          List.mem_singleton, or_and_right, exists_or, exists_eq_left]
  rw [hs] at hall
  obtain ⟨harity, hvalues, hsources⟩ := hall
  refine ⟨harity, hvalues, fun name => ?_⟩
  rw [← hsources name]
  simp

theorem occurrencesIn_sorted {es : List Statement} (h : es.Pairwise fun a b => precedence a.1 ≤ precedence b.1)
    (S : Option (List String)) (f : String) :
    (occurrencesIn es S f).Pairwise fun a b => precedence a.1 ≤ precedence b.1 := by
  have hfst : ∀ e : Statement, ∀ o ∈ occurrences e f, o.1 = e.1 := by
    intro e o ho
    obtain ⟨i, -, rfl⟩ := List.mem_map.1 ho
    rfl
  unfold occurrencesIn
  rw [List.pairwise_flatMap]
  constructor
  · intro e _
    apply List.pairwise_of_forall_mem_list
    intro a ha b hb
    rw [hfst e a ha, hfst e b hb]
  · apply (h.sublist List.filter_sublist).imp
    intro e e' hle a ha b hb
    rw [hfst e a ha, hfst e' b hb]
    exact hle

end Facts

/-! ### The laws -/

section Laws

variable (inputs : List SurfaceInput) (cli : String)

/-- The floor agrees on the provider's command, and no data empties an entry or the surface of the provider. -/
def Sound : Prop := FloorAgrees (entriesFor inputs cli) ∧ Quiet (entriesFor inputs cli)

/-- The command of the provider: of its first entry that names a flag the floor does not refuse. -/
def commandOf : Option (List String) := baseScope (entriesFor inputs cli)

/-- An input of the floor refuses the flag. -/
def Refused (f : String) : Prop := ∃ i ∈ inputs, i.name = .retained ∧ ∃ p ∈ i.providers, p.cli = cli ∧ f ∈ p.refused

/-- An input names the flag for the command. -/
def NamedFor (S : Option (List String)) (f : String) : Prop :=
  ∃ i ∈ inputs, ∃ p ∈ i.providers, p.cli = cli ∧ S = some p.commandScope ∧ ∃ x ∈ p.flags, x.flag = f

/-- The floor names a flag for the provider that it does not refuse. -/
def FloorSurvives : Prop :=
  ∃ i ∈ inputs, i.name = .retained ∧ ∃ p ∈ i.providers, p.cli = cli ∧ ∃ x ∈ p.flags, ¬ Refused inputs cli x.flag

end Laws

theorem refused_iff {inputs : List SurfaceInput} {cli f : String} : Refused inputs cli f ↔ f ∈ refusals (entriesFor inputs cli) := by
  rw [mem_refusals]
  constructor
  · rintro ⟨i, hi, hname, p, hp, hcli, hf⟩
    exact ⟨(.retained, p), mem_entriesFor.2 ⟨i, hi, hname, hp, hcli⟩, rfl, hf⟩
  · rintro ⟨e, he, hname, hf⟩
    obtain ⟨i, hi, hin, hp, hcli⟩ := mem_entriesFor.1 he
    exact ⟨i, hi, hin.trans hname, e.2, hp, hcli, hf⟩

theorem namedFor_iff {inputs : List SurfaceInput} {cli f : String} {S : Option (List String)} :
    NamedFor inputs cli S f ↔ occurrencesIn (entriesFor inputs cli) S f ≠ [] := by
  constructor
  · rintro ⟨i, hi, p, hp, hcli, hS, x, hx, hxf⟩
    apply List.ne_nil_of_mem
    exact mem_occurrencesIn.2 ⟨(i.name, p), mem_entriesFor.2 ⟨i, hi, rfl, hp, hcli⟩, hS, x, hx, hxf, rfl⟩
  · intro h
    obtain ⟨o, ho⟩ := List.exists_mem_of_ne_nil _ h
    obtain ⟨e, he, hS, x, hx, hxf, -⟩ := mem_occurrencesIn.1 ho
    obtain ⟨i, hi, -, hp, hcli⟩ := mem_entriesFor.1 he
    exact ⟨i, hi, e.2, hp, hcli, hS, x, hx, hxf⟩

/-! ### The floor -/

def floorFor (inputs : List SurfaceInput) (cli : String) : List Statement :=
  (entriesNamed inputs .retained).filter fun e => e.2.cli = cli

theorem entriesFor_eq_floor (inputs : List SurfaceInput) (cli : String) :
    ∃ rest, entriesFor inputs cli = floorFor inputs cli ++ rest ∧ ∀ e ∈ rest, e.1 ≠ .retained := by
  let data : List SurfaceSourceName := [.seed, .pack, .discovery, .overlay]
  refine ⟨(data.flatMap (entriesNamed inputs)).filter fun e => e.2.cli = cli, ?_, ?_⟩
  · unfold entriesFor floorFor
    rw [entries_eq, ← List.filter_append]
    rfl
  · intro e he
    obtain ⟨name, hname, hen⟩ := List.mem_flatMap.1 (List.mem_filter.1 he).1
    rw [fst_of_mem_entriesNamed hen]
    rintro rfl
    revert hname
    decide

theorem baseScope_append {es rest : List Statement} {S : List String} (hrest : ∀ e ∈ rest, e.1 ≠ .retained)
    (h : baseScope es = some S) : baseScope (es ++ rest) = some S := by
  induction rest using List.reverseRecOn with
  | nil => rw [List.append_nil, h]
  | append_singleton rest e ih =>
    have hrest' := ih fun x hx => hrest x (List.mem_append_left _ hx)
    rw [← List.append_assoc, baseScope_concat (hrest e (List.mem_append_right _ List.mem_cons_self)), hrest', Option.some_or]

theorem mem_floorFor {inputs : List SurfaceInput} {cli : String} {i : SurfaceInput} (hi : i ∈ inputs) (hname : i.name = .retained)
    {p : SurfaceProviderInput} (hp : p ∈ i.providers) (hcli : p.cli = cli) :
    (SurfaceSourceName.retained, p) ∈ floorFor inputs cli := by
  obtain ⟨rest, hes, hrest⟩ := entriesFor_eq_floor inputs cli
  have hmem : (SurfaceSourceName.retained, p) ∈ entriesFor inputs cli := mem_entriesFor.2 ⟨i, hi, hname, hp, hcli⟩
  rw [hes] at hmem
  rcases List.mem_append.1 hmem with hmem | hmem
  · exact hmem
  · exact absurd rfl (hrest _ hmem)

/-- What the floor refuses is refused. -/
theorem not_mem_refusals_floorFor {inputs : List SurfaceInput} {cli f : String} (hrefused : ¬Refused inputs cli f) :
    f ∉ refusals (floorFor inputs cli) := by
  obtain ⟨rest, hes, -⟩ := entriesFor_eq_floor inputs cli
  intro hmem
  apply hrefused
  rw [refused_iff, hes]
  exact refusals_mono hmem

/-- Where a flag of the floor survives, the floor alone says which command it is. -/
theorem baseScope_floorFor {inputs : List SurfaceInput} {cli : String} (h : FloorSurvives inputs cli) :
    ∃ S, baseScope (floorFor inputs cli) = some S ∧ commandOf inputs cli = some S := by
  obtain ⟨i, hi, hname, p, hp, hcli, x, hx, hrefused⟩ := h
  obtain ⟨rest, hes, hrest⟩ := entriesFor_eq_floor inputs cli
  have hentry := mem_floorFor hi hname hp hcli
  have hsurvives := not_mem_refusals_floorFor hrefused
  cases hbase : baseScope (floorFor inputs cli) with
  | none => exact absurd (baseScope_eq_none.1 hbase _ hentry x hx) hsurvives
  | some S =>
    refine ⟨S, rfl, ?_⟩
    unfold commandOf
    rw [hes]
    exact baseScope_append hrest hbase

theorem commandOf_congr {inputs inputs' : List SurfaceInput} {cli : String}
    (hfloor : inputs.filter (fun i => i.name = .retained) = inputs'.filter fun i => i.name = .retained)
    (h : FloorSurvives inputs cli) : commandOf inputs' cli = commandOf inputs cli := by
  have hsame : floorFor inputs cli = floorFor inputs' cli := by
    unfold floorFor entriesNamed
    rw [hfloor]
  obtain ⟨S, hbase, hcommand⟩ := baseScope_floorFor h
  obtain ⟨rest, hes, hrest⟩ := entriesFor_eq_floor inputs' cli
  rw [hcommand]
  unfold commandOf
  rw [hes]
  exact baseScope_append hrest (hsame ▸ hbase)

theorem scope_of_floorSurvives {inputs : List SurfaceInput} {cli : String} (hagrees : FloorAgrees (entriesFor inputs cli))
    (h : FloorSurvives inputs cli) {i : SurfaceInput} (hi : i ∈ inputs) (hname : i.name = .retained) {p : SurfaceProviderInput}
    (hp : p ∈ i.providers) (hcli : p.cli = cli) {x : SurfaceFlagInput} (hx : x ∈ p.flags)
    (hrefused : ¬ Refused inputs cli x.flag) : commandOf inputs cli = some p.commandScope := by
  obtain ⟨A, hA⟩ := hagrees
  obtain ⟨S, hbase, hcommand⟩ := baseScope_floorFor h
  obtain ⟨rest, hes, -⟩ := entriesFor_eq_floor inputs cli
  have hall : ∀ e ∈ floorFor inputs cli, e.1 = .retained := fun e he => fst_of_mem_entriesNamed (List.mem_filter.1 he).1
  have hfirst : ∃ e ∈ floorFor inputs cli, survives (refusals (floorFor inputs cli)) e = true := by
    obtain ⟨e, he, -⟩ := Option.map_eq_some_iff.1 hbase
    exact ⟨e, List.mem_of_find?_eq_some he, List.find?_some he⟩
  obtain ⟨e, he, hsurv⟩ := hfirst
  have hfloor : baseScope (floorFor inputs cli) = some A := by
    rw [hes] at hA
    exact baseScope_of_floor hA.of_append hall he hsurv
  have hentry : (SurfaceSourceName.retained, p) ∈ entriesFor inputs cli := mem_entriesFor.2 ⟨i, hi, hname, hp, hcli⟩
  have hp : p.commandScope = A :=
    scope_of_floor hA hentry rfl (survives_iff.2 ⟨x, hx, fun hmem => hrefused (refused_iff.2 hmem)⟩)
  rw [hcommand, hp, ← hbase, hfloor]

/-! ### The laws hold -/

def emptied (i : SurfaceInput) : SurfaceInput := { i with providers := i.providers.map fun p => { p with flags := [] } }

/-- **Merging never subtracts.**  `inputsOf a` are the inputs of the resolution `resolve a`. -/
structure NeverSubtracts {ι : Type} (inputsOf : ι → List SurfaceInput) (resolve : ι → SurfaceResolution) : Prop where
  /-- The flags are those named for the command, but for what the floor refuses. -/
  union : ∀ a cli f, Sound (inputsOf a) cli →
    (((resolve a).flagOf cli f).isSome = true ↔
      NamedFor (inputsOf a) cli (commandOf (inputsOf a) cli) f ∧ ¬ Refused (inputsOf a) cli f)
  command : ∀ a cli S, Sound (inputsOf a) cli → commandOf (inputsOf a) cli = some S → (resolve a).scopeOf cli = some S
  /-- What is no input of the floor does not change the command of the floor. -/
  floor : ∀ a a' cli, Sound (inputsOf a) cli → Sound (inputsOf a') cli → FloorSurvives (inputsOf a) cli →
    ((inputsOf a).filter fun i => i.name = .retained) = ((inputsOf a').filter fun i => i.name = .retained) →
      (resolve a').scopeOf cli = (resolve a).scopeOf cli ∧
        ∀ i ∈ inputsOf a, i.name = .retained → ∀ p ∈ i.providers, p.cli = cli →
          (∃ x ∈ p.flags, ¬ Refused (inputsOf a) cli x.flag) → (resolve a).scopeOf cli = some p.commandScope
  /-- Without an input of data that the command does not hang on, or with it emptied, no flag is more, and none is less that
  another input names for the command. -/
  removed : ∀ a a' cli pre i post, i.name ≠ .retained → inputsOf a = pre ++ i :: post →
    (inputsOf a' = pre ++ post ∨ inputsOf a' = pre ++ emptied i :: post) → Sound (inputsOf a) cli → Sound (inputsOf a') cli →
    (FloorSurvives (inputsOf a) cli ∨ commandOf (inputsOf a') cli = commandOf (inputsOf a) cli) →
      ∀ f, (((resolve a').flagOf cli f).isSome = true → ((resolve a).flagOf cli f).isSome = true) ∧
        (((resolve a).flagOf cli f).isSome = true → NamedFor (pre ++ post) cli (commandOf (inputsOf a) cli) f →
          ((resolve a').flagOf cli f).isSome = true)
  /-- Whatever the data is, a flag of the floor that the floor does not refuse stays. -/
  kept : ∀ a cli f, FloorAgrees (entriesFor (inputsOf a) cli) → ¬ Refused (inputsOf a) cli f →
    (∃ i ∈ inputsOf a, i.name = .retained ∧ ∃ p ∈ i.providers, p.cli = cli ∧ ∃ x ∈ p.flags, x.flag = f) →
      ((resolve a).flagOf cli f).isSome = true
  /-- The facts shown are those that the input of the highest precedence states. -/
  facts : ∀ a cli f s, Sound (inputsOf a) cli → (resolve a).flagOf cli f = some s →
    Shows (occurrencesIn (entriesFor (inputsOf a) cli) (commandOf (inputsOf a) cli) f) s
  /-- The order of the inputs of different sources does not matter. -/
  order : ∀ a a', (∀ name, ((inputsOf a).filter fun i => i.name = name) = (inputsOf a').filter fun i => i.name = name) →
    (resolve a).providers = (resolve a').providers

section NeverSubtracts

variable {localeCompare : String → String → Ordering} {inputs : List SurfaceInput} {cli f : String}

theorem merged_of_sound (h : Sound inputs cli) : Merged (entriesFor inputs cli) (mergeEntries (entriesFor inputs cli)) :=
  merged_mergeEntries _ (floorFirst_entriesFor inputs cli) h.1 h.2

theorem flagOf_of_sound (h : Sound inputs cli) (f : String) :
    (resolveProviderSurface localeCompare inputs).flagOf cli f =
      if f ∈ refusals (entriesFor inputs cli) then none
      else mergeOccurrences none (occurrencesIn (entriesFor inputs cli) (commandOf inputs cli) f) := by
  have hmerged := merged_of_sound h
  rw [flagOf_resolve, hmerged.refused_eq]
  split
  · rfl
  · rename_i hf
    exact hmerged.flagOf_eq f hf

theorem isSome_flagOf (h : Sound inputs cli) :
    ((resolveProviderSurface localeCompare inputs).flagOf cli f).isSome = true ↔
      NamedFor inputs cli (commandOf inputs cli) f ∧ ¬ Refused inputs cli f := by
  rw [flagOf_of_sound h, namedFor_iff, refused_iff]
  split
  · rename_i hf
    simp [hf]
  · rename_i hf
    rw [isSome_mergeOccurrences]
    simp [hf]

theorem scopeOf_of_sound (h : Sound inputs cli) {S : List String} (hS : commandOf inputs cli = some S) :
    (resolveProviderSurface localeCompare inputs).scopeOf cli = some S := by
  obtain ⟨held, hheld, hscope⟩ := (merged_of_sound h).scope_eq S hS
  rw [scopeOf_resolve, hheld, Option.map_some, hscope]

theorem shows_of_sound (h : Sound inputs cli) {s : SurfaceFlag}
    (hs : (resolveProviderSurface localeCompare inputs).flagOf cli f = some s) :
    Shows (occurrencesIn (entriesFor inputs cli) (commandOf inputs cli) f) s := by
  rw [flagOf_of_sound h] at hs
  split at hs
  · cases hs
  · exact shows_mergeOccurrences _ (occurrencesIn_sorted (entriesFor_sorted inputs cli) _ f) s hs

/-- Data refuses nothing and takes nothing away. -/
theorem mergeEntries_append_data {es rest : List Statement} (hrest : ∀ e ∈ rest, e.1 ≠ .retained) :
    (mergeEntries (es ++ rest)).refused = (mergeEntries es).refused ∧
      (((mergeEntries es).flagOf f).isSome = true → ((mergeEntries (es ++ rest)).flagOf f).isSome = true) := by
  induction rest using List.reverseRecOn with
  | nil => simp
  | append_singleton rest e ih =>
    obtain ⟨hrefused, hflag⟩ := ih fun x hx => hrest x (List.mem_append_left _ hx)
    have hname := hrest e (List.mem_append_right _ List.mem_cons_self)
    rw [← List.append_assoc, mergeEntries_concat]
    by_cases hc : scopeConflict (mergeEntries (es ++ rest)) e.2 = true
    · rw [mergeEntry_of_conflict hc]
      exact ⟨hrefused, hflag⟩
    · rw [mergeEntry_of_not_conflict hc, if_neg hname, flagOf_merged, isSome_mergeOccurrences]
      exact ⟨hrefused, fun hf => .inl (hflag hf)⟩

theorem isSome_flagOf_of_floor (hagrees : FloorAgrees (entriesFor inputs cli)) (hrefused : ¬ Refused inputs cli f)
    {i : SurfaceInput} (hi : i ∈ inputs) (hname : i.name = .retained) {p : SurfaceProviderInput} (hp : p ∈ i.providers)
    (hcli : p.cli = cli) {x : SurfaceFlagInput} (hx : x ∈ p.flags) (hxf : x.flag = f) :
    ((resolveProviderSurface localeCompare inputs).flagOf cli f).isSome = true := by
  subst hxf
  obtain ⟨A, hA⟩ := hagrees
  obtain ⟨rest, hes, hrest⟩ := entriesFor_eq_floor inputs cli
  have hall : ∀ e ∈ floorFor inputs cli, e.1 = .retained := fun e he => fst_of_mem_entriesNamed (List.mem_filter.1 he).1
  have hentry := mem_floorFor hi hname hp hcli
  have hsurvives := not_mem_refusals_floorFor hrefused
  rw [hes] at hA
  have hfirst : FloorFirst (floorFor inputs cli) := by
    intro pre e post hsplit _ y hy
    exact hall y (hsplit ▸ List.mem_append_left _ hy)
  have hquiet : Quiet (floorFor inputs cli) := by
    intro pre e post S hsplit hdata
    exact absurd (hall e (hsplit ▸ List.mem_append_right _ List.mem_cons_self)) hdata
  have hmerged := merged_mergeEntries _ hfirst ⟨A, hA.of_append⟩ hquiet
  have hbase := baseScope_of_floor hA.of_append hall hentry (survives_iff.2 ⟨x, hx, hsurvives⟩)
  have hscope := scope_of_floor hA.of_append hentry rfl (survives_iff.2 ⟨x, hx, hsurvives⟩)
  have hshown : ((mergeEntries (floorFor inputs cli)).flagOf x.flag).isSome = true :=
    (hmerged.flagOf_isSome hsurvives).2 ⟨(.retained, p), hentry, hbase.trans (congrArg some hscope.symm), x, hx, rfl⟩
  have hdata := @mergeEntries_append_data x.flag (floorFor inputs cli) rest hrest
  rw [flagOf_resolve, hes, hdata.1, hmerged.refused_eq, if_neg hsurvives]
  exact hdata.2 hshown

theorem resolve_congr {inputs' : List SurfaceInput}
    (h : ∀ name, inputs.filter (fun i => i.name = name) = inputs'.filter fun i => i.name = name) :
    resolveProviderSurface localeCompare inputs = resolveProviderSurface localeCompare inputs' := by
  have hsame : mergeInputs inputs = mergeInputs inputs' := by
    unfold mergeInputs
    rw [entriesFor_congr h]
  unfold resolveProviderSurface
  rw [hsame]

/-- Taking out or emptying an input of data. -/
structure Without (pre post : List SurfaceInput) (i : SurfaceInput) (inputs' : List SurfaceInput) : Prop where
  refused_iff : ∀ cli f, Refused inputs' cli f ↔ Refused (pre ++ i :: post) cli f
  namedFor : ∀ cli S f, NamedFor inputs' cli S f ↔ NamedFor (pre ++ post) cli S f
  floor : (pre ++ i :: post).filter (fun i => i.name = .retained) = inputs'.filter fun i => i.name = .retained

theorem without_of_removed {pre post inputs' : List SurfaceInput} {i : SurfaceInput} (hname : i.name ≠ .retained)
    (h : inputs' = pre ++ post ∨ inputs' = pre ++ emptied i :: post) : Without pre post i inputs' := by
  have hemptied : (emptied i).name ≠ .retained := hname
  have hflags : ∀ p ∈ (emptied i).providers, p.flags = [] := by
    intro p hp
    obtain ⟨p', -, rfl⟩ := List.mem_map.1 hp
    rfl
  rcases h with rfl | rfl
  · refine ⟨fun cli f => ?_, fun cli S f => Iff.rfl, ?_⟩
    · simp [Refused, or_and_right, exists_or, hname]
    · simp [hname]
  · refine ⟨fun cli f => ?_, fun cli S f => ?_, ?_⟩
    · simp [Refused, or_and_right, exists_or, hname, hemptied]
    · unfold NamedFor
      constructor
      · rintro ⟨j, hj, p, hp, hcli, hS, x, hx, hxf⟩
        rcases List.mem_append.1 hj with hj | hj
        · exact ⟨j, List.mem_append_left _ hj, p, hp, hcli, hS, x, hx, hxf⟩
        · rcases List.mem_cons.1 hj with rfl | hj
          · rw [hflags p hp] at hx
            cases hx
          · exact ⟨j, List.mem_append_right _ hj, p, hp, hcli, hS, x, hx, hxf⟩
      · rintro ⟨j, hj, hrest⟩
        refine ⟨j, ?_, hrest⟩
        rcases List.mem_append.1 hj with hj | hj
        · exact List.mem_append_left _ hj
        · exact List.mem_append_right _ (List.mem_cons_of_mem _ hj)
    · simp [hname, hemptied]

theorem NamedFor.insert {pre post : List SurfaceInput} {i : SurfaceInput} {S : Option (List String)}
    (h : NamedFor (pre ++ post) cli S f) : NamedFor (pre ++ i :: post) cli S f := by
  obtain ⟨j, hj, hrest⟩ := h
  refine ⟨j, ?_, hrest⟩
  rcases List.mem_append.1 hj with hj | hj
  · exact List.mem_append_left _ hj
  · exact List.mem_append_right _ (List.mem_cons_of_mem _ hj)

end NeverSubtracts

theorem neverSubtracts_of_providers {ι : Type} (localeCompare : String → String → Ordering) (inputsOf : ι → List SurfaceInput)
    (resolve : ι → SurfaceResolution)
    (h : ∀ a, (resolve a).providers = (resolveProviderSurface localeCompare (inputsOf a)).providers) :
    NeverSubtracts inputsOf resolve := by
  have hflag : ∀ a cli f, (resolve a).flagOf cli f = (resolveProviderSurface localeCompare (inputsOf a)).flagOf cli f := by
    intro a cli f
    unfold SurfaceResolution.flagOf SurfaceResolution.surfaceOf
    rw [h]
  have hscope : ∀ a cli, (resolve a).scopeOf cli = (resolveProviderSurface localeCompare (inputsOf a)).scopeOf cli := by
    intro a cli
    unfold SurfaceResolution.scopeOf SurfaceResolution.surfaceOf
    rw [h]
  refine ⟨?_, ?_, ?_, ?_, ?_, ?_, ?_⟩
  · intro a cli f hsound
    rw [hflag]
    exact isSome_flagOf hsound
  · intro a cli S hsound hS
    rw [hscope]
    exact scopeOf_of_sound hsound hS
  · intro a a' cli hsound hsound' hsurvives hfloor
    obtain ⟨S, -, hS⟩ := baseScope_floorFor hsurvives
    rw [hscope, hscope, scopeOf_of_sound hsound hS, scopeOf_of_sound hsound' ((commandOf_congr hfloor hsurvives).trans hS)]
    refine ⟨rfl, ?_⟩
    rintro i hi hname p hp hcli ⟨x, hx, hrefused⟩
    rw [← hS]
    exact scope_of_floorSurvives hsound.1 hsurvives hi hname hp hcli hx hrefused
  · intro a a' cli pre i post hname hinputs hinputs' hsound hsound' hcommand f
    have hwithout := without_of_removed hname hinputs'
    have hsame : commandOf (inputsOf a') cli = commandOf (inputsOf a) cli := by
      rcases hcommand with hsurvives | hsame
      · exact commandOf_congr (hinputs ▸ hwithout.floor) hsurvives
      · exact hsame
    rw [hflag, hflag, isSome_flagOf hsound, isSome_flagOf hsound', hsame, hwithout.namedFor, hwithout.refused_iff, ← hinputs]
    constructor
    · rintro ⟨hnamed, hrefused⟩
      refine ⟨?_, hrefused⟩
      rw [hinputs] at hnamed ⊢
      exact hnamed.insert
    · exact fun hf hnamed => ⟨hnamed, hf.2⟩
  · rintro a cli f hagrees hrefused ⟨i, hi, hname, p, hp, hcli, x, hx, hxf⟩
    rw [hflag]
    exact isSome_flagOf_of_floor hagrees hrefused hi hname hp hcli hx hxf
  · intro a cli f s hsound hs
    rw [hflag] at hs
    exact shows_of_sound hsound hs
  · intro a a' hsame
    rw [h, h, resolve_congr hsame]

/-! ### Sources that may fail to load -/

/-- The input of a source that could be loaded, under the name it was offered with. -/
def Offered.input? (o : Offered) : Option SurfaceInput :=
  match o.load with
  | .ok input => some { input with name := o.name }
  | .error _ => none

def Offered.failure? (o : Offered) : Option Skipped :=
  match o.load with
  | .ok _ => none
  | .error reason => some ⟨o.name, reason⟩

theorem loadOffered_eq (offered : List Offered) :
    loadOffered offered = (offered.filterMap Offered.input?, offered.filterMap Offered.failure?) := by
  induction offered with
  | nil => rfl
  | cons o rest ih =>
    rw [loadOffered, List.filterMap_cons, List.filterMap_cons, ih]
    unfold Offered.input? Offered.failure?
    cases o.load with
    | ok input => rfl
    | error reason => rfl

def loadedInputs (offered : List Offered) : List SurfaceInput := offered.filterMap Offered.input?

theorem loadedInputs_filter (offered : List Offered) (name : SurfaceSourceName) :
    (loadedInputs offered).filter (fun i => i.name = name) = loadedInputs (offered.filter fun o => o.name = name) := by
  unfold loadedInputs
  induction offered with
  | nil => rfl
  | cons o rest ih =>
    cases hload : o.load with
    | ok input =>
      have hinput : o.input? = some { input with name := o.name } := by
        unfold Offered.input?
        rw [hload]
      rw [List.filterMap_cons_some hinput, List.filter_cons, List.filter_cons, ih]
      by_cases hname : o.name = name
      · simp [hname, List.filterMap_cons_some hinput]
      · simp [hname]
    | error reason =>
      have hinput : o.input? = none := by
        unfold Offered.input?
        rw [hload]
      rw [List.filterMap_cons_none hinput, List.filter_cons, ih]
      split
      · rw [List.filterMap_cons_none hinput]
      · rfl

theorem perm_of_filter_name {offered offered' : List Offered}
    (h : ∀ name, offered.filter (fun o => o.name = name) = offered'.filter fun o => o.name = name) : offered.Perm offered' := by
  classical
  rw [List.perm_iff_count]
  intro o
  have hcount : ∀ l : List Offered, l.count o = (l.filter fun x => x.name = o.name).count o := by
    intro l
    rw [List.count_filter]
    simp
  rw [hcount, hcount offered', h]

/-- The merge of provider surfaces never subtracts, and does not depend on the order of the sources. -/
theorem providerSurfaces_neverSubtract (localeCompare : String → String → Ordering) :
    NeverSubtracts id (resolveProviderSurface localeCompare) ∧
      NeverSubtracts loadedInputs (resolveWithSkips localeCompare) ∧
      (∀ inputs inputs' : List SurfaceInput,
        (∀ name, inputs.filter (fun i => i.name = name) = inputs'.filter fun i => i.name = name) →
          resolveProviderSurface localeCompare inputs = resolveProviderSurface localeCompare inputs') ∧
      ∀ offered offered' : List Offered,
        (∀ name, offered.filter (fun o => o.name = name) = offered'.filter fun o => o.name = name) →
          (resolveWithSkips localeCompare offered).providers = (resolveWithSkips localeCompare offered').providers ∧
            (resolveWithSkips localeCompare offered).skipped.Perm (resolveWithSkips localeCompare offered').skipped := by
  refine ⟨neverSubtracts_of_providers localeCompare id _ fun _ => rfl, ?_, fun _ _ h => resolve_congr h, ?_⟩
  · apply neverSubtracts_of_providers localeCompare
    intro offered
    unfold resolveWithSkips
    rw [loadOffered_eq]
    rfl
  · intro offered offered' h
    have hloaded : ∀ name, (loadedInputs offered).filter (fun i => i.name = name) =
        (loadedInputs offered').filter fun i => i.name = name := by
      intro name
      rw [loadedInputs_filter, loadedInputs_filter, h name]
    have hsame : resolveProviderSurface localeCompare (loadedInputs offered) =
        resolveProviderSurface localeCompare (loadedInputs offered') := resolve_congr hloaded
    unfold resolveWithSkips
    rw [loadOffered_eq, loadOffered_eq]
    change (resolveProviderSurface localeCompare (loadedInputs offered)).providers =
        (resolveProviderSurface localeCompare (loadedInputs offered')).providers ∧
      (offered.filterMap Offered.failure? ++ (resolveProviderSurface localeCompare (loadedInputs offered)).skipped).Perm
        (offered'.filterMap Offered.failure? ++ (resolveProviderSurface localeCompare (loadedInputs offered')).skipped)
    rw [hsame]
    exact ⟨rfl, ((perm_of_filter_name h).filterMap _).append_right _⟩

/-- An input with one flag of one provider. -/
def oneFlag (name : SurfaceSourceName) (scope : List String) (flag : String) (refused : List String) : SurfaceInput :=
  ⟨name, [⟨"codex", scope, [⟨flag, none, none⟩], refused⟩]⟩

/-- The floor and the seed name flags of one command; the overlay names one of another, and refuses the flag of the seed. -/
def threeSources : List SurfaceInput := [oneFlag .retained ["exec"] "a" ["c"], oneFlag .seed ["exec"] "b" [], oneFlag .overlay [] "d" ["b"]]

theorem entriesFor_threeSources : entriesFor threeSources "codex" =
    [(.retained, ⟨"codex", ["exec"], [⟨"a", none, none⟩], ["c"]⟩), (.seed, ⟨"codex", ["exec"], [⟨"b", none, none⟩], []⟩),
      (.overlay, ⟨"codex", [], [⟨"d", none, none⟩], ["b"]⟩)] := by
  decide +kernel

theorem sound_threeSources : Sound threeSources "codex" := by
  have hfloor : ∀ e ∈ entriesFor threeSources "codex", e.1 = .retained → e.2.commandScope = ["exec"] := by decide +kernel
  refine ⟨⟨["exec"], fun pre e post hes hname _ => ?_⟩, fun pre e post S hes hname hbase hne => ?_⟩
  · exact hfloor e (by rw [hes]; exact List.mem_append_right _ List.mem_cons_self) hname
  · rw [entriesFor_threeSources] at hes
    rcases pre with _ | ⟨x, _ | ⟨y, _ | ⟨z, pre⟩⟩⟩
    · cases hbase
    · -- the seed describes the command of the floor
      obtain ⟨rfl, rfl, rfl⟩ : x = _ ∧ e = _ ∧ post = _ := by simpa [eq_comm] using hes
      exact absurd (Option.some.inj hbase) hne
    · obtain ⟨rfl, rfl, rfl, rfl⟩ : x = _ ∧ y = _ ∧ e = _ ∧ post = _ := by simpa [eq_comm] using hes
      obtain rfl : ["exec"] = S := Option.some.inj hbase
      decide +kernel
    · simp at hes

/-- Where all entries describe one command, no entry is of another one. -/
theorem sound_of_one_command {inputs : List SurfaceInput} {cli : String} {A : List String}
    (h : ∀ e ∈ entriesFor inputs cli, e.2.commandScope = A) : Sound inputs cli := by
  have hmem {pre post : List Statement} {e : Statement} (hes : entriesFor inputs cli = pre ++ e :: post) :
      e.2.commandScope = A ∧ ∀ x ∈ pre, x.2.commandScope = A := by
    rw [hes] at h
    exact ⟨h e (List.mem_append_right _ List.mem_cons_self), fun x hx => h x (List.mem_append_left _ hx)⟩
  refine ⟨⟨A, fun pre e post hes _ _ => (hmem hes).1⟩, fun pre e post S hes _ hbase hne => ?_⟩
  obtain ⟨x, hx, rfl⟩ := Option.map_eq_some_iff.1 hbase
  exact absurd ((hmem hes).1.trans ((hmem hes).2 x (List.mem_of_find?_eq_some hx)).symm) hne

/-- The overlay neither changes the command of the floor nor takes the flag of the seed away, and without it no flag is less. -/
theorem floor_outlasts_overlay :
    (resolveProviderSurface compare threeSources).scopeOf "codex" = some ["exec"] ∧
      ((resolveProviderSurface compare threeSources).flagOf "codex" "b").isSome = true ∧
      (resolveProviderSurface compare (threeSources.take 2)).scopeOf "codex" =
        (resolveProviderSurface compare threeSources).scopeOf "codex" ∧
      ((resolveProviderSurface compare (threeSources.take 2)).flagOf "codex" "b").isSome = true := by
  have h := (providerSurfaces_neverSubtract compare).1
  have htwo : Sound (threeSources.take 2) "codex" := sound_of_one_command (A := ["exec"]) (by decide +kernel)
  have hseed : ¬Refused threeSources "codex" "b" := by
    rw [refused_iff]
    decide +kernel
  have hsurvives : FloorSurvives threeSources "codex" := by
    refine ⟨_, List.mem_cons_self, rfl, _, List.mem_cons_self, rfl, _, List.mem_cons_self, ?_⟩
    rw [refused_iff]
    decide +kernel
  have hcommand : commandOf threeSources "codex" = some ["exec"] := by decide +kernel
  have hflag : ((resolveProviderSurface compare threeSources).flagOf "codex" "b").isSome = true := by
    refine (h.union threeSources "codex" "b" sound_threeSources).2 ⟨?_, hseed⟩
    exact ⟨_, List.mem_cons_of_mem _ List.mem_cons_self, _, List.mem_cons_self, rfl, hcommand, _, List.mem_cons_self, rfl⟩
  refine ⟨h.command _ _ _ sound_threeSources hcommand, hflag,
    (h.floor _ _ _ sound_threeSources htwo hsurvives (by decide +kernel)).1, ?_⟩
  refine (h.removed threeSources (threeSources.take 2) "codex" (threeSources.take 2) (oneFlag .overlay [] "d" ["b"]) [] (by decide) rfl
    (.inl rfl) sound_threeSources htwo (.inl hsurvives) "b").2 hflag ?_
  exact ⟨_, List.mem_cons_of_mem _ List.mem_cons_self, _, List.mem_cons_self, rfl, hcommand, _, List.mem_cons_self, rfl⟩

/-- Without a floor, taking the seed out shows a flag of the overlay, for the command of the overlay; and over a floor, it hides a
flag that the overlay names for another command only. -/
theorem removal_adds_and_removes :
    (((resolveProviderSurface compare [oneFlag .seed [] "a" [], oneFlag .overlay ["exec"] "b" []]).flagOf "codex" "b").isSome =
        false ∧
      ((resolveProviderSurface compare [oneFlag .overlay ["exec"] "b" []]).flagOf "codex" "b").isSome = true) ∧
      ((resolveProviderSurface compare [oneFlag .retained ["exec"] "a" [], oneFlag .seed ["exec"] "b" [],
          oneFlag .overlay [] "b" []]).flagOf "codex" "b").isSome = true ∧
        ((resolveProviderSurface compare [oneFlag .retained ["exec"] "a" [], oneFlag .overlay [] "b" []]).flagOf
          "codex" "b").isSome = false := by
  decide +kernel

-- data that refuses the floor's only flag is not `Quiet`: the surface is then of another command
example : (resolveProviderSurface compare [oneFlag .retained ["exec"] "a" [], oneFlag .overlay [] "b" ["a"]]).scopeOf "codex" =
    some [] := by decide +kernel

end LlmGateway.Surface
