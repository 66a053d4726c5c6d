import LlmGateway.Surface.Merge

/-!
# What a merge of surfaces keeps

A provider's command is the one that the first entry describes which names a flag the floor does not refuse (`baseScope`), and its
flags are those that the entries describing this command name, but for the refused ones (`merged_mergeEntries`).  That is so where
the floor's own entries agree on the command, and where no data empties an entry or the surface by a refused list of its own
(`Quiet`).
-/

namespace LlmGateway.Surface

open LlmGateway.Lib

abbrev Statement := SurfaceSourceName × SurfaceProviderInput

section Spec

variable (es : List Statement)

/-- What the floor refuses. -/
def refusals : Finset String := ((es.filter fun e => e.1 = .retained).flatMap fun e => e.2.refused).toFinset

/-- The entry names a flag outside `R`. -/
def survives (R : Finset String) (e : Statement) : Bool := e.2.flags.any fun i => decide (i.flag ∉ R)

/-- The command of the first entry that names a flag the floor does not refuse. -/
def baseScope : Option (List String) := (es.find? (survives (refusals es))).map fun e => e.2.commandScope

def occurrences (e : Statement) (f : String) : List (SurfaceSourceName × SurfaceFlagInput) :=
  (e.2.flags.filter fun i => i.flag = f).map fun i => (e.1, i)

/-- What the entries describing the command say of a flag. -/
def occurrencesIn (S : Option (List String)) (f : String) : List (SurfaceSourceName × SurfaceFlagInput) :=
  (es.filter fun e => S = some e.2.commandScope).flatMap fun e => occurrences e f

def mergeOccurrences (previous : Option SurfaceFlag) (os : List (SurfaceSourceName × SurfaceFlagInput)) : Option SurfaceFlag :=
  os.foldl (fun acc o => some (mergeFlag acc o.2 o.1)) previous

/-- The entries of the floor that name a flag not refused so far describe the command `A`. -/
def FloorAgreesOn (A : List String) : Prop :=
  ∀ pre e post, es = pre ++ e :: post → e.1 = .retained → survives (refusals (pre ++ [e])) e = true → e.2.commandScope = A

def FloorAgrees : Prop := ∃ A, FloorAgreesOn es A

/-- An entry of data describing another command than the surface leaves, by its own refused list, a flag of the surface and,
where it names one, a flag of its own. -/
def Quiet : Prop :=
  ∀ pre e post S, es = pre ++ e :: post → e.1 ≠ .retained → baseScope pre = some S → e.2.commandScope ≠ S →
    (∃ x ∈ pre, x.2.commandScope = S ∧ ∃ i ∈ x.2.flags, i.flag ∉ refusals pre ∧ i.flag ∉ e.2.refused) ∧
      (survives (refusals pre) e = true → ∃ i ∈ e.2.flags, i.flag ∉ refusals pre ∧ i.flag ∉ e.2.refused)

/-- The floor comes first. -/
def FloorFirst : Prop := ∀ pre e post, es = pre ++ e :: post → e.1 = .retained → ∀ x ∈ pre, x.1 = .retained

end Spec

section Lemmas

variable {es : List Statement} {e : Statement} {f : String} {S : Option (List String)} {A : List String}

theorem mem_refusals : f ∈ refusals es ↔ ∃ e ∈ es, e.1 = .retained ∧ f ∈ e.2.refused := by
  unfold refusals
  simp [and_assoc]

theorem refusals_concat : refusals (es ++ [e]) = if e.1 = .retained then refusals es ∪ e.2.refused.toFinset else refusals es := by
  ext f
  split
  · rename_i h
    simp [mem_refusals, or_and_right, exists_or, h]
  · rename_i h
    simp [mem_refusals, or_and_right, exists_or, h]

theorem refusals_mono {pre post : List Statement} (h : f ∈ refusals pre) : f ∈ refusals (pre ++ post) := by
  obtain ⟨e, he, hname, hf⟩ := mem_refusals.1 h
  exact mem_refusals.2 ⟨e, List.mem_append_left _ he, hname, hf⟩

theorem survives_iff {R : Finset String} : survives R e = true ↔ ∃ i ∈ e.2.flags, i.flag ∉ R := by
  unfold survives
  simp

theorem mergeOccurrences_append (previous : Option SurfaceFlag) (os os' : List (SurfaceSourceName × SurfaceFlagInput)) :
    mergeOccurrences previous (os ++ os') = mergeOccurrences (mergeOccurrences previous os) os' := List.foldl_append

theorem occurrencesIn_concat :
    occurrencesIn (es ++ [e]) S f = occurrencesIn es S f ++ if S = some e.2.commandScope then occurrences e f else [] := by
  unfold occurrencesIn
  rw [List.filter_append, List.flatMap_append, List.filter_cons]
  split
  · rename_i h
    rw [if_pos (by simpa using h)]
    simp
  · rename_i h
    rw [if_neg (by simpa using h)]
    simp

theorem occurrences_eq_nil (h : ∀ i ∈ e.2.flags, i.flag ≠ f) : occurrences e f = [] := by
  unfold occurrences
  rw [List.map_eq_nil_iff, List.filter_eq_nil_iff]
  intro i hi
  simpa using h i hi

theorem occurrencesIn_eq_nil (h : ∀ x ∈ es, ∀ i ∈ x.2.flags, i.flag ≠ f) : occurrencesIn es S f = [] := by
  unfold occurrencesIn
  rw [List.flatMap_eq_nil_iff]
  intro x hx
  exact occurrences_eq_nil (h x (List.mem_filter.1 hx).1)

theorem baseScope_eq_none : baseScope es = none ↔ ∀ x ∈ es, ∀ i ∈ x.2.flags, i.flag ∈ refusals es := by
  unfold baseScope
  rw [Option.map_eq_none_iff, List.find?_eq_none]
  constructor
  · intro h x hx i hi
    by_contra hif
    exact h x hx (survives_iff.2 ⟨i, hi, hif⟩)
  · intro h x hx hsurv
    obtain ⟨i, hi, hif⟩ := survives_iff.1 hsurv
    exact hif (h x hx i hi)

/-- An entry of data leaves the command, where there is one. -/
theorem baseScope_concat (hname : e.1 ≠ .retained) :
    baseScope (es ++ [e]) =
      (baseScope es).or (if survives (refusals es) e = true then some e.2.commandScope else none) := by
  unfold baseScope
  rw [refusals_concat, if_neg hname, List.find?_append]
  cases es.find? (survives (refusals es)) with
  | some x => rfl
  | none =>
    rw [Option.none_or, List.find?_singleton]
    split
    · rfl
    · rfl

/-! ### Prefixes -/

theorem FloorAgreesOn.of_append {post : List Statement} (h : FloorAgreesOn (es ++ post) A) : FloorAgreesOn es A := by
  intro pre e post' hes
  apply h pre e (post' ++ post)
  rw [hes, List.append_assoc, List.cons_append]

theorem Quiet.of_append {post : List Statement} (h : Quiet (es ++ post)) : Quiet es := by
  intro pre e post' S hes
  apply h pre e (post' ++ post) S
  rw [hes, List.append_assoc, List.cons_append]

theorem FloorFirst.of_append {post : List Statement} (h : FloorFirst (es ++ post)) : FloorFirst es := by
  intro pre e post' hes
  apply h pre e (post' ++ post)
  rw [hes, List.append_assoc, List.cons_append]

/-- An entry of the floor naming a flag that the floor does not refuse describes the command of the floor. -/
theorem scope_of_floor (hagrees : FloorAgreesOn es A) {x : Statement} (hx : x ∈ es) (hname : x.1 = .retained)
    (hsurv : survives (refusals es) x = true) : x.2.commandScope = A := by
  obtain ⟨pre, post, hes⟩ := List.append_of_mem hx
  apply hagrees pre x post hes hname
  obtain ⟨i, hi, hif⟩ := survives_iff.1 hsurv
  refine survives_iff.2 ⟨i, hi, ?_⟩
  intro hmem
  apply hif
  rw [hes, List.append_cons]
  exact refusals_mono hmem

theorem baseScope_of_floor (hagrees : FloorAgreesOn es A) (hfloor : ∀ x ∈ es, x.1 = .retained) {x : Statement} (hx : x ∈ es)
    (hsurv : survives (refusals es) x = true) : baseScope es = some A := by
  have hsome : (es.find? (survives (refusals es))).isSome = true := by
    rw [List.find?_isSome]
    exact ⟨x, hx, hsurv⟩
  obtain ⟨y, hy⟩ := Option.isSome_iff_exists.1 hsome
  have hmem := List.mem_of_find?_eq_some hy
  unfold baseScope
  rw [hy, Option.map_some, scope_of_floor hagrees hmem (hfloor y hmem) (List.find?_some hy)]

end Lemmas

/-! ### The share of a provider -/

def Share.flagOf (st : Share) (f : String) : Option SurfaceFlag := st.existing.bind fun h => h.flags.get f

theorem get_foldl_mergeFlag (name : SurfaceSourceName) (incoming : List SurfaceFlagInput) (flags : JsMap String SurfaceFlag)
    (f : String) :
    (incoming.foldl (fun flags flag => flags.set flag.flag (mergeFlag (flags.get flag.flag) flag name)) flags).get f =
      mergeOccurrences (flags.get f) ((incoming.filter fun i => i.flag = f).map fun i => (name, i)) := by
  induction incoming generalizing flags with
  | nil => rfl
  | cons i incoming ih =>
    rw [List.foldl_cons, ih, JsMap.get_set, List.filter_cons]
    by_cases hi : i.flag = f
    · subst hi
      simp [mergeOccurrences]
    · simp [hi]

theorem flagOf_merged (st : Share) (e : Statement) (f : String) (R : Finset String) :
    Share.flagOf ⟨some (mergedHeld st e.1 e.2), R⟩ f = mergeOccurrences (st.flagOf f) (occurrences e f) := by
  change (mergedFlags st e.1 e.2).get f = _
  unfold mergedFlags
  rw [get_foldl_mergeFlag]
  unfold Share.flagOf occurrences
  cases st.existing with
  | none => rfl
  | some h => rfl

theorem existingLive_pos {st : Share} {p : SurfaceProviderInput} :
    0 < existingLive st p ↔ ∃ f, f ∉ refusedHere st p ∧ (st.flagOf f).isSome = true := by
  unfold existingLive Share.flagOf
  cases st.existing with
  | none => simp
  | some h =>
    simp only [List.length_pos_iff_exists_mem, List.mem_filter, List.mem_map, Option.bind_some, decide_eq_true_eq]
    constructor
    · rintro ⟨f, ⟨x, hx, rfl⟩, hf⟩
      exact ⟨x.1, hf, by rw [JsMap.get_of_mem hx]; rfl⟩
    · rintro ⟨f, hf, hsome⟩
      obtain ⟨s, hs⟩ := Option.isSome_iff_exists.1 hsome
      exact ⟨f, ⟨(f, s), JsMap.get_eq_some_iff.1 hs, rfl⟩, hf⟩

theorem incomingLive_pos {st : Share} {p : SurfaceProviderInput} :
    0 < incomingLive st p ↔ ∃ i ∈ p.flags, i.flag ∉ refusedHere st p := by
  unfold incomingLive
  simp only [List.length_pos_iff_exists_mem, List.mem_filter, decide_eq_true_eq]

theorem scopeConflict_iff {st : Share} {p : SurfaceProviderInput} :
    scopeConflict st p = true ↔
      ∃ h, st.existing = some h ∧ 0 < existingLive st p ∧ 0 < incomingLive st p ∧ h.entry.commandScope ≠ p.commandScope := by
  unfold scopeConflict
  cases st.existing with
  | none => simp
  | some h => simp [and_assoc]

theorem mergeEntry_of_conflict {st : Share} {e : Statement} (h : scopeConflict st e.2 = true) :
    mergeEntry st e.1 e.2 = st := by
  unfold mergeEntry
  rw [if_pos h]

theorem mergeEntry_of_not_conflict {st : Share} {e : Statement} (h : ¬ scopeConflict st e.2 = true) :
    mergeEntry st e.1 e.2 =
      ⟨some (mergedHeld st e.1 e.2), if e.1 = .retained then refusedHere st e.2 else st.refused⟩ := by
  unfold mergeEntry
  rw [if_neg h]

theorem mergedScope_of_live {st : Share} {p : SurfaceProviderInput} (h : 0 < incomingLive st p) :
    mergedScope st p = p.commandScope := by
  unfold mergedScope
  cases st.existing with
  | none => rfl
  | some held => exact if_neg fun hlive => by omega

theorem mergedScope_of_dead {st : Share} {p : SurfaceProviderInput} {held : Held} (hheld : st.existing = some held)
    (hlive : 0 < existingLive st p) (h : ¬ 0 < incomingLive st p) : mergedScope st p = held.entry.commandScope := by
  unfold mergedScope
  rw [hheld]
  exact if_pos ⟨hlive, by omega⟩

/-- The new scope is one of the two. -/
theorem mergedScope_eq {st : Share} {p : SurfaceProviderInput} {held : Held} {S : List String}
    (hheld : st.existing = some held) (hS : held.entry.commandScope = S) (hp : p.commandScope = S) : mergedScope st p = S := by
  unfold mergedScope
  rw [hheld]
  dsimp only
  split
  · exact hS
  · exact hp

theorem mem_occurrencesIn {es : List Statement} {S : Option (List String)} {f : String}
    {o : SurfaceSourceName × SurfaceFlagInput} :
    o ∈ occurrencesIn es S f ↔ ∃ x ∈ es, S = some x.2.commandScope ∧ ∃ i ∈ x.2.flags, i.flag = f ∧ (x.1, i) = o := by
  unfold occurrencesIn occurrences
  simp [and_assoc]

theorem isSome_mergeOccurrences (previous : Option SurfaceFlag) (os : List (SurfaceSourceName × SurfaceFlagInput)) :
    (mergeOccurrences previous os).isSome = true ↔ previous.isSome = true ∨ os ≠ [] := by
  induction os generalizing previous with
  | nil => simp [mergeOccurrences]
  | cons o os ih =>
    change (mergeOccurrences (some (mergeFlag previous o.2 o.1)) os).isSome = true ↔ _
    rw [ih]
    simp

/-- The share holds what the entries describing the command say. -/
structure Merged (es : List Statement) (st : Share) : Prop where
  refused_eq : st.refused = refusals es
  existing_isSome : st.existing.isSome = true ↔ es ≠ []
  flagOf_eq : ∀ f, f ∉ refusals es → st.flagOf f = mergeOccurrences none (occurrencesIn es (baseScope es) f)
  scope_eq : ∀ S, baseScope es = some S → ∃ h, st.existing = some h ∧ h.entry.commandScope = S

section Step

variable {es : List Statement} {st : Share} {e : Statement} {f : String} {S A : List String}

theorem Merged.start : Merged [] Share.start where
  refused_eq := rfl
  existing_isSome := by simp [Share.start]
  flagOf_eq := fun _ _ => rfl
  scope_eq := by
    intro S hS
    cases hS

theorem Merged.flagOf_isSome (h : Merged es st) (hf : f ∉ refusals es) :
    (st.flagOf f).isSome = true ↔ ∃ x ∈ es, baseScope es = some x.2.commandScope ∧ ∃ i ∈ x.2.flags, i.flag = f := by
  rw [h.flagOf_eq f hf, isSome_mergeOccurrences]
  constructor
  · rintro (hnone | hne)
    · cases hnone
    · obtain ⟨o, ho⟩ := List.exists_mem_of_ne_nil _ hne
      obtain ⟨x, hx, hS, i, hi, hif, -⟩ := mem_occurrencesIn.1 ho
      exact ⟨x, hx, hS, i, hi, hif⟩
  · rintro ⟨x, hx, hS, i, hi, hif⟩
    right
    apply List.ne_nil_of_mem
    exact mem_occurrencesIn.2 ⟨x, hx, hS, i, hi, hif, rfl⟩

/-- A flag of an entry that the floor does not refuse: the entry describes the surface's command, and is asked for it. -/
theorem occurrences_of_scope {R : Finset String} {B : Option (List String)} (hf : f ∉ R)
    (h : survives R e = true → B = some e.2.commandScope) :
    (if B = some e.2.commandScope then occurrences e f else []) = occurrences e f := by
  by_cases hnames : ∃ i ∈ e.2.flags, i.flag = f
  · obtain ⟨i, hi, hif⟩ := hnames
    exact if_pos (h (survives_iff.2 ⟨i, hi, hif ▸ hf⟩))
  · rw [occurrences_eq_nil fun i hi hif => hnames ⟨i, hi, hif⟩]
    split <;> rfl

/-- **An entry of the floor is merged.** -/
theorem Merged.floor (h : Merged es st) (hagrees : FloorAgreesOn (es ++ [e]) A) (hfloor : ∀ x ∈ es, x.1 = .retained)
    (hname : e.1 = .retained) : Merged (es ++ [e]) (mergeEntry st e.1 e.2) := by
  have hrefused : refusedHere st e.2 = refusals (es ++ [e]) := by
    rw [refusals_concat, if_pos hname, refusedHere, h.refused_eq]
  have hall : ∀ x ∈ es ++ [e], x.1 = .retained := by
    intro x hx
    rcases List.mem_append.1 hx with hx | hx
    · exact hfloor x hx
    · rw [List.mem_singleton.1 hx, hname]
  have hself : e ∈ es ++ [e] := List.mem_append_right _ List.mem_cons_self
  have hscope : survives (refusals (es ++ [e])) e = true → e.2.commandScope = A := scope_of_floor hagrees hself hname
  have hbase : ∀ x ∈ es ++ [e], survives (refusals (es ++ [e])) x = true → baseScope (es ++ [e]) = some A :=
    fun x hx => baseScope_of_floor hagrees hall hx
  -- a flag that survives now did so before
  have hbefore : ∀ f, f ∉ refusals (es ++ [e]) → f ∉ refusals es := fun f hf hmem => hf (refusals_mono hmem)
  have hbase' : ∀ x ∈ es, ∀ i ∈ x.2.flags, i.flag ∉ refusals (es ++ [e]) → baseScope es = some A := by
    intro x hx i hi hif
    exact baseScope_of_floor hagrees.of_append hfloor hx (survives_iff.2 ⟨i, hi, hbefore _ hif⟩)
  have hheld : 0 < existingLive st e.2 → ∃ held, st.existing = some held ∧ held.entry.commandScope = A := by
    intro hlive
    obtain ⟨f, hf, hsome⟩ := existingLive_pos.1 hlive
    rw [hrefused] at hf
    obtain ⟨x, hx, -, i, hi, rfl⟩ := (h.flagOf_isSome (hbefore f hf)).1 hsome
    exact h.scope_eq A (hbase' x hx i hi hf)
  have hlive : 0 < incomingLive st e.2 ↔ survives (refusals (es ++ [e])) e = true := by
    rw [incomingLive_pos, survives_iff, hrefused]
  have hconflict : ¬ scopeConflict st e.2 = true := by
    intro hc
    obtain ⟨held, hst, hexisting, hincoming, hne⟩ := scopeConflict_iff.1 hc
    obtain ⟨held', hst', hA⟩ := hheld hexisting
    rw [hst] at hst'
    cases hst'
    exact hne (hA.trans (hscope (hlive.1 hincoming)).symm)
  rw [mergeEntry_of_not_conflict hconflict]
  refine ⟨?_, by simp, ?_, ?_⟩
  · rw [if_pos hname, hrefused]
  · intro f hf
    have hsame : occurrencesIn es (baseScope es) f = occurrencesIn es (baseScope (es ++ [e])) f := by
      by_cases hnames : ∃ x ∈ es, ∃ i ∈ x.2.flags, i.flag = f
      · obtain ⟨x, hx, i, hi, rfl⟩ := hnames
        rw [hbase' x hx i hi hf, hbase x (List.mem_append_left _ hx) (survives_iff.2 ⟨i, hi, hf⟩)]
      · have hnone : ∀ x ∈ es, ∀ i ∈ x.2.flags, i.flag ≠ f := fun x hx i hi hif => hnames ⟨x, hx, i, hi, hif⟩
        rw [occurrencesIn_eq_nil hnone, occurrencesIn_eq_nil hnone]
    rw [flagOf_merged, h.flagOf_eq f (hbefore f hf), hsame, occurrencesIn_concat, mergeOccurrences_append]
    rw [occurrences_of_scope hf fun hsurv => (hbase e hself hsurv).trans (congrArg some (hscope hsurv).symm)]
  · intro S hS
    refine ⟨mergedHeld st e.1 e.2, rfl, ?_⟩
    change mergedScope st e.2 = S
    have hsurvivor : ∃ x ∈ es ++ [e], survives (refusals (es ++ [e])) x = true := by
      obtain ⟨x, hx, -⟩ := Option.map_eq_some_iff.1 hS
      exact ⟨x, List.mem_of_find?_eq_some hx, List.find?_some hx⟩
    obtain ⟨x, hx, hsurv⟩ := hsurvivor
    have hA : A = S := by
      have hAS := (hbase x hx hsurv).symm.trans hS
      exact Option.some.inj hAS
    by_cases hincoming : 0 < incomingLive st e.2
    · rw [mergedScope_of_live hincoming, hscope (hlive.1 hincoming), hA]
    · rcases List.mem_append.1 hx with hx | hx
      · obtain ⟨i, hi, hif⟩ := survives_iff.1 hsurv
        have hexisting : 0 < existingLive st e.2 := by
          refine existingLive_pos.2 ⟨i.flag, hrefused ▸ hif, (h.flagOf_isSome (hbefore _ hif)).2 ⟨x, hx, ?_, i, hi, rfl⟩⟩
          rw [hbase' x hx i hi hif]
          exact congrArg some (scope_of_floor hagrees (List.mem_append_left _ hx) (hfloor x hx) hsurv).symm
        obtain ⟨held, hst, hheldA⟩ := hheld hexisting
        rw [mergedScope_of_dead hst hexisting hincoming, hheldA, hA]
      · rw [List.mem_singleton.1 hx] at hsurv
        exact absurd (hlive.2 hsurv) hincoming

/-- An entry of data that nothing stands before. -/
theorem Merged.first (h : Merged es st) (hname : e.1 ≠ .retained) (hbase : baseScope es = none) :
    Merged (es ++ [e]) (mergeEntry st e.1 e.2) := by
  have hR : refusals (es ++ [e]) = refusals es := by rw [refusals_concat, if_neg hname]
  have hdead : ¬ 0 < existingLive st e.2 := by
    intro hlive
    obtain ⟨f, hf, hsome⟩ := existingLive_pos.1 hlive
    have hfR : f ∉ refusals es := by
      intro hmem
      apply hf
      rw [refusedHere, h.refused_eq]
      exact Finset.mem_union_left _ hmem
    obtain ⟨x, -, hx, -⟩ := (h.flagOf_isSome hfR).1 hsome
    rw [hbase] at hx
    cases hx
  have hconflict : ¬ scopeConflict st e.2 = true := by
    intro hc
    obtain ⟨held, -, hexisting, -⟩ := scopeConflict_iff.1 hc
    exact hdead hexisting
  have hnew := @baseScope_concat es e hname
  rw [hbase, Option.none_or] at hnew
  rw [mergeEntry_of_not_conflict hconflict]
  refine ⟨?_, by simp, ?_, ?_⟩
  · rw [if_neg hname, hR, h.refused_eq]
  · intro f hf
    rw [hR] at hf
    have hnone : ∀ x ∈ es, ∀ i ∈ x.2.flags, i.flag ≠ f := by
      rintro x hx i hi rfl
      exact hf (baseScope_eq_none.1 hbase x hx i hi)
    rw [flagOf_merged, h.flagOf_eq f hf, occurrencesIn_concat, occurrencesIn_eq_nil hnone, occurrencesIn_eq_nil hnone,
      List.nil_append, occurrences_of_scope hf]
    · rfl
    · intro hsurv
      rw [hnew, if_pos hsurv]
  · intro S hS
    refine ⟨mergedHeld st e.1 e.2, rfl, ?_⟩
    rw [hnew] at hS
    split at hS
    · cases hS
      change mergedScope st e.2 = e.2.commandScope
      unfold mergedScope
      split
      · rfl
      · exact if_neg fun hlive => hdead hlive.1
    · cases hS

/-- An entry of data for the surface's command. -/
theorem Merged.same (h : Merged es st) (hname : e.1 ≠ .retained) (hbase : baseScope es = some e.2.commandScope) :
    Merged (es ++ [e]) (mergeEntry st e.1 e.2) := by
  have hR : refusals (es ++ [e]) = refusals es := by rw [refusals_concat, if_neg hname]
  have hnew : baseScope (es ++ [e]) = some e.2.commandScope := by rw [baseScope_concat hname, hbase, Option.some_or]
  obtain ⟨held, hst, hscope⟩ := h.scope_eq _ hbase
  have hconflict : ¬ scopeConflict st e.2 = true := by
    intro hc
    obtain ⟨held', hst', -, -, hne⟩ := scopeConflict_iff.1 hc
    rw [hst] at hst'
    cases hst'
    exact hne hscope
  rw [mergeEntry_of_not_conflict hconflict]
  refine ⟨?_, by simp, ?_, ?_⟩
  · rw [if_neg hname, hR, h.refused_eq]
  · intro f hf
    rw [hR] at hf
    rw [flagOf_merged, h.flagOf_eq f hf, hnew, occurrencesIn_concat, if_pos rfl, mergeOccurrences_append, hbase]
  · intro S hS
    rw [hnew] at hS
    cases hS
    exact ⟨mergedHeld st e.1 e.2, rfl, mergedScope_eq hst hscope rfl⟩

/-- An entry of data for another command changes nothing, unless it empties something. -/
theorem Merged.other (h : Merged es st) (hname : e.1 ≠ .retained) (hbase : baseScope es = some S)
    (hne : e.2.commandScope ≠ S) (hquiet : Quiet (es ++ [e])) : Merged (es ++ [e]) (mergeEntry st e.1 e.2) := by
  have hR : refusals (es ++ [e]) = refusals es := by rw [refusals_concat, if_neg hname]
  have hnew : baseScope (es ++ [e]) = some S := by rw [baseScope_concat hname, hbase, Option.some_or]
  obtain ⟨held, hst, hscope⟩ := h.scope_eq _ hbase
  obtain ⟨⟨x, hx, hxS, i, hi, hiR, hie⟩, hown⟩ := hquiet es e [] S rfl hname hbase hne
  have hhere : ∀ f, f ∉ refusals es → f ∉ e.2.refused → f ∉ refusedHere st e.2 := by
    intro f hfR hfe
    rw [refusedHere, h.refused_eq]
    simp [hfR, hfe]
  have hexisting : 0 < existingLive st e.2 := by
    refine existingLive_pos.2 ⟨i.flag, hhere _ hiR hie, (h.flagOf_isSome hiR).2 ⟨x, hx, ?_, i, hi, rfl⟩⟩
    rw [hbase, hxS]
  have hskip : ∀ f, occurrencesIn (es ++ [e]) (some S) f = occurrencesIn es (some S) f := by
    intro f
    rw [occurrencesIn_concat, if_neg fun heq => hne (Option.some.inj heq).symm, List.append_nil]
  by_cases hsurv : survives (refusals es) e = true
  · obtain ⟨j, hj, hjR, hje⟩ := hown hsurv
    have hincoming : 0 < incomingLive st e.2 := incomingLive_pos.2 ⟨j, hj, hhere _ hjR hje⟩
    rw [mergeEntry_of_conflict (scopeConflict_iff.2 ⟨held, hst, hexisting, hincoming, fun heq => hne (heq ▸ hscope)⟩)]
    refine ⟨hR ▸ h.refused_eq, ?_, ?_, ?_⟩
    · simp [hst]
    · intro f hf
      rw [hR] at hf
      rw [hnew, hskip, h.flagOf_eq f hf, hbase]
    · intro S' hS'
      rw [hnew] at hS'
      cases hS'
      exact ⟨held, hst, hscope⟩
  · have hincoming : ¬ 0 < incomingLive st e.2 := by
      intro hlive
      obtain ⟨j, hj, hjhere⟩ := incomingLive_pos.1 hlive
      apply hsurv
      refine survives_iff.2 ⟨j, hj, fun hmem => hjhere ?_⟩
      rw [refusedHere, h.refused_eq]
      exact Finset.mem_union_left _ hmem
    have hconflict : ¬ scopeConflict st e.2 = true := by
      intro hc
      obtain ⟨-, -, -, hlive, -⟩ := scopeConflict_iff.1 hc
      exact hincoming hlive
    rw [mergeEntry_of_not_conflict hconflict]
    refine ⟨?_, by simp, ?_, ?_⟩
    · rw [if_neg hname, hR, h.refused_eq]
    · intro f hf
      rw [hR] at hf
      have hnames : ∀ j ∈ e.2.flags, j.flag ≠ f := by
        rintro j hj rfl
        exact hsurv (survives_iff.2 ⟨j, hj, hf⟩)
      rw [flagOf_merged, h.flagOf_eq f hf, hnew, hskip, occurrences_eq_nil hnames, hbase]
      rfl
    · intro S' hS'
      rw [hnew] at hS'
      cases hS'
      exact ⟨mergedHeld st e.1 e.2, rfl, (mergedScope_of_dead hst hexisting hincoming).trans hscope⟩

end Step

/-- **The share of a provider is the union of what the entries describing its command say.** -/
theorem merged_mergeEntries (es : List Statement) (hfirst : FloorFirst es) (hagrees : FloorAgrees es) (hquiet : Quiet es) :
    Merged es (mergeEntries es) := by
  obtain ⟨A, hA⟩ := hagrees
  induction es using List.reverseRecOn with
  | nil => exact Merged.start
  | append_singleton es e ih =>
    have h := ih hfirst.of_append hquiet.of_append hA.of_append
    rw [mergeEntries_concat]
    by_cases hname : e.1 = .retained
    · exact h.floor hA (hfirst es e [] rfl hname) hname
    · cases hbase : baseScope es with
      | none => exact h.first hname hbase
      | some S =>
        by_cases hS : e.2.commandScope = S
        · exact h.same hname (hS ▸ hbase)
        · exact h.other hname hbase hS hquiet

end LlmGateway.Surface
