import LlmGateway.Router.Priors

/-!
# What a principal learns from

With `priorsScope` "principal" the rows of the principal are kept, but a mistral row is marked as a continued turn when its
session was seen in a row of anybody before. `Unshared` says when that makes no difference, and `lcrPriors_iff` that nothing else
of the other rows reaches the priors.
-/

namespace LlmGateway.Router

open LlmGateway.Lib Utf16

section Scope

variable (toLowerCase : Text → Text) (P : Text)

def ownRows (db : List LcrPriorSourceRow) : List LcrPriorSourceRow := db.filter fun r => r.owner_principal = some P

/-- The row gives a calibration sample, as a fresh turn. -/
def Calibrates (row : LcrPriorSourceRow) : Prop := (calibrationSample toLowerCase (toLcrPriorRow row false)).isSome = true

instance (row : LcrPriorSourceRow) : Decidable (Calibrates toLowerCase row) := by
  unfold Calibrates
  infer_instance

/-- A row that calibrates and whose session was seen before was seen in a row of the principal. -/
def Unshared (db : List LcrPriorSourceRow) : Prop :=
  ∀ before row behind s, db = before ++ row :: behind → row.owner_principal = some P → mistralSession row = some s →
    Calibrates toLowerCase row → (∃ r ∈ before, mistralSession r = some s) →
      ∃ r ∈ before, r.owner_principal = some P ∧ mistralSession r = some s

/-- `Unshared`, where the sessions in `S` were seen before, and those in `T` in rows of the principal. -/
def UnsharedFrom (S T : Finset Text) (db : List LcrPriorSourceRow) : Prop :=
  ∀ before row behind s, db = before ++ row :: behind → row.owner_principal = some P → mistralSession row = some s →
    Calibrates toLowerCase row → (s ∈ S ∨ ∃ r ∈ before, mistralSession r = some s) →
      s ∈ T ∨ ∃ r ∈ before, r.owner_principal = some P ∧ mistralSession r = some s

/-- The sessions that are seen behind a row. -/
def seenBehind (S : Finset Text) (row : LcrPriorSourceRow) : Finset Text :=
  match mistralSession row with
  | none => S
  | some s => insert s S

def ownBehind (T : Finset Text) (row : LcrPriorSourceRow) : Finset Text :=
  if row.owner_principal = some P then seenBehind T row else T

variable {toLowerCase P}

theorem mem_seenBehind {S : Finset Text} {row : LcrPriorSourceRow} {s : Text} :
    s ∈ seenBehind S row ↔ s ∈ S ∨ mistralSession row = some s := by
  unfold seenBehind
  cases mistralSession row with
  | none => simp
  | some t => simp [or_comm, eq_comm]

theorem mem_ownBehind {T : Finset Text} {row : LcrPriorSourceRow} {s : Text} :
    s ∈ ownBehind P T row ↔ s ∈ T ∨ (row.owner_principal = some P ∧ mistralSession row = some s) := by
  unfold ownBehind
  split
  · rename_i h
    simp [mem_seenBehind, h]
  · rename_i h
    simp [h]

theorem unsharedFrom_cons {S T : Finset Text} {row : LcrPriorSourceRow} {rows : List LcrPriorSourceRow} :
    UnsharedFrom toLowerCase P S T (row :: rows) ↔
      (∀ s, row.owner_principal = some P → mistralSession row = some s → Calibrates toLowerCase row → s ∈ S → s ∈ T) ∧
        UnsharedFrom toLowerCase P (seenBehind S row) (ownBehind P T row) rows := by
  constructor
  · intro h
    constructor
    · intro s howner hs hcal hS
      simpa using h [] row rows s rfl howner hs hcal (.inl hS)
    · rintro before r behind s rfl howner hs hcal hseen
      rw [mem_seenBehind] at hseen
      rw [mem_ownBehind]
      have hbefore : s ∈ S ∨ ∃ r' ∈ row :: before, mistralSession r' = some s := by
        rcases hseen with (hS | hrow) | ⟨r', hr', hs'⟩
        · exact .inl hS
        · exact .inr ⟨row, List.mem_cons_self, hrow⟩
        · exact .inr ⟨r', List.mem_cons_of_mem _ hr', hs'⟩
      rcases h (row :: before) r behind s rfl howner hs hcal hbefore with hT | ⟨r', hr', howner', hs'⟩
      · exact .inl (.inl hT)
      · rcases List.mem_cons.1 hr' with rfl | hr'
        · exact .inl (.inr ⟨howner', hs'⟩)
        · exact .inr ⟨r', hr', howner', hs'⟩
  · rintro ⟨hhead, htail⟩ before r behind s hsplit howner hs hcal hseen
    cases before with
    | nil =>
      obtain ⟨rfl, rfl⟩ := List.cons_eq_cons.1 hsplit
      rcases hseen with hS | ⟨r', hr', -⟩
      · exact .inl (hhead s howner hs hcal hS)
      · cases hr'
    | cons b before =>
      obtain ⟨rfl, hrows⟩ := List.cons_eq_cons.1 hsplit
      have hbefore : s ∈ seenBehind S row ∨ ∃ r' ∈ before, mistralSession r' = some s := by
        rw [mem_seenBehind]
        rcases hseen with hS | ⟨r', hr', hs'⟩
        · exact .inl (.inl hS)
        · rcases List.mem_cons.1 hr' with rfl | hr'
          · exact .inl (.inr hs')
          · exact .inr ⟨r', hr', hs'⟩
      rcases htail before r behind s hrows howner hs hcal hbefore with hT | ⟨r', hr', howner', hs'⟩
      · rcases mem_ownBehind.1 hT with hT | ⟨howner', hs'⟩
        · exact .inl hT
        · exact .inr ⟨row, List.mem_cons_self, howner', hs'⟩
      · exact .inr ⟨r', List.mem_cons_of_mem _ hr', howner', hs'⟩

theorem unshared_iff {db : List LcrPriorSourceRow} : Unshared toLowerCase P db ↔ UnsharedFrom toLowerCase P ∅ ∅ db := by
  unfold Unshared UnsharedFrom
  simp

/-! ### The loader, row by row -/

/-- Whether the row is marked. -/
def continues (S : Finset Text) (row : LcrPriorSourceRow) : Bool := (mistralSession row).any fun s => decide (s ∈ S)

theorem markContinued_cons (S : Finset Text) (row : LcrPriorSourceRow) (rows : List LcrPriorSourceRow) :
    markContinued S (row :: rows) = toLcrPriorRow row (continues S row) :: markContinued (seenBehind S row) rows := by
  unfold continues seenBehind
  rw [markContinued]
  cases mistralSession row with
  | none => rfl
  | some s => rfl

/-- The loaded rows of the principal, of all rows. -/
def loadedOwn (P : Text) (S : Finset Text) (db : List LcrPriorSourceRow) : List LcrPriorRow :=
  (markContinued S db).filter fun r => r.ownerPrincipal = some P

theorem loadedOwn_cons (S : Finset Text) (row : LcrPriorSourceRow) (rows : List LcrPriorSourceRow) :
    loadedOwn P S (row :: rows) =
      (if row.owner_principal = some P then [toLcrPriorRow row (continues S row)] else []) ++
        loadedOwn P (seenBehind S row) rows := by
  unfold loadedOwn
  rw [markContinued_cons, List.filter_cons]
  have howner : (toLcrPriorRow row (continues S row)).ownerPrincipal = row.owner_principal := rfl
  rw [howner]
  by_cases h : row.owner_principal = some P
  · simp [h]
  · simp [h]

theorem loadedOwn_ownRows_cons (T : Finset Text) (row : LcrPriorSourceRow) (rows : List LcrPriorSourceRow) :
    loadedOwn P T (ownRows P (row :: rows)) =
      (if row.owner_principal = some P then [toLcrPriorRow row (continues T row)] else []) ++
        loadedOwn P (ownBehind P T row) (ownRows P rows) := by
  unfold ownRows ownBehind
  by_cases h : row.owner_principal = some P
  · rw [List.filter_cons_of_pos (by simpa using h), loadedOwn_cons, if_pos h, if_pos h]
  · rw [List.filter_cons_of_neg (by simpa using h), if_neg h, if_neg h, List.nil_append]

/-! ### Samples with and without the rows of others -/

theorem samplesAt_append (sample : LcrPriorRow → Option (Text × ℚ)) (rows rows' : List LcrPriorRow) (k : Text) :
    samplesAt sample (rows ++ rows') k = samplesAt sample rows k ++ samplesAt sample rows' k :=
  List.filterMap_append

/-- A sample that does not look at the mark is the same with the rows of others. -/
theorem samplesAt_unmarked {sample : LcrPriorRow → Option (Text × ℚ)}
    (h : ∀ row b b', sample (toLcrPriorRow row b) = sample (toLcrPriorRow row b')) (S T : Finset Text)
    (db : List LcrPriorSourceRow) (k : Text) :
    samplesAt sample (loadedOwn P S db) k = samplesAt sample (loadedOwn P T (ownRows P db)) k := by
  induction db generalizing S T with
  | nil => rfl
  | cons row rows ih =>
    rw [loadedOwn_cons, loadedOwn_ownRows_cons, samplesAt_append, samplesAt_append, ih _ (ownBehind P T row)]
    congr 1
    split
    · simp only [samplesAt, List.filterMap_cons, h row (continues S row) (continues T row)]
    · rfl

theorem calibrationSample_marked (row : LcrPriorSourceRow) (b : Bool) :
    calibrationSample toLowerCase (toLcrPriorRow row b) =
      if b = true then none else calibrationSample toLowerCase (toLcrPriorRow row false) := by
  cases b with
  | false => rfl
  | true =>
    unfold calibrationSample
    dsimp only [toLcrPriorRow]
    cases toDerivation row <;> simp

/-- The calibration samples of one row. -/
def headSamples (toLowerCase : Text → Text) (P : Text) (S : Finset Text) (row : LcrPriorSourceRow) (k : Text) : List ℚ :=
  samplesAt (calibrationSample toLowerCase)
    (if row.owner_principal = some P then [toLcrPriorRow row (continues S row)] else []) k

theorem headSamples_eq (S : Finset Text) (row : LcrPriorSourceRow) (k : Text) :
    headSamples toLowerCase P S row k =
      if row.owner_principal = some P ∧ continues S row = false then
        (JsMap.valueAt k (calibrationSample toLowerCase (toLcrPriorRow row false))).toList
      else [] := by
  unfold headSamples
  by_cases howner : row.owner_principal = some P
  · rw [if_pos howner, samplesAt, List.filterMap_cons, calibrationSample_marked]
    cases hc : continues S row with
    | true => simp [JsMap.valueAt]
    | false =>
      simp only [howner, and_self, if_true, Bool.false_eq_true, if_false, List.filterMap_nil]
      cases JsMap.valueAt k (calibrationSample toLowerCase (toLcrPriorRow row false)) <;> rfl
  · simp [howner, samplesAt]

theorem continues_mono {S T : Finset Text} (hTS : T ⊆ S) {row : LcrPriorSourceRow} (h : continues S row = false) :
    continues T row = false := by
  unfold continues at h ⊢
  cases hs : mistralSession row with
  | none => rfl
  | some s =>
    rw [hs] at h
    simp only [Option.any_some, decide_eq_false_iff_not] at h ⊢
    exact fun hT => h (hTS hT)

theorem headSamples_sublist {S T : Finset Text} (hTS : T ⊆ S) (row : LcrPriorSourceRow) (k : Text) :
    (headSamples toLowerCase P S row k).Sublist (headSamples toLowerCase P T row k) := by
  rw [headSamples_eq, headSamples_eq]
  split
  · rename_i h
    rw [if_pos ⟨h.1, continues_mono hTS h.2⟩]
  · exact List.nil_sublist _

theorem ownBehind_subset {S T : Finset Text} (hTS : T ⊆ S) (row : LcrPriorSourceRow) : ownBehind P T row ⊆ seenBehind S row := by
  intro s hs
  rw [mem_seenBehind]
  rcases mem_ownBehind.1 hs with hT | ⟨-, hrow⟩
  · exact .inl (hTS hT)
  · exact .inr hrow

/-- **The rows of others can only take samples away.** -/
theorem calibration_sublist {S T : Finset Text} (hTS : T ⊆ S) (db : List LcrPriorSourceRow) (k : Text) :
    (samplesAt (calibrationSample toLowerCase) (loadedOwn P S db) k).Sublist
      (samplesAt (calibrationSample toLowerCase) (loadedOwn P T (ownRows P db)) k) := by
  induction db generalizing S T with
  | nil => exact List.nil_sublist _
  | cons row rows ih =>
    rw [loadedOwn_cons, loadedOwn_ownRows_cons, samplesAt_append, samplesAt_append]
    exact (headSamples_sublist hTS row k).append (ih (ownBehind_subset hTS row))

/-- They take none where no session is shared. -/
theorem calibration_eq {S T : Finset Text} (hTS : T ⊆ S) {db : List LcrPriorSourceRow}
    (h : UnsharedFrom toLowerCase P S T db) (k : Text) :
    samplesAt (calibrationSample toLowerCase) (loadedOwn P S db) k =
      samplesAt (calibrationSample toLowerCase) (loadedOwn P T (ownRows P db)) k := by
  induction db generalizing S T with
  | nil => rfl
  | cons row rows ih =>
    obtain ⟨hhead, htail⟩ := unsharedFrom_cons.1 h
    have hsame : headSamples toLowerCase P S row k = headSamples toLowerCase P T row k := by
      rw [headSamples_eq, headSamples_eq]
      by_cases howner : row.owner_principal = some P
      · by_cases hcal : Calibrates toLowerCase row
        · have hcontinues : continues S row = continues T row := by
            unfold continues
            cases hs : mistralSession row with
            | none => rfl
            | some s =>
              have hiff : s ∈ S ↔ s ∈ T := ⟨hhead s howner hs hcal, fun hT => hTS hT⟩
              simp [hiff]
          rw [hcontinues]
        · have hnone : calibrationSample toLowerCase (toLcrPriorRow row false) = none := by
            simpa [Calibrates] using hcal
          simp [hnone, JsMap.valueAt]
      · simp [howner]
    rw [loadedOwn_cons, loadedOwn_ownRows_cons, samplesAt_append, samplesAt_append, ih (ownBehind_subset hTS row) htail]
    exact congrArg (· ++ _) hsame

/-- They take one where a session is shared. -/
theorem calibration_lt {S T : Finset Text} (hTS : T ⊆ S) {db : List LcrPriorSourceRow}
    (h : ¬UnsharedFrom toLowerCase P S T db) :
    ∃ k, (samplesAt (calibrationSample toLowerCase) (loadedOwn P S db) k).length <
      (samplesAt (calibrationSample toLowerCase) (loadedOwn P T (ownRows P db)) k).length := by
  induction db generalizing S T with
  | nil =>
    refine absurd ?_ h
    intro before row behind s hsplit
    simp at hsplit
  | cons row rows ih =>
    have hlen : ∀ k, samplesAt (calibrationSample toLowerCase) (loadedOwn P S (row :: rows)) k =
          headSamples toLowerCase P S row k ++
            samplesAt (calibrationSample toLowerCase) (loadedOwn P (seenBehind S row) rows) k ∧
        samplesAt (calibrationSample toLowerCase) (loadedOwn P T (ownRows P (row :: rows))) k =
          headSamples toLowerCase P T row k ++
            samplesAt (calibrationSample toLowerCase) (loadedOwn P (ownBehind P T row) (ownRows P rows)) k := by
      intro k
      rw [loadedOwn_cons, loadedOwn_ownRows_cons, samplesAt_append, samplesAt_append]
      exact ⟨rfl, rfl⟩
    rw [unsharedFrom_cons, not_and_or] at h
    rcases h with h | h
    · push Not at h
      obtain ⟨s, howner, hs, hcal, hS, hT⟩ := h
      obtain ⟨⟨k, v⟩, hsample⟩ := Option.isSome_iff_exists.1 hcal
      refine ⟨k, ?_⟩
      have hfull : headSamples toLowerCase P S row k = [] := by
        rw [headSamples_eq]
        simp [continues, hs, hS]
      have hown : headSamples toLowerCase P T row k = [v] := by
        rw [headSamples_eq, hsample, JsMap.valueAt_eq_some_iff.2 rfl]
        simp [continues, hs, hT, howner]
      have hsub : ownBehind P T row ⊆ seenBehind S row := ownBehind_subset hTS row
      have htail := (@calibration_sublist toLowerCase P _ _ hsub rows k).length_le
      rw [(hlen k).1, (hlen k).2, hfull, hown]
      simp only [List.nil_append, List.length_append, List.length_singleton]
      omega
    · obtain ⟨k, hk⟩ := ih (ownBehind_subset hTS row) h
      refine ⟨k, ?_⟩
      have hhead := (@headSamples_sublist toLowerCase P _ _ hTS row k).length_le
      rw [(hlen k).1, (hlen k).2, List.length_append, List.length_append]
      omega

/-! ### Isolation -/

/-- Learning from the rows of the principal. -/
def ownScope (P : Text) : ComputeLcrPriorsOptions := ⟨.principal, some P⟩

theorem samplesInScope_own (sample : LcrPriorRow → Option (Text × ℚ)) (db : List LcrPriorSourceRow) (k : Text) :
    samplesInScope sample (loadLcrPriorRows db) (ownScope P) k = samplesAt sample (loadedOwn P ∅ db) k :=
  rfl

/-- A bucket tells how many samples it has. -/
theorem length_of_bucket {vs ws : List ℚ}
    (h : (JsMap.ifAny vs).map toCalibrationBucket = (JsMap.ifAny ws).map toCalibrationBucket) : vs.length = ws.length := by
  unfold JsMap.ifAny at h
  by_cases hv : vs = []
  · by_cases hw : ws = []
    · rw [hv, hw]
    · simp [hv, hw] at h
  · by_cases hw : ws = []
    · simp [hv, hw] at h
    · rw [if_neg hv, if_neg hw] at h
      exact congrArg CalibrationBucket.samples (Option.some.inj h)

/-- The priors of a principal are those of its own rows alone, exactly when no session is shared. -/
theorem priors_ownRows_iff {db : List LcrPriorSourceRow} :
    SamePriors (computeLcrPriorsFromDb toLowerCase db (ownScope P)) (computeLcrPriorsFromDb toLowerCase (ownRows P db) (ownScope P)) ↔
      Unshared toLowerCase P db := by
  rw [unshared_iff]
  constructor
  · intro h
    by_contra hshared
    obtain ⟨k, hk⟩ := calibration_lt (Finset.Subset.refl ∅) hshared
    have hbucket := h.calibration k
    unfold computeLcrPriorsFromDb at hbucket
    rw [get_calibration, get_calibration, samplesInScope_own, samplesInScope_own] at hbucket
    exact hk.ne (length_of_bucket hbucket)
  · intro h
    refine ⟨fun k => ?_, fun k => ?_, fun k => ?_⟩
    · unfold computeLcrPriorsFromDb
      rw [get_outputPriors, get_outputPriors, samplesInScope_own, samplesInScope_own,
        samplesAt_unmarked (fun _ _ _ => rfl) ∅ ∅]
    · unfold computeLcrPriorsFromDb
      rw [get_calibration, get_calibration, samplesInScope_own, samplesInScope_own, calibration_eq (Finset.Subset.refl ∅) h]
    · unfold computeLcrPriorsFromDb
      rw [get_accuracyByBasis, get_accuracyByBasis, samplesInScope_own, samplesInScope_own,
        samplesAt_unmarked (fun _ _ _ => rfl) ∅ ∅]

theorem SamePriors.trans {p q r : LcrPriors} (h : SamePriors p q) (h' : SamePriors q r) : SamePriors p r :=
  ⟨fun k => (h.outputPriors k).trans (h'.outputPriors k), fun k => (h.calibration k).trans (h'.calibration k),
    fun k => (h.accuracyByBasis k).trans (h'.accuracyByBasis k)⟩

theorem SamePriors.symm {p q : LcrPriors} (h : SamePriors p q) : SamePriors q p :=
  ⟨fun k => (h.outputPriors k).symm, fun k => (h.calibration k).symm, fun k => (h.accuracyByBasis k).symm⟩

/-- Own rows share no session with those of others. -/
theorem unshared_ownRows (db : List LcrPriorSourceRow) : Unshared toLowerCase P (ownRows P db) := by
  rintro before row behind s hsplit - - - ⟨r, hr, hs⟩
  have hmem : r ∈ ownRows P db := by
    rw [hsplit]
    exact List.mem_append_left _ hr
  exact ⟨r, hr, by simpa using (List.mem_filter.1 hmem).2, hs⟩

end Scope

section Fixed

/-- A turn of a mistral session. -/
def mistralTurn (owner : Text) : LcrPriorSourceRow where
  cli := text "mistral"
  model := text "devstral-small"
  derived_prompt_chars := some 400
  derived_content_class := some (text "prose")
  input_tokens := some 120
  output_tokens := some 10
  cache_read_tokens := none
  cache_creation_tokens := none
  cost_basis := none
  owner_principal := some owner
  session_id := some (text "s1")
  cost_usd := none
  route_est_cost_usd := none

end Fixed

end LlmGateway.Router
