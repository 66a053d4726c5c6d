import LlmGateway.Workspace.Registry

/-!
# Confinement to a workspace

* `isUnder_iff` — what the check of containment says: a descendant is missed where its first component below the directory begins
  with two dots;
* `Confined`, `validatePathInsideWorkspace_iff` — the paths that belong to a workspace, and those that are let through;
* `path_confinement_iff` — when the two checks are exact.
-/

namespace LlmGateway.Workspace

open Lib Lib.PosixPath Lib.FileTree

variable {ι β : Type*}

/-- The component of `ns` below `ms` begins with two dots. -/
def Dotted (ms ns : List Name) : Prop := ∃ n ∈ ns[ms.length]?, dotdot <+: n

instance (ms ns : List Name) : Decidable (Dotted ms ns) := inferInstanceAs (Decidable (∃ n ∈ ns[ms.length]?, dotdot <+: n))

theorem isUnder_iff {parent child : Path} :
    isUnder parent child = true ↔ names parent <+: names child ∧ ¬Dotted (names parent) (names child) := by
  by_cases hprefix : names parent <+: names child
  · obtain ⟨rest, hrest⟩ := hprefix
    have hproper : ∀ n ∈ rest, Proper n := fun n hn => proper_names child n (by rw [← hrest]; exact List.mem_append_right _ hn)
    rw [isUnder, relative_of_prefix hrest]
    cases rest with
    | nil =>
      have hnot : ¬Dotted (names parent) (names child) := by
        rintro ⟨n, hn, -⟩
        rw [← hrest, List.append_nil, List.getElem?_eq_none le_rfl] at hn
        cases hn
      exact ⟨fun _ => ⟨⟨[], hrest⟩, hnot⟩, fun _ => rfl⟩
    | cons n rest =>
      have hn := hproper n List.mem_cons_self
      have hdotted : Dotted (names parent) (names child) ↔ dotdot <+: join (n :: rest) := by
        have hget : (names child)[(names parent).length]? = some n := by
          rw [← hrest, List.getElem?_append_right le_rfl, Nat.sub_self]
          rfl
        rw [dotdot_prefix_join hn, Dotted, hget]
        exact ⟨fun ⟨m, hm, h⟩ => Option.some.inj hm ▸ h, fun h => ⟨n, rfl, h⟩⟩
      have hprefix : names parent <+: names child := ⟨_, hrest⟩
      have hempty : (join (n :: rest)).isEmpty = false := List.isEmpty_eq_false_iff.2 (join_ne_nil hn rest)
      rw [hdotted, beq_eq_false_iff_ne.2 (join_ne_nil hn rest), not_isAbsolute_join hn rest, hempty]
      by_cases hdots : dotdot <+: join (n :: rest)
      · rw [List.isPrefixOf_iff_prefix.2 hdots]
        simp [hdots]
      · rw [eq_false_of_ne_true fun h => hdots (List.isPrefixOf_iff_prefix.1 h)]
        simp [hdots, hprefix]
  · have hup := dotdot_prefix_relative hprefix
    have hne : relative parent child ≠ [] := by
      rintro hnil
      rw [hnil, List.prefix_nil] at hup
      cases hup
    rw [isUnder, List.isPrefixOf_iff_prefix.2 hup, beq_eq_false_iff_ne.2 hne]
    simp [ hprefix]

/-! ## Real paths -/

theorem render_of_realpath {t : FileTree ι β} {p real : Path} (h : t.realpathSync p = .ok real) : render (names real) = real := by
  unfold FileTree.realpathSync at h
  cases hplace : t.realPlace p with
  | error e =>
    rw [hplace] at h
    cases h
  | ok place =>
    rw [hplace] at h
    obtain rfl := Except.ok.inj h
    rw [names_render (real_realPlace hplace).proper]

/-- The components of a real path are the parts between its slashes. -/
theorem parts_of_render {real : Path} (h : render (names real) = real) : (split real).filter (fun n => !n.isEmpty) = names real := by
  have hproper := proper_names real
  have hall : (names real).filter (fun n => !n.isEmpty) = names real := by
    rw [List.filter_eq_self]
    intro n hn
    simpa using (hproper n hn).nonempty
  conv_lhs => rw [← h, split_render fun n hn => (hproper n hn).noSlash]
  by_cases hnil : names real = []
  · rw [if_pos hnil, hnil]
    rfl
  · rw [if_neg hnil]
    exact hall

theorem assertNotDeniedPath_iff {real : Path} (h : render (names real) = real) :
    assertNotDeniedPath real = .ok () ↔ ∀ n ∈ names real, n ∉ DENIED_NAMES := by
  rw [assertNotDeniedPath, parts_of_render h]
  cases hfind : (names real).find? fun n => DENIED_NAMES.contains n with
  | none =>
    rw [List.find?_eq_none] at hfind
    refine ⟨fun _ n hn => ?_, fun _ => rfl⟩
    simpa using hfind n hn
  | some name =>
    refine ⟨fun herror => (by cases herror), fun hall => ?_⟩
    exact absurd (by simpa using List.find?_some hfind) (hall name (List.mem_of_find?_eq_some hfind))

theorem realExistingPath_iff {t : FileTree ι β} {p real : Path} : realExistingPath t p = .ok real ↔
    isAbsolute p = true ∧ t.existsSync p = true ∧ t.realpathSync p = .ok real ∧ ∀ n ∈ names real, n ∉ DENIED_NAMES := by
  rw [realExistingPath]
  by_cases habsolute : isAbsolute p = false
  · rw [if_pos habsolute, habsolute]
    simp
  rw [if_neg habsolute]
  by_cases hexists : t.existsSync p = false
  · rw [if_pos hexists, hexists]
    simp
  rw [if_neg hexists]
  rw [Bool.not_eq_false] at habsolute hexists
  cases hreal : t.realpathSync p with
  | error e => simp
  | ok found =>
    have hdenied := assertNotDeniedPath_iff (render_of_realpath hreal)
    simp only [habsolute, hexists, true_and, Except.ok.injEq]
    cases hcheck : assertNotDeniedPath found with
    | error e =>
      rw [hcheck] at hdenied
      refine ⟨fun h => (by cases h), fun ⟨heq, hall⟩ => ?_⟩
      subst heq
      cases hdenied.2 hall
    | ok _ =>
      refine ⟨fun h => ?_, fun ⟨heq, _⟩ => by rw [heq]; rfl⟩
      obtain rfl := Except.ok.inj h
      exact ⟨rfl, hdenied.1 hcheck⟩

/-! ## Paths of a workspace -/

/-- The path that a candidate stands for. -/
def candidatePath (workspace : EffectiveWorkspace) (candidate : Path) : Path :=
  if isAbsolute candidate then candidate else joinPaths [workspace.root, candidate]

/-- `real` is the real path of the candidate, which belongs to the workspace and may be given. -/
structure Confined (t : FileTree ι β) (workspace : EffectiveWorkspace) (candidate : Path) (policy : PathPolicy) (real : Path) :
    Prop where
  permitted : isAbsolute candidate = false ∨ (policy = .addDir ∧ workspace.repo.allowAddDir = true)
  found : t.existsSync (candidatePath workspace candidate) = true
  resolved : t.realpathSync (candidatePath workspace candidate) = .ok real
  notDenied : ∀ n ∈ names real, n ∉ DENIED_NAMES
  inside : names workspace.root <+: names real

theorem isAbsolute_normalize {p : Path} (h : isAbsolute p = true) : isAbsolute (normalize p) = true := by
  have hne : p ≠ [] := by
    rintro rfl
    cases h
  rw [PosixPath.normalize, if_neg hne, h]
  split
  · rfl
  · rfl

theorem isAbsolute_candidatePath {workspace : EffectiveWorkspace} (hroot : isAbsolute workspace.root = true) (candidate : Path) :
    isAbsolute (candidatePath workspace candidate) = true := by
  rw [candidatePath]
  split
  · assumption
  · obtain ⟨c, root, hcons⟩ : ∃ c root, workspace.root = c :: root := by
      cases hcases : workspace.root with
      | nil =>
        rw [hcases] at hroot
        cases hroot
      | cons c root => exact ⟨c, root, rfl⟩
    apply isAbsolute_normalize
    rw [hcons, List.filter_cons_of_pos (by simp)]
    rw [hcons] at hroot
    cases List.filter (fun p : Path => !p.isEmpty) [candidate] with
    | nil => exact hroot
    | cons p ps => exact hroot

/-- **What is let through.** -/
theorem validatePathInsideWorkspace_iff {t : FileTree ι β} {workspace : EffectiveWorkspace} {candidate : Path} {policy : PathPolicy}
    (hroot : isAbsolute workspace.root = true) {real : Path} : validatePathInsideWorkspace t workspace candidate policy = .ok real ↔
      Confined t workspace candidate policy real ∧ ¬Dotted (names workspace.root) (names real) := by
  rw [validatePathInsideWorkspace]
  by_cases hworkingDir : isAbsolute candidate = true ∧ policy = .workingDir
  · rw [if_pos hworkingDir]
    refine ⟨fun h => (by cases h), fun ⟨h, _⟩ => ?_⟩
    rcases h.permitted with hrelative | ⟨haddDir, -⟩
    · rw [hrelative] at hworkingDir
      cases hworkingDir.1
    · rw [haddDir] at hworkingDir
      cases hworkingDir.2
  rw [if_neg hworkingDir]
  by_cases haddDir : isAbsolute candidate = true ∧ policy = .addDir ∧ workspace.repo.allowAddDir = false
  · rw [if_pos haddDir]
    refine ⟨fun h => (by cases h), fun ⟨h, _⟩ => ?_⟩
    rcases h.permitted with hrelative | ⟨-, hallowed⟩
    · rw [hrelative] at haddDir
      cases haddDir.1
    · rw [hallowed] at haddDir
      cases haddDir.2.2
  rw [if_neg haddDir]
  have hpermitted : isAbsolute candidate = false ∨ (policy = .addDir ∧ workspace.repo.allowAddDir = true) := by
    cases habsolute : isAbsolute candidate with
    | false => exact .inl rfl
    | true =>
      right
      cases policy with
      | workingDir => exact absurd ⟨habsolute, rfl⟩ hworkingDir
      | addDir => exact ⟨rfl, by_contra fun h => haddDir ⟨habsolute, rfl, eq_false_of_ne_true h⟩⟩
  have hpath := isAbsolute_candidatePath hroot candidate
  have hread : realExistingPath t (candidatePath workspace candidate) = .ok real ∧ isUnder workspace.root real = true ↔
      Confined t workspace candidate policy real ∧ ¬Dotted (names workspace.root) (names real) := by
    rw [realExistingPath_iff, isUnder_iff]
    constructor
    · rintro ⟨⟨-, hfound, hresolved, hdenied⟩, hinside, hdots⟩
      exact ⟨⟨hpermitted, hfound, hresolved, hdenied, hinside⟩, hdots⟩
    · rintro ⟨h, hdots⟩
      exact ⟨⟨hpath, h.found, h.resolved, h.notDenied⟩, h.inside, hdots⟩
  rw [← hread, ← candidatePath]
  cases realExistingPath t (candidatePath workspace candidate) with
  | error e => simp
  | ok resolved =>
    by_cases hinside : isUnder workspace.root resolved = true
    · simp only [hinside, Bool.true_eq_false, if_false, Except.ok.injEq]
      refine ⟨fun h => ⟨h, ?_⟩, fun h => h.1⟩
      rwa [← h]
    · simp only [eq_false_of_ne_true hinside, if_true, Except.ok.injEq]
      refine ⟨fun h => (by cases h), fun h => ?_⟩
      rw [← h.1] at h
      exact absurd h.2 hinside

/-! ## The nearest registrations -/

/-- A registration whose directory could be resolved: its real root, and the providers that it lists. -/
abbrev Registration := Path × List CliType

/-- `root` is the deepest among the roots of some registrations. -/
structure Deepest (regs : List Registration) (root : Path) : Prop where
  registered : ∃ reg ∈ regs, reg.1 = root
  deepest : ∀ reg ∈ regs, (names reg.1).length ≤ (names root).length

theorem deepest_iff {regs : List Registration} {root : Path} : Deepest regs root ↔
    (∃ reg ∈ regs, reg.1 = root) ∧ ∀ reg ∈ regs, (names reg.1).length ≤ (names root).length :=
  ⟨fun h => ⟨h.registered, h.deepest⟩, fun h => ⟨h.1, h.2⟩⟩

/-- There is a registration, and those with the deepest root all list the provider. -/
def Grants (regs : List Registration) (provider : CliType) : Prop :=
  ∃ root, Deepest regs root ∧ ∀ reg ∈ regs, reg.1 = root → provider ∈ reg.2

/-- The registrations whose real root is a path or one of its ancestors. -/
def enclosing (t : FileTree ι β) (processCwd : Path) (repos : List WorkspaceRepo) (candidate : Path) : List Registration :=
  repos.filterMap fun repo =>
    match t.realpathSync (resolve processCwd repo.path) with
    | .error _ => none
    | .ok root => if names root <+: names candidate then some (root, repo.providers) else none

/-- A real root around `candidate`. -/
structure RootOf (candidate root : Path) : Prop where
  rendered : render (names root) = root
  inside : names root <+: names candidate

theorem rootOf_enclosing {t : FileTree ι β} {processCwd candidate : Path} {repos : List WorkspaceRepo} {reg : Registration}
    (h : reg ∈ enclosing t processCwd repos candidate) : RootOf candidate reg.1 := by
  obtain ⟨repo, -, hrepo⟩ := List.mem_filterMap.1 h
  cases hroot : t.realpathSync (resolve processCwd repo.path) with
  | error e =>
    rw [hroot] at hrepo
    cases hrepo
  | ok root =>
    rw [hroot] at hrepo
    by_cases hinside : names root <+: names candidate
    · simp only [if_pos hinside] at hrepo
      obtain rfl := Option.some.inj hrepo
      exact ⟨render_of_realpath hroot, hinside⟩
    · simp only [if_neg hinside] at hrepo
      cases hrepo

theorem textLength_append (p q : Path) : textLength (p ++ q) = textLength p + textLength q := by
  rw [textLength, List.map_append, List.sum_append]
  rfl

theorem textLength_pos {p : Path} (h : p ≠ []) : 0 < textLength p := by
  obtain ⟨c, p, rfl⟩ := List.exists_cons_of_ne_nil h
  rw [textLength, List.map_cons, List.sum_cons]
  split_ifs <;> omega

/-- A path below another one is longer. -/
theorem textLength_render_lt {ms : List Name} {n : Name} (hn : Proper n) (ns : List Name) (hns : ∀ m ∈ ns, Proper m) :
    textLength (render ms) < textLength (render (ms ++ n :: ns)) := by
  induction ns using List.reverseRecOn with
  | nil =>
    have hpos := textLength_pos hn.nonempty
    rw [render_append, textLength_append]
    split_ifs with hnil
    · rw [hnil]
      exact Nat.lt_add_of_pos_right hpos
    · rw [textLength_append]
      omega
  | append_singleton ns m ih =>
    have hrest := ih fun m hm => hns m (List.mem_append_left _ hm)
    have hne : ¬ms ++ n :: ns = [] := by simp
    rw [← List.cons_append, ← List.append_assoc, render_append, if_neg hne, textLength_append, textLength_append]
    omega

theorem RootOf.textLength_lt {candidate a b : Path} (ha : RootOf candidate a) (hb : RootOf candidate b)
    (h : (names a).length < (names b).length) : textLength a < textLength b := by
  obtain ⟨rest, hrest⟩ := List.prefix_of_prefix_length_le ha.inside hb.inside h.le
  cases rest with
  | nil =>
    rw [List.append_nil] at hrest
    rw [hrest] at h
    exact absurd h (lt_irrefl _)
  | cons n rest =>
    have hproper : ∀ m ∈ n :: rest, Proper m :=
      fun m hm => proper_names b m (by rw [← hrest]; exact List.mem_append_right _ hm)
    have hlt : textLength (render (names a)) < textLength (render (names a ++ n :: rest)) :=
      textLength_render_lt (hproper n List.mem_cons_self) rest fun m hm => hproper m (List.mem_cons_of_mem n hm)
    rwa [hrest, ha.rendered, hb.rendered] at hlt

/-- Two roots around the same path are compared by their depth. -/
theorem RootOf.textLength_lt_iff {candidate a b : Path} (ha : RootOf candidate a) (hb : RootOf candidate b) :
    textLength a < textLength b ↔ (names a).length < (names b).length := by
  refine ⟨fun h => ?_, ha.textLength_lt hb⟩
  by_contra hle
  rcases lt_or_eq_of_le (Nat.le_of_not_lt hle) with hlt | heq
  · exact absurd (hb.textLength_lt ha hlt) (Nat.lt_asymm h)
  · have hnames : names b = names a := (List.prefix_of_prefix_length_le hb.inside ha.inside heq.le).eq_of_length heq
    rw [← ha.rendered, ← hb.rendered, hnames] at h
    exact absurd h (lt_irrefl _)

theorem RootOf.eq_of_length {candidate a b : Path} (ha : RootOf candidate a) (hb : RootOf candidate b)
    (h : (names a).length = (names b).length) : a = b := by
  have hnames : names a = names b := (List.prefix_of_prefix_length_le ha.inside hb.inside h.le).eq_of_length h
  rw [← ha.rendered, ← hb.rendered, hnames]

/-- What the fold has found among the registrations so far. -/
def Found (provider : CliType) (regs : List Registration) : Option Nearest → Prop
  | none => regs = []
  | some nearest =>
    Deepest regs nearest.root ∧ (nearest.withheld = true ↔ ∃ reg ∈ regs, reg.1 = nearest.root ∧ provider ∉ reg.2) ∧
      (nearest.withheld = false → provider ∈ nearest.providers)

/-- One more registration around the path. -/
theorem found_consider {provider : CliType} {candidate root : Path} {providers : List CliType} {regs : List Registration}
    {nearest : Option Nearest} (hregs : ∀ reg ∈ regs, RootOf candidate reg.1) (hroot : RootOf candidate root)
    (hunder : isUnder root candidate = true) (h : Found provider regs nearest) :
    Found provider (regs ++ [(root, providers)]) (consider provider candidate nearest (.ok root) providers) := by
  have hnew : isUnder root candidate ≠ false := by
    rw [hunder]
    decide
  have hallows : (providers.contains provider = false) ↔ provider ∉ providers := by simp
  cases nearest with
  | none =>
    obtain rfl : regs = [] := h
    simp only [consider, if_neg hnew]
    refine ⟨⟨⟨_, List.mem_singleton_self _, rfl⟩, fun reg hreg => ?_⟩, ?_, ?_⟩
    · rw [List.mem_singleton.1 hreg]
    · simp
    · simp
  | some found =>
    obtain ⟨⟨⟨reg₀, hreg₀, hroot₀⟩, hdeepest⟩, hwithheld, hlists⟩ := h
    have hfound : RootOf candidate found.root := hroot₀ ▸ hregs reg₀ hreg₀
    simp only [consider, if_neg hnew]
    by_cases hlonger : textLength found.root < textLength root
    · have hdepth := (hfound.textLength_lt_iff hroot).1 hlonger
      rw [if_pos hlonger]
      refine ⟨⟨⟨_, List.mem_append_right _ (List.mem_singleton_self _), rfl⟩, fun reg hreg => ?_⟩, ?_, ?_⟩
      · rcases List.mem_append.1 hreg with hreg | hreg
        · exact (hdeepest reg hreg).trans hdepth.le
        · rw [List.mem_singleton.1 hreg]
      · simp only [Bool.not_eq_true', hallows]
        constructor
        · exact fun hnot => ⟨_, List.mem_append_right _ (List.mem_singleton_self _), rfl, hnot⟩
        · rintro ⟨reg, hreg, hsame, hnot⟩
          rcases List.mem_append.1 hreg with hreg | hreg
          · have hle := hdeepest reg hreg
            rw [hsame] at hle
            omega
          · rwa [List.mem_singleton.1 hreg] at hnot
      · simp
    · rw [if_neg hlonger]
      have hdepth : (names root).length ≤ (names found.root).length :=
        Nat.le_of_not_lt fun hlt => hlonger (hfound.textLength_lt hroot hlt)
      have hdeep : Deepest (regs ++ [(root, providers)]) found.root := by
        refine ⟨⟨reg₀, List.mem_append_left _ hreg₀, hroot₀⟩, fun reg hreg => ?_⟩
        rcases List.mem_append.1 hreg with hreg | hreg
        · exact hdeepest reg hreg
        · rwa [List.mem_singleton.1 hreg]
      by_cases hsame : root = found.root ∧ providers.contains provider = false
      · rw [if_pos hsame]
        obtain ⟨rfl, hnot⟩ := hsame
        refine ⟨hdeep, ⟨fun _ => ?_, fun _ => rfl⟩, fun hfalse => (by cases hfalse)⟩
        exact ⟨_, List.mem_append_right _ (List.mem_singleton_self _), rfl, hallows.1 hnot⟩
      · rw [if_neg hsame]
        refine ⟨hdeep, hwithheld.trans ⟨?_, ?_⟩, hlists⟩
        · rintro ⟨reg, hreg, hrest⟩
          exact ⟨reg, List.mem_append_left _ hreg, hrest⟩
        · rintro ⟨reg, hreg, hroot', hnot⟩
          rcases List.mem_append.1 hreg with hreg | hreg
          · exact ⟨reg, hreg, hroot', hnot⟩
          · rw [List.mem_singleton.1 hreg] at hroot' hnot
            exact absurd ⟨hroot', hallows.2 hnot⟩ hsame

/-! ## The fold over the registry -/

/-- The registrations around a path that the check of containment does not miss. -/
def reached (t : FileTree ι β) (processCwd : Path) (repos : List WorkspaceRepo) (candidate : Path) : List Registration :=
  (enclosing t processCwd repos candidate).filter fun reg => ¬Dotted (names reg.1) (names candidate)

section
variable {t : FileTree ι β} {processCwd candidate : Path} {repos : List WorkspaceRepo} {provider : CliType}

theorem reached_append (repos : List WorkspaceRepo) (repo : WorkspaceRepo) :
    reached t processCwd (repos ++ [repo]) candidate =
      reached t processCwd repos candidate ++ reached t processCwd [repo] candidate := by
  rw [reached, enclosing, List.filterMap_append, List.filter_append]
  rfl

theorem rootOf_reached {reg : Registration} (h : reg ∈ reached t processCwd repos candidate) : RootOf candidate reg.1 :=
  rootOf_enclosing (List.mem_of_mem_filter h)

/-- The fold finds the nearest of the registrations that are reached. -/
theorem found_foldl (repos : List WorkspaceRepo) : Found provider (reached t processCwd repos candidate)
    (repos.foldl (fun nearest repo =>
      consider provider candidate nearest (t.realpathSync (resolve processCwd repo.path)) repo.providers) none) := by
  induction repos using List.reverseRecOn with
  | nil => exact Eq.refl ([] : List Registration)
  | append_singleton repos repo ih =>
    rw [List.foldl_append, List.foldl_cons, List.foldl_nil, reached_append]
    cases hroot : t.realpathSync (resolve processCwd repo.path) with
    | error e =>
      have hnone : reached t processCwd [repo] candidate = [] := by
        simp [reached, enclosing, hroot]
      rw [hnone, List.append_nil]
      exact ih
    | ok root =>
      have hunder : isUnder root candidate = true ↔ _ := isUnder_iff
      by_cases hreached : isUnder root candidate = true
      · obtain ⟨hinside, hdots⟩ := hunder.1 hreached
        have hone : reached t processCwd [repo] candidate = [(root, repo.providers)] := by
          simp [reached, enclosing, hroot, hinside, hdots]
        rw [hone]
        exact found_consider (fun reg hreg => rootOf_reached hreg) ⟨render_of_realpath hroot, hinside⟩ hreached ih
      · have hnone : reached t processCwd [repo] candidate = [] := by
          by_cases hinside : names root <+: names candidate
          · have hdots : Dotted (names root) (names candidate) := by_contra fun hdots => hreached (hunder.2 ⟨hinside, hdots⟩)
            simp [reached, enclosing, hroot, hinside, hdots]
          · simp [reached, enclosing, hroot, hinside]
        rw [hnone, List.append_nil]
        simp only [consider, eq_false_of_ne_true hreached, if_true]
        exact ih

/-- With one deepest root its registrations decide. -/
theorem grants_iff_of_deepest {regs : List Registration} (hregs : ∀ reg ∈ regs, RootOf candidate reg.1) {root : Path}
    (h : Deepest regs root) : Grants regs provider ↔ ∀ reg ∈ regs, reg.1 = root → provider ∈ reg.2 := by
  refine ⟨fun ⟨root', h', hall⟩ => ?_, fun hall => ⟨root, h, hall⟩⟩
  obtain ⟨reg, hreg, hroot⟩ := h.registered
  obtain ⟨reg', hreg', hroot'⟩ := h'.registered
  have hlength : (names root').length = (names root).length := by
    have hle := h.deepest reg' hreg'
    have hge := h'.deepest reg hreg
    rw [hroot'] at hle
    rw [hroot] at hge
    exact le_antisymm hle hge
  have hsame : root' = root := (hroot' ▸ hregs reg' hreg').eq_of_length (hroot ▸ hregs reg hreg) hlength
  rwa [hsame] at hall

theorem exists_deepest {regs : List Registration} (hne : regs ≠ []) : ∃ root, Deepest regs root := by
  induction regs with
  | nil => exact absurd rfl hne
  | cons reg regs ih =>
    by_cases hnil : regs = []
    · subst hnil
      refine ⟨reg.1, ⟨reg, List.mem_cons_self, rfl⟩, fun other hother => ?_⟩
      rw [List.mem_singleton.1 hother]
    obtain ⟨root, ⟨deepest, hmem, hroot⟩, hmax⟩ := ih hnil
    by_cases hdeeper : (names root).length ≤ (names reg.1).length
    · refine ⟨reg.1, ⟨reg, List.mem_cons_self, rfl⟩, fun other hother => ?_⟩
      rcases List.mem_cons.1 hother with rfl | hother
      · exact le_rfl
      · exact (hmax other hother).trans hdeeper
    · refine ⟨root, ⟨deepest, List.mem_cons_of_mem reg hmem, hroot⟩, fun other hother => ?_⟩
      rcases List.mem_cons.1 hother with rfl | hother
      · exact Nat.le_of_not_le hdeeper
      · exact hmax other hother

theorem grants_of_found {nearest : Option Nearest} {regs : List Registration} (hregs : ∀ reg ∈ regs, RootOf candidate reg.1)
    (h : Found provider regs nearest) :
    (nearest.elim false fun nearest => !nearest.withheld && nearest.providers.contains provider) = true ↔
      Grants regs provider := by
  cases nearest with
  | none =>
    obtain rfl : regs = [] := h
    refine ⟨fun hfalse => (by cases hfalse), fun ⟨root, hdeep, _⟩ => ?_⟩
    obtain ⟨reg, hreg, -⟩ := hdeep.registered
    cases hreg
  | some nearest =>
    obtain ⟨hdeep, hwithheld, hlists⟩ := h
    rw [grants_iff_of_deepest hregs hdeep]
    cases hflag : nearest.withheld with
    | true =>
      obtain ⟨reg, hreg, hroot, hnot⟩ := hwithheld.1 hflag
      simp only [Option.elim_some, hflag, Bool.not_true, Bool.false_and, Bool.false_eq_true, false_iff]
      exact fun hall => hnot (hall reg hreg hroot)
    | false =>
      simp only [Option.elim_some, hflag, Bool.not_false, Bool.true_and, List.contains_iff_mem]
      refine ⟨fun _ reg hreg hroot => ?_, fun _ => hlists hflag⟩
      by_contra hnot
      rw [hwithheld.2 ⟨reg, hreg, hroot, hnot⟩] at hflag
      cases hflag

/-- **What the fold answers.** -/
theorem isProviderWorkspacePath_iff {cwd : Path} : isProviderWorkspacePath t processCwd repos provider cwd = true ↔
    ∃ candidate, t.realpathSync (resolve processCwd cwd) = .ok candidate ∧
      Grants (reached t processCwd repos candidate) provider := by
  rw [isProviderWorkspacePath]
  cases hreal : t.realpathSync (resolve processCwd cwd) with
  | error e => simp
  | ok candidate =>
    have hfold : Found provider (reached t processCwd repos candidate) _ := found_foldl repos
    have hfound := grants_of_found (fun reg hreg => rootOf_reached hreg) hfold
    have hread {nearest : Option Nearest} : (match nearest with
        | none => false
        | some nearest => !nearest.withheld && nearest.providers.contains provider) =
          nearest.elim false fun nearest => !nearest.withheld && nearest.providers.contains provider := by
      cases nearest <;> rfl
    rw [← hread] at hfound
    refine hfound.trans ⟨fun h => ⟨candidate, rfl, h⟩, fun ⟨found, heq, h⟩ => ?_⟩
    obtain rfl := Except.ok.inj heq
    exact h

/-- Whether the provider is listed by the nearest registrations around a directory. -/
def Trusted (t : FileTree ι β) (processCwd : Path) (repos : List WorkspaceRepo) (provider : CliType) (cwd : Path) : Prop :=
  ∃ candidate, t.realpathSync (resolve processCwd cwd) = .ok candidate ∧ Grants (enclosing t processCwd repos candidate) provider

/-- Where the deepest root has the directory in a child whose name begins with two dots, what is left gives the same answer. -/
def MissesNothing (t : FileTree ι β) (processCwd : Path) (repos : List WorkspaceRepo) (provider : CliType) (cwd : Path) : Prop :=
  ∀ candidate, t.realpathSync (resolve processCwd cwd) = .ok candidate →
    ∀ root, Deepest (enclosing t processCwd repos candidate) root → Dotted (names root) (names candidate) →
      ((∀ reg ∈ enclosing t processCwd repos candidate, reg.1 = root → provider ∈ reg.2) ↔
        Grants (reached t processCwd repos candidate) provider)

/-- A deepest root that is not missed decides here too. -/
theorem grants_reached_iff {root : Path} (h : Deepest (enclosing t processCwd repos candidate) root)
    (hdots : ¬Dotted (names root) (names candidate)) : Grants (reached t processCwd repos candidate) provider ↔
      ∀ reg ∈ enclosing t processCwd repos candidate, reg.1 = root → provider ∈ reg.2 := by
  have hmem {reg : Registration} (hreg : reg ∈ enclosing t processCwd repos candidate) (hroot : reg.1 = root) :
      reg ∈ reached t processCwd repos candidate := by
    refine List.mem_filter.2 ⟨hreg, ?_⟩
    rw [hroot]
    simpa using hdots
  have hdeep : Deepest (reached t processCwd repos candidate) root := by
    obtain ⟨reg, hreg, hroot⟩ := h.registered
    exact ⟨⟨reg, hmem hreg hroot, hroot⟩, fun reg hreg => h.deepest reg (List.mem_of_mem_filter hreg)⟩
  rw [grants_iff_of_deepest (fun reg hreg => rootOf_reached hreg) hdeep]
  exact ⟨fun hall reg hreg hroot => hall reg (hmem hreg hroot) hroot, fun hall reg hreg => hall reg (List.mem_of_mem_filter hreg)⟩

/-- The order of the registrations makes no difference. -/
theorem isProviderWorkspacePath_perm {repos' : List WorkspaceRepo} (h : repos'.Perm repos) (cwd : Path) :
    isProviderWorkspacePath t processCwd repos' provider cwd = isProviderWorkspacePath t processCwd repos provider cwd := by
  rw [Bool.eq_iff_iff, isProviderWorkspacePath_iff, isProviderWorkspacePath_iff]
  have hmem (candidate : Path) (reg : Registration) :
      reg ∈ reached t processCwd repos' candidate ↔ reg ∈ reached t processCwd repos candidate :=
    ((h.filterMap _).filter _).mem_iff
  simp only [Grants, deepest_iff, hmem]

theorem trusted_iff {cwd : Path} : (isProviderWorkspacePath t processCwd repos provider cwd = true ↔
    Trusted t processCwd repos provider cwd) ↔ MissesNothing t processCwd repos provider cwd := by
  rw [isProviderWorkspacePath_iff, Trusted, MissesNothing]
  cases hreal : t.realpathSync (resolve processCwd cwd) with
  | error e => simp
  | ok candidate =>
    have hregs : ∀ reg ∈ enclosing t processCwd repos candidate, RootOf candidate reg.1 := fun reg hreg => rootOf_enclosing hreg
    have hone (P : Path → Prop) : (∃ found, Except.ok (ε := Errno) candidate = .ok found ∧ P found) ↔ P candidate := by simp
    rw [hone, hone]
    constructor
    · intro hsame found hfound root hdeep hdots
      obtain rfl := Except.ok.inj hfound
      rw [hsame, grants_iff_of_deepest hregs hdeep]
    · intro hmisses
      by_cases hnil : enclosing t processCwd repos candidate = []
      · rw [reached, hnil]
        rfl
      obtain ⟨root, hdeep⟩ := exists_deepest hnil
      rw [grants_iff_of_deepest hregs hdeep]
      by_cases hdots : Dotted (names root) (names candidate)
      · exact (hmisses candidate rfl root hdeep hdots).symm
      · exact grants_reached_iff hdeep hdots

end

/-- **When the checks of paths are exact.**  A path is let through for a workspace just when it is confined to it, unless a confined
path is missed because its first component below the root begins with two dots; and a directory is trusted just when its nearest
registrations all list the provider, unless the nearest of them are missed for the same reason and the others answer otherwise. -/
theorem path_confinement_iff (t : FileTree ι β) (workspace : EffectiveWorkspace) (hroot : isAbsolute workspace.root = true)
    (candidate : Path) (policy : PathPolicy) (processCwd : Path) (repos : List WorkspaceRepo) (provider : CliType) (cwd : Path) :
    ((∀ real, validatePathInsideWorkspace t workspace candidate policy = .ok real ↔ Confined t workspace candidate policy real) ↔
      ∀ real, Confined t workspace candidate policy real → ¬Dotted (names workspace.root) (names real)) ∧
    ((isProviderWorkspacePath t processCwd repos provider cwd = true ↔ Trusted t processCwd repos provider cwd) ↔
      MissesNothing t processCwd repos provider cwd) ∧
    ∀ repos', repos'.Perm repos →
      isProviderWorkspacePath t processCwd repos' provider cwd = isProviderWorkspacePath t processCwd repos provider cwd := by
  refine ⟨?_, trusted_iff, fun repos' h => isProviderWorkspacePath_perm h cwd⟩
  simp only [validatePathInsideWorkspace_iff hroot]
  exact ⟨fun h real hreal => ((h real).2 hreal).2, fun h real => ⟨fun hreal => hreal.1, fun hreal => ⟨hreal, h real hreal⟩⟩⟩

/-- The directories `/w`, `/w/..foo`, `/w/s` and `/w/s/..x`. -/
def dottedTree : FileTree ℕ Unit where
  root := 0
  nodes
    | 0 => some (.dir (JsMap.set Table.empty "w".toList 1))
    | 1 => some (.dir (JsMap.set (JsMap.set Table.empty "..foo".toList 2) "s".toList 3))
    | 3 => some (.dir (JsMap.set Table.empty "..x".toList 4))
    | 2 | 4 => some (.dir Table.empty)
    | _ => none
  root_dir := ⟨_, rfl⟩

def wholeRepo : WorkspaceRepo := ⟨"whole".toList, "/w".toList, [.claude, .cursor], false⟩

def partRepo : WorkspaceRepo := ⟨"part".toList, "/w/s".toList, [.claude], false⟩

def wholeWorkspace : EffectiveWorkspace := ⟨"whole".toList, "/w".toList, wholeRepo⟩

/-- The directory `/w/s` is let through, and not trusted for a provider that only the whole lists, in either order. -/
theorem path_confinement_of_plain_names :
    (validatePathInsideWorkspace dottedTree wholeWorkspace "s".toList .workingDir = .ok "/w/s".toList ∧
      Confined dottedTree wholeWorkspace "s".toList .workingDir "/w/s".toList) ∧
    ¬Trusted dottedTree "/".toList [wholeRepo, partRepo] .cursor "/w/s".toList ∧
    isProviderWorkspacePath dottedTree "/".toList [partRepo, wholeRepo] .cursor "/w/s".toList =
      isProviderWorkspacePath dottedTree "/".toList [wholeRepo, partRepo] .cursor "/w/s".toList := by
  obtain ⟨hconfined, htrusted, horder⟩ := path_confinement_iff dottedTree wholeWorkspace (by decide) "s".toList .workingDir "/".toList
    [wholeRepo, partRepo] .cursor "/w/s".toList
  have hvalid : validatePathInsideWorkspace dottedTree wholeWorkspace "s".toList .workingDir = .ok "/w/s".toList := by decide +kernel
  have hplace : dottedTree.realpathSync (candidatePath wholeWorkspace "s".toList) = .ok "/w/s".toList := by decide +kernel
  have hpath : dottedTree.realpathSync (resolve "/".toList "/w/s".toList) = .ok "/w/s".toList := by decide +kernel
  have hnever (root : Path) (h : root = "/w".toList ∨ root = "/w/s".toList) : ¬Dotted (names root) (names "/w/s".toList) := by
    rcases h with rfl | rfl <;> decide +kernel
  have hregs : enclosing dottedTree "/".toList [wholeRepo, partRepo] "/w/s".toList =
      [("/w".toList, [.claude, .cursor]), ("/w/s".toList, [.claude])] := by decide +kernel
  refine ⟨⟨hvalid, ((hconfined.2 ?_) _).1 hvalid⟩, fun h => ?_, horder _ (List.Perm.swap _ _ _)⟩
  · intro real hreal
    obtain rfl := Except.ok.inj (hreal.resolved.symm.trans hplace)
    exact hnever _ (.inl rfl)
  · refine absurd ((htrusted.2 ?_).2 h) (by decide +kernel)
    intro candidate hcandidate root hdeep hdots
    obtain rfl := Except.ok.inj (hcandidate.symm.trans hpath)
    obtain ⟨reg, hreg, rfl⟩ := hdeep.registered
    rw [hregs] at hreg
    refine absurd hdots (hnever _ ?_)
    rcases List.mem_pair.1 hreg with rfl | rfl
    · exact .inl rfl
    · exact .inr rfl

/-- A directory whose name begins with two dots is refused, and the grant of the whole reaches through it into the part. -/
theorem dotted_names_are_missed :
    (Confined dottedTree wholeWorkspace "..foo".toList .workingDir "/w/..foo".toList ∧
      validatePathInsideWorkspace dottedTree wholeWorkspace "..foo".toList .workingDir ≠ .ok "/w/..foo".toList) ∧
    isProviderWorkspacePath dottedTree "/".toList [wholeRepo, partRepo] .cursor "/w/s/..x".toList = true ∧
      ¬Trusted dottedTree "/".toList [wholeRepo, partRepo] .cursor "/w/s/..x".toList := by
  refine ⟨⟨⟨.inl (by decide), by decide +kernel, by decide +kernel, by decide +kernel, by decide +kernel⟩, by decide +kernel⟩,
    by decide +kernel, ?_⟩
  rintro ⟨candidate, hreal, hgrants⟩
  have hpath : dottedTree.realpathSync (resolve "/".toList "/w/s/..x".toList) = .ok "/w/s/..x".toList := by decide +kernel
  obtain rfl := Except.ok.inj (hreal.symm.trans hpath)
  have hregs : enclosing dottedTree "/".toList [wholeRepo, partRepo] "/w/s/..x".toList =
      [("/w".toList, [.claude, .cursor]), ("/w/s".toList, [.claude])] := by decide +kernel
  have hdeep : Deepest (enclosing dottedTree "/".toList [wholeRepo, partRepo] "/w/s/..x".toList) "/w/s".toList := by
    rw [hregs]
    exact ⟨⟨_, List.mem_cons_of_mem _ List.mem_cons_self, rfl⟩, by decide +kernel⟩
  rw [grants_iff_of_deepest (fun reg hreg => rootOf_enclosing hreg) hdeep, hregs] at hgrants
  exact absurd (hgrants _ (List.mem_cons_of_mem _ List.mem_cons_self) rfl) (by decide)

end LlmGateway.Workspace
