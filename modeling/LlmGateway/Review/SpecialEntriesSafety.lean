import LlmGateway.Lib.Table
import LlmGateway.Review.SpecialEntries

/-!
# What the walk refuses

* `walk_throws_iff` — an entry is refused, if and only if some level has an untracked special entry and the levels up to it keep
  below the ceiling;
* `intersects_iff` — a path that the filters meet is above one of them, at it or beneath it, component by component;
* `special_entries_iff` — exactly when the refusal covers the paths of a review.
-/

namespace LlmGateway.Review.Scope

open Lib Lib.PosixPath

/-! ## Levels -/

section
variable (git : Git) (paths : List Path)

def children (d : Directory) : List DirectoryEntry :=
  ((sortEntries d.entries).filter (isVisited paths d.path)).map fun e => ⟨d.path ++ [e.1], e.2⟩

def level (frontier : List Directory) : List DirectoryEntry := frontier.flatMap (children paths)

/-- The directory to descend into, where there is one. -/
def descent (e : DirectoryEntry) : Option Directory :=
  match e.entry with
  | .dir entries => if git.ignored e.relativePath then none else some ⟨e.path, entries⟩
  | _ => none

def descend (entries : List DirectoryEntry) : List Directory := entries.filterMap (descent git)

/-- The entry is refused. -/
def isRefused (e : DirectoryEntry) : Bool :=
  match e.entry with
  | .special _ => !git.ignored e.relativePath && !git.tracked e.relativePath
  | _ => false

def frontierAt (tree : Worktree) : ℕ → List Directory
  | 0 => [⟨[], tree.entries⟩]
  | depth + 1 => descend git (level paths (frontierAt tree depth))

def visitedAt (tree : Worktree) (depth : ℕ) : List DirectoryEntry := level paths (frontierAt git paths tree depth)

/-- The number of entries that are looked at with so many names on the way. -/
def visitedWithin (tree : Worktree) : ℕ → ℕ
  | 0 => 0
  | depth + 1 => visitedWithin tree depth + (visitedAt git paths tree depth).length

end

section
variable {git : Git} {paths : List Path}

theorem enumerateEntries_eq {directory : List Name} {es : List (Name × Entry)} : ∀ {visited : ℕ}, visited ≤ MAX_VISITED →
    enumerateEntries paths directory visited es =
      if visited + (es.filter (isVisited paths directory)).length ≤ MAX_VISITED then
        .ok ((es.filter (isVisited paths directory)).map fun e => ⟨directory ++ [e.1], e.2⟩,
          visited + (es.filter (isVisited paths directory)).length)
      else .error enumerationTooLarge := by
  induction es with
  | nil =>
    intro visited h
    rw [List.filter_nil, List.length_nil, Nat.add_zero, if_pos h]
    rfl
  | cons e es ih =>
    intro visited h
    rw [enumerateEntries]
    by_cases he : isVisited paths directory e = true
    · rw [if_neg (by simp [he]), List.filter_cons_of_pos he, List.length_cons]
      split_ifs with hfull hfits hfits
      · omega
      · rfl
      · rw [ih (by omega), if_pos (by omega), Nat.add_right_comm, ← Nat.add_assoc]
        rfl
      · rw [ih (by omega), if_neg (by omega)]
        rfl
    · rw [if_pos (by simp [he]), List.filter_cons_of_neg he]
      exact ih h

theorem length_children (d : Directory) :
    (children paths d).length = ((sortEntries d.entries).filter (isVisited paths d.path)).length := by
  rw [children, List.length_map]

/-- A level is enumerated, unless it goes beyond the ceiling. -/
theorem enumerateFrontier_eq {frontier : List Directory} : ∀ {visited : ℕ}, visited ≤ MAX_VISITED →
    enumerateFrontier paths visited frontier =
      if visited + (level paths frontier).length ≤ MAX_VISITED then
        .ok (level paths frontier, visited + (level paths frontier).length)
      else .error enumerationTooLarge := by
  induction frontier with
  | nil =>
    intro visited h
    rw [level, List.flatMap_nil, List.length_nil, Nat.add_zero, if_pos h]
    rfl
  | cons d ds ih =>
    intro visited h
    have hlevel : level paths (d :: ds) = children paths d ++ level paths ds := List.flatMap_cons
    rw [enumerateFrontier, enumerateDirectory, enumerateEntries_eq h, ← length_children, hlevel, List.length_append]
    split_ifs with hfirst hall hall
    · show (enumerateFrontier paths (visited + (children paths d).length) ds >>= fun r =>
        pure (children paths d ++ r.1, r.2)) = _
      rw [ih hfirst, if_pos (by omega), ← Nat.add_assoc]
      rfl
    · show (enumerateFrontier paths (visited + (children paths d).length) ds >>= fun r =>
        pure (children paths d ++ r.1, r.2)) = _
      rw [ih hfirst, if_neg (by omega)]
      rfl
    · omega
    · rfl

theorem refuseEntries_eq (ignored : List Path) (entries : List DirectoryEntry)
    (h : ∀ e ∈ entries, ignored.contains e.relativePath = git.ignored e.relativePath) :
    if entries.any (isRefused git) then ∃ p k, refuseEntries git ignored entries = .error (unsafeUntracked p k)
    else refuseEntries git ignored entries = .ok (descend git entries) := by
  induction entries with
  | nil => rfl
  | cons e es ih =>
    have ih := ih fun e' he' => h e' (List.mem_cons_of_mem e he')
    have hignored := h e List.mem_cons_self
    obtain ⟨path, entry⟩ := e
    rw [List.any_cons, refuseEntries, descend, List.filterMap_cons]
    cases entry with
    | file => exact ih
    | link target => exact ih
    | special kind =>
      have hself : isRefused git ⟨path, .special kind⟩ =
          (!git.ignored (DirectoryEntry.relativePath ⟨path, .special kind⟩) &&
            !git.tracked (DirectoryEntry.relativePath ⟨path, .special kind⟩)) := rfl
      simp only [hignored, ← hself]
      cases isRefused git ⟨path, .special kind⟩ with
      | true => exact ⟨_, _, rfl⟩
      | false => exact ih
    | dir entries =>
      have hself : isRefused git ⟨path, .dir entries⟩ = false := rfl
      simp only [hself, descent, hignored, Bool.false_or]
      split_ifs at ih ⊢ with hrefused hdir hdir
      · obtain ⟨p, k, hfail⟩ := ih
        exact ⟨p, k, by rw [hfail]; rfl⟩
      · obtain ⟨p, k, hfail⟩ := ih
        exact ⟨p, k, by rw [hfail]; rfl⟩
      · rw [ih]
        rfl
      · rw [ih]
        rfl

variable (git) in
theorem refuseLevel_eq (entries : List DirectoryEntry) :
    if entries.any (isRefused git) then ∃ p k, refuseLevel git entries = .error (unsafeUntracked p k)
    else refuseLevel git entries = .ok (descend git entries) := by
  have hany : (entries.filter isProbed).any (isRefused git) = entries.any (isRefused git) := by
    rw [List.any_filter]
    congr 1
    funext e
    obtain ⟨path, entry⟩ := e
    cases entry <;> rfl
  have hdescend : descend git (entries.filter isProbed) = descend git entries := by
    rw [descend, descend, List.filterMap_filter]
    congr 1
    funext e
    obtain ⟨path, entry⟩ := e
    cases entry <;> rfl
  have hignored : ∀ e ∈ entries.filter isProbed,
      (ignoredPathSubset git ((entries.filter isProbed).map (·.relativePath))).contains e.relativePath =
        git.ignored e.relativePath := by
    intro e he
    rw [ignoredPathSubset, Bool.eq_iff_iff, List.contains_iff_mem, List.mem_filter]
    exact ⟨fun h => h.2, fun h => ⟨List.mem_map_of_mem he, h⟩⟩
  have hlevel := refuseEntries_eq _ _ hignored
  rw [hany, hdescend] at hlevel
  exact hlevel

/-! ## The walk -/

def Throws (r : Checked Unit) : Prop := ∃ e, r = .error e ∧ e.code = .unsafe_untracked_type

variable {tree : Worktree}

theorem frontierAt_nil {depth : ℕ} (h : frontierAt git paths tree depth = []) : ∀ k, depth ≤ k →
    visitedAt git paths tree k = [] := by
  have hnil : ∀ j, frontierAt git paths tree (depth + j) = [] := by
    intro j
    induction j with
    | zero => exact h
    | succ j ih =>
      rw [← Nat.add_assoc, frontierAt, ih]
      rfl
  intro k hk
  obtain ⟨j, rfl⟩ := Nat.exists_eq_add_of_le hk
  rw [visitedAt, hnil j]
  rfl

theorem visitedWithin_mono {j k : ℕ} (h : j ≤ k) : visitedWithin git paths tree j ≤ visitedWithin git paths tree k := by
  induction h with
  | refl => exact le_rfl
  | step _ ih => exact ih.trans (Nat.le_add_right _ _)

/-- **The walk from a level on.**  Some level is refused, and the levels up to it keep below the ceiling. -/
theorem walk_throws_iff {depth : ℕ} (h : visitedWithin git paths tree depth ≤ MAX_VISITED) :
    Throws (walk git paths (visitedWithin git paths tree depth) (frontierAt git paths tree depth)) ↔
      ∃ k, depth ≤ k ∧ (visitedAt git paths tree k).any (isRefused git) = true ∧
        visitedWithin git paths tree (k + 1) ≤ MAX_VISITED := by
  induction hload : load (frontierAt git paths tree depth) using Nat.strong_induction_on generalizing depth with
  | _ n ih =>
    cases hfrontier : frontierAt git paths tree depth with
    | nil =>
      rw [walk]
      constructor
      · rintro ⟨e, he, -⟩
        cases he
      · rintro ⟨k, hk, hrefused, -⟩
        rw [frontierAt_nil hfrontier k hk] at hrefused
        cases hrefused
    | cons d ds =>
      have hentries : enumerateFrontier paths (visitedWithin git paths tree depth) (frontierAt git paths tree depth) =
          if visitedWithin git paths tree (depth + 1) ≤ MAX_VISITED then
            .ok (visitedAt git paths tree depth, visitedWithin git paths tree (depth + 1))
          else .error enumerationTooLarge := enumerateFrontier_eq h
      rw [hfrontier] at hentries
      rw [walk]
      split_ifs at hentries with hfits
      · have hlevel := refuseLevel_eq git (visitedAt git paths tree depth)
        split_ifs at hlevel with hrefused
        · -- the level itself is refused
          obtain ⟨p, kind, hfail⟩ := hlevel
          split
          · rename_i e he
            rw [hentries] at he
            cases he
          · rename_i entries visited he
            rw [hentries] at he
            cases he
            split
            · rename_i e he'
              rw [hfail] at he'
              cases he'
              exact ⟨fun _ => ⟨depth, le_rfl, hrefused, hfits⟩, fun _ => ⟨_, rfl, rfl⟩⟩
            · rename_i next he'
              rw [hfail] at he'
              cases he'
        · have hlt := load_lt hentries hlevel
          rw [← hfrontier, hload] at hlt
          have hnext := ih _ hlt hfits rfl
          split
          · rename_i e he
            rw [hentries] at he
            cases he
          · rename_i entries visited he
            rw [hentries] at he
            cases he
            split
            · rename_i e he'
              rw [hlevel] at he'
              cases he'
            · rename_i next he'
              rw [hlevel] at he'
              cases he'
              refine hnext.trans ⟨?_, ?_⟩
              · rintro ⟨k, hk, hrest⟩
                exact ⟨k, by omega, hrest⟩
              · rintro ⟨k, hk, hrest⟩
                refine ⟨k, ?_, hrest⟩
                rcases Nat.lt_or_ge depth k with hlt | hge
                · exact hlt
                · obtain rfl := Nat.le_antisymm hk hge
                  exact absurd hrest.1 hrefused
      · -- beyond the ceiling
        split
        · rename_i e he
          rw [hentries] at he
          cases he
          constructor
          · rintro ⟨e, he, hcode⟩
            cases he
            cases hcode
          · rintro ⟨k, hk, -, hceiling⟩
            exact absurd ((visitedWithin_mono (Nat.succ_le_succ hk)).trans hceiling) hfits
        · rename_i entries visited he
          rw [hentries] at he
          cases he

end

/-! ## Ways -/

/-- The entry that names lead to, through directories. -/
def entryAt : List Name → Entry → Option Entry
  | [], e => some e
  | n :: ns, .dir es => (es.find? fun e => e.1 == n).bind fun e => entryAt ns e.2
  | _, _ => none

theorem entryAt_concat (ns : List Name) (n : Name) (e : Entry) :
    entryAt (ns ++ [n]) e = (entryAt ns e).bind (entryAt [n]) := by
  induction ns generalizing e with
  | nil => rfl
  | cons m ns ih =>
    cases e with
    | dir es =>
      rw [List.cons_append, entryAt, entryAt, Option.bind_assoc]
      congr 1
      funext e
      exact ih e.2
    | _ => rfl

theorem sound_of_mem {es : List (Name × Entry)} (h : SoundEntries es) {n : Name} {e : Entry} (he : (n, e) ∈ es) :
    Proper n ∧ Sound e := by
  induction es with
  | nil => cases he
  | cons e' es ih =>
    obtain ⟨n', e'⟩ := e'
    rcases List.mem_cons.1 he with heq | he
    · cases heq
      exact ⟨h.1, h.2.1⟩
    · exact ih h.2.2 he

theorem entryAt_singleton {es : List (Name × Entry)} (h : (es.map Prod.fst).Nodup) {n : Name} {e : Entry} :
    entryAt [n] (.dir es) = some e ↔ (n, e) ∈ es := by
  rw [entryAt, Option.bind_eq_some_iff]
  constructor
  · rintro ⟨⟨n', e'⟩, hfind, he⟩
    have hn : n' = n := by simpa using List.find?_some hfind
    subst hn
    cases he
    exact List.mem_of_find?_eq_some hfind
  · intro he
    exact ⟨(n, e), find_of_nodup h he, rfl⟩

theorem sound_entryAt {ns : List Name} : ∀ {e e' : Entry}, Sound e → entryAt ns e = some e' →
    Sound e' ∧ ∀ n ∈ ns, Proper n := by
  induction ns with
  | nil =>
    intro e e' h he
    cases he
    exact ⟨h, by simp⟩
  | cons n ns ih =>
    intro e e' h he
    cases e with
    | dir es =>
      obtain ⟨⟨n', e⟩, hfind, hbelow⟩ := Option.bind_eq_some_iff.1 he
      have hn : n' = n := by simpa using List.find?_some hfind
      subst hn
      obtain ⟨hproper, hsound⟩ := sound_of_mem h.2 (List.mem_of_find?_eq_some hfind)
      obtain ⟨hsound', hrest⟩ := ih hsound hbelow
      exact ⟨hsound', by simpa using ⟨hproper, hrest⟩⟩
    | file => cases he
    | link target => cases he
    | special kind => cases he

section
variable {git : Git} {paths : List Path} {tree : Worktree}

/-- The walk descends into a directory of these names. -/
def Passed (git : Git) (paths : List Path) (ms : List Name) : Prop :=
  pathIntersectsFilters (join ms) paths = true ∧ git.ignored (join ms) = false

theorem mem_visitedAt_of_frontier {depth : ℕ} {e : DirectoryEntry} : e ∈ visitedAt git paths tree depth ↔
    ∃ d ∈ frontierAt git paths tree depth, ∃ n, (n, e.entry) ∈ d.entries ∧ isVisited paths d.path (n, e.entry) = true ∧
      e.path = d.path ++ [n] := by
  simp only [visitedAt, level, List.mem_flatMap, children, List.mem_map, List.mem_filter, sortEntries, List.mem_mergeSort]
  constructor
  · rintro ⟨d, hd, ⟨n, entry⟩, ⟨hmem, hvisited⟩, rfl⟩
    exact ⟨d, hd, n, hmem, hvisited, rfl⟩
  · rintro ⟨d, hd, n, hmem, hvisited, hpath⟩
    obtain ⟨path, entry⟩ := e
    obtain rfl := hpath
    exact ⟨d, hd, (n, entry), ⟨hmem, hvisited⟩, rfl⟩

theorem mem_descend {entries : List DirectoryEntry} {d : Directory} :
    d ∈ descend git entries ↔ ⟨d.path, .dir d.entries⟩ ∈ entries ∧ git.ignored (join d.path) = false := by
  rw [descend, List.mem_filterMap]
  constructor
  · rintro ⟨⟨path, entry⟩, he, hd⟩
    cases entry with
    | dir es =>
      simp only [descent] at hd
      split_ifs at hd with hignored
      cases hd
      exact ⟨he, eq_false_of_ne_true hignored⟩
    | file => cases hd
    | link target => cases hd
    | special kind => cases hd
  · rintro ⟨he, hignored⟩
    refine ⟨_, he, ?_⟩
    show (if git.ignored (join d.path) then none else some d) = some d
    rw [hignored, if_neg Bool.false_ne_true]

theorem isVisited_iff {directory : List Name} {n : Name} {e : Entry} (h : directory.head? ≠ some dotGit) :
    isVisited paths directory (n, e) = true ↔
      (directory ++ [n]).head? ≠ some dotGit ∧ pathIntersectsFilters (join (directory ++ [n])) paths = true := by
  rw [isVisited, Bool.and_eq_true]
  refine and_congr_left fun _ => ?_
  cases directory with
  | nil => simp
  | cons m ms => simpa using h

theorem entryAt_child {ns : List Name} {es : List (Name × Entry)} {n : Name} {e : Entry}
    (hparent : entryAt ns (.dir tree.entries) = some (.dir es)) (hmem : (n, e) ∈ es) :
    entryAt (ns ++ [n]) (.dir tree.entries) = some e := by
  rw [entryAt_concat, hparent]
  exact (entryAt_singleton (sound_entryAt tree.sound hparent).1.1).2 hmem

theorem parent_of_entryAt {path : List Name} {e : Entry} (hne : path ≠ []) (hhead : path.head? ≠ some dotGit)
    (h : entryAt path (.dir tree.entries) = some e) : ∃ ns es n, path = ns ++ [n] ∧
      entryAt ns (.dir tree.entries) = some (.dir es) ∧ ns.head? ≠ some dotGit ∧ (n, e) ∈ es := by
  obtain ⟨ns, n, hpath⟩ := (List.eq_nil_or_concat path).resolve_left hne
  rw [List.concat_eq_append] at hpath
  subst hpath
  rw [entryAt_concat] at h
  obtain ⟨parent, hparent, hchild⟩ := Option.bind_eq_some_iff.1 h
  cases parent with
  | dir es =>
    refine ⟨ns, es, n, rfl, hparent, ?_, (entryAt_singleton (sound_entryAt tree.sound hparent).1.1).1 hchild⟩
    cases ns with
    | nil => simp
    | cons m ms => simpa using hhead
  | file | link target | special kind => cases hchild

/-- **The directories of a level.** -/
theorem mem_frontierAt {depth : ℕ} : ∀ {d : Directory}, d ∈ frontierAt git paths tree depth ↔ d.path.length = depth ∧
    entryAt d.path (.dir tree.entries) = some (.dir d.entries) ∧ d.path.head? ≠ some dotGit ∧
      ∀ ms, ms ≠ [] → ms <+: d.path → Passed git paths ms := by
  induction depth with
  | zero =>
    intro d
    rw [frontierAt, List.mem_singleton]
    constructor
    · rintro rfl
      refine ⟨rfl, rfl, by simp, fun ms hms hprefix => ?_⟩
      exact absurd (List.prefix_nil.1 hprefix) hms
    · rintro ⟨hlength, hentry, -, -⟩
      obtain ⟨path, entries⟩ := d
      obtain rfl := List.length_eq_zero_iff.1 hlength
      cases hentry
      rfl
  | succ depth ih =>
    intro d
    rw [frontierAt, mem_descend]
    constructor
    · rintro ⟨he, hignored⟩
      obtain ⟨parent, hparent, n, hmem, hvisited, hpath⟩ := mem_visitedAt_of_frontier.1 he
      obtain ⟨hlength, hentry, hhead, hpassed⟩ := ih.1 hparent
      simp only at hpath hmem hvisited
      rw [isVisited_iff hhead] at hvisited
      rw [hpath] at hignored ⊢
      refine ⟨by simp [hlength], entryAt_child hentry hmem, hvisited.1, fun ms hms hprefix => ?_⟩
      rcases List.prefix_concat_iff.1 hprefix with rfl | hprefix
      · exact ⟨hvisited.2, hignored⟩
      · exact hpassed ms hms hprefix
    · rintro ⟨hlength, hentry, hhead, hpassed⟩
      have hne : d.path ≠ [] := by
        intro hnil
        rw [hnil] at hlength
        cases hlength
      obtain ⟨ns, es, n, hpath, hparent, hhead', hmem⟩ := parent_of_entryAt hne hhead hentry
      have hself := hpassed d.path hne List.prefix_rfl
      rw [hpath] at hlength hhead
      refine ⟨mem_visitedAt_of_frontier.2 ⟨⟨ns, es⟩, ih.2 ⟨by simpa using hlength, hparent, hhead', ?_⟩, n, hmem,
        (isVisited_iff hhead').2 ⟨hhead, hpath ▸ hself.1⟩, hpath⟩, hself.2⟩
      intro ms hms hprefix
      refine hpassed ms hms ?_
      rw [hpath]
      exact hprefix.trans (List.prefix_append ns [n])

theorem mem_visitedAt {depth : ℕ} {e : DirectoryEntry} : e ∈ visitedAt git paths tree depth ↔ e.path.length = depth + 1 ∧
    entryAt e.path (.dir tree.entries) = some e.entry ∧ e.path.head? ≠ some dotGit ∧
      pathIntersectsFilters (join e.path) paths = true ∧ ∀ ms, ms ≠ [] → ms <+: e.path → ms ≠ e.path → Passed git paths ms := by
  rw [mem_visitedAt_of_frontier]
  constructor
  · rintro ⟨parent, hparent, n, hmem, hvisited, hpath⟩
    obtain ⟨hlength, hentry, hhead, hpassed⟩ := mem_frontierAt.1 hparent
    rw [isVisited_iff hhead] at hvisited
    rw [hpath]
    refine ⟨by simp [hlength], entryAt_child hentry hmem, hvisited.1, hvisited.2, fun ms hms hprefix hne => ?_⟩
    rcases List.prefix_concat_iff.1 hprefix with rfl | hprefix
    · exact absurd rfl hne
    · exact hpassed ms hms hprefix
  · rintro ⟨hlength, hentry, hhead, hvisited, hpassed⟩
    have hne : e.path ≠ [] := by
      intro hnil
      rw [hnil] at hlength
      cases hlength
    obtain ⟨ns, es, n, hpath, hparent, hhead', hmem⟩ := parent_of_entryAt hne hhead hentry
    rw [hpath] at hlength hhead hvisited hpassed
    refine ⟨⟨ns, es⟩, mem_frontierAt.2 ⟨by simpa using hlength, hparent, hhead', fun ms hms hprefix => ?_⟩, n, hmem,
      (isVisited_iff hhead').2 ⟨hhead, hvisited⟩, hpath⟩
    refine hpassed ms hms (List.IsPrefix.trans hprefix (List.prefix_append ns [n])) ?_
    rintro rfl
    have hle : (ns ++ [n]).length ≤ ns.length := hprefix.length_le
    rw [List.length_append, List.length_singleton] at hle
    omega

end

/-! ## Filters -/

theorem slash_prefix_iff {ms : List Name} (hms : ∀ n ∈ ms, '/' ∉ n) (hne : ms ≠ []) (p : Path) :
    (join ms ++ ['/']).isPrefixOf p = true ↔ ∃ rest, rest ≠ [] ∧ split p = ms ++ rest := by
  rw [List.isPrefixOf_iff_prefix]
  constructor
  · rintro ⟨q, rfl⟩
    refine ⟨split q, split_ne_nil q, ?_⟩
    rw [List.append_assoc, List.singleton_append, split_append_slash, split_join hms hne]
  · rintro ⟨rest, hrest, hsplit⟩
    refine ⟨join rest, ?_⟩
    rw [← join_split p, hsplit, join_append_cons hne hrest, List.append_assoc, List.singleton_append]

/-- **A path that a filter meets is above it, at it or beneath it**, component by component. -/
theorem intersects_iff {ns : List Name} (hns : ∀ n ∈ ns, Proper n) (hne : ns ≠ []) (paths : List Path) :
    pathIntersectsFilters (join ns) paths = true ↔ paths = [] ∨ ∃ f ∈ paths, ns <+: split f ∨ split f <+: ns := by
  have hslash : ∀ n ∈ ns, '/' ∉ n := fun n hn => (hns n hn).noSlash
  have hsplit := split_join hslash hne
  rw [pathIntersectsFilters, Bool.or_eq_true, List.isEmpty_iff, List.any_eq_true]
  refine or_congr_right (exists_congr fun f => and_congr_right fun _ => ?_)
  have hbelow := slash_prefix_iff (fun n hn => not_mem_split hn) (split_ne_nil f) (join ns)
  rw [join_split, hsplit] at hbelow
  rw [Bool.or_eq_true, Bool.or_eq_true, hbelow, slash_prefix_iff hslash hne f, beq_iff_eq]
  constructor
  · rintro ((heq | ⟨rest, -, hrest⟩) | ⟨rest, -, hrest⟩)
    · left
      rw [← heq, hsplit]
    · exact .inr ⟨rest, hrest.symm⟩
    · exact .inl ⟨rest, hrest.symm⟩
  · rintro (⟨rest, hrest⟩ | ⟨rest, hrest⟩)
    · by_cases hnil : rest = []
      · rw [hnil, List.append_nil] at hrest
        exact .inl (.inl (by rw [hrest, join_split]))
      · exact .inr ⟨rest, hnil, hrest.symm⟩
    · by_cases hnil : rest = []
      · rw [hnil, List.append_nil] at hrest
        exact .inl (.inl (by rw [← hrest, join_split]))
      · exact .inl (.inr ⟨rest, hnil, hrest.symm⟩)

/-- The filters that meet a path meet those above it. -/
theorem intersects_of_prefix {ms ns : List Name} (hns : ∀ n ∈ ns, Proper n) (hne : ms ≠ []) (h : ms <+: ns)
    {paths : List Path} (hmeet : pathIntersectsFilters (join ns) paths = true) : pathIntersectsFilters (join ms) paths = true := by
  have hne' : ns ≠ [] := by
    rintro rfl
    exact hne (List.prefix_nil.1 h)
  rw [intersects_iff hns hne'] at hmeet
  rw [intersects_iff (fun n hn => hns n (h.subset hn)) hne]
  rcases hmeet with hnil | ⟨f, hf, habove | hbelow⟩
  · exact .inl hnil
  · exact .inr ⟨f, hf, .inl (h.trans habove)⟩
  · exact .inr ⟨f, hf, List.prefix_or_prefix_of_prefix h hbelow⟩

/-! ## What is refused -/

/-- A special entry of the working tree that is untracked, not ignored and under no ignored directory. -/
structure Live (git : Git) (tree : Worktree) (ns : List Name) : Prop where
  special : ∃ kind, entryAt ns (.dir tree.entries) = some (.special kind)
  outside : ns.head? ≠ some dotGit
  untracked : git.tracked (join ns) = false
  unignored : ∀ ms, ms ≠ [] → ms <+: ns → git.ignored (join ms) = false

section
variable {git : Git} {paths : List Path} {tree : Worktree}

theorem Live.proper {ns : List Name} (h : Live git tree ns) : ∀ n ∈ ns, Proper n := by
  obtain ⟨kind, hkind⟩ := h.special
  exact (sound_entryAt tree.sound hkind).2

theorem Live.ne_nil {ns : List Name} (h : Live git tree ns) : ns ≠ [] := by
  rintro rfl
  obtain ⟨kind, hkind⟩ := h.special
  cases hkind

theorem refused_iff {depth : ℕ} : (visitedAt git paths tree depth).any (isRefused git) = true ↔
    ∃ ns, Live git tree ns ∧ pathIntersectsFilters (join ns) paths = true ∧ ns.length = depth + 1 := by
  rw [List.any_eq_true]
  constructor
  · rintro ⟨⟨ns, entry⟩, he, hrefused⟩
    obtain ⟨hlength, hentry, hhead, hmeet, hpassed⟩ := mem_visitedAt.1 he
    cases entry with
    | special kind =>
      simp only [isRefused, DirectoryEntry.relativePath, Bool.and_eq_true, Bool.not_eq_true'] at hrefused
      refine ⟨ns, ⟨⟨kind, hentry⟩, hhead, hrefused.2, fun ms hms hprefix => ?_⟩, hmeet, hlength⟩
      by_cases heq : ms = ns
      · rw [heq]
        exact hrefused.1
      · exact (hpassed ms hms hprefix heq).2
    | file | link target | dir es => cases hrefused
  · rintro ⟨ns, hlive, hmeet, hlength⟩
    obtain ⟨kind, hkind⟩ := hlive.special
    refine ⟨⟨ns, .special kind⟩, mem_visitedAt.2 ⟨hlength, hkind, hlive.outside, hmeet, fun ms hms hprefix _ => ?_⟩, ?_⟩
    · exact ⟨ intersects_of_prefix hlive.proper hms hprefix hmeet, hlive.unignored ms hms hprefix⟩
    · have hself := hlive.unignored ns hlive.ne_nil List.prefix_rfl
      simp [isRefused, DirectoryEntry.relativePath, hself, hlive.untracked]

/-- A live entry that the walk comes to below the ceiling. -/
def Seen (git : Git) (tree : Worktree) (paths : List Path) : Prop :=
  ∃ ns, Live git tree ns ∧ pathIntersectsFilters (join ns) paths = true ∧
    visitedWithin git paths tree ns.length ≤ MAX_VISITED

/-- **What the walk refuses.** -/
theorem throws_iff : Throws (refuseUntrackedSpecialEntries git tree paths) ↔ Seen git tree paths := by
  have hwalk : Throws (walk git paths (visitedWithin git paths tree 0) (frontierAt git paths tree 0)) ↔ _ :=
    walk_throws_iff (Nat.zero_le _)
  refine hwalk.trans ⟨?_, ?_⟩
  · rintro ⟨k, -, hrefused, hceiling⟩
    obtain ⟨ns, hlive, hmeet, hlength⟩ := refused_iff.1 hrefused
    exact ⟨ns, hlive, hmeet, hlength ▸ hceiling⟩
  · rintro ⟨ns, hlive, hmeet, hceiling⟩
    have hpos := List.length_pos_iff.2 hlive.ne_nil
    refine ⟨ns.length - 1, Nat.zero_le _, refused_iff.2 ⟨ns, hlive, hmeet, by omega⟩, ?_⟩
    rw [Nat.sub_add_cancel hpos]
    exact hceiling

end

/-! ## Paths of a review -/

/-- The components of a path that is not absolute and has no `..`. -/
def parts (candidate : Path) : List Name := (split candidate).filter fun n => !(decide (n = []) || decide (n = dot))

def EndsWithSlash (candidate : Path) : Prop := candidate.getLast? = some '/'

/-- Git takes a literal path to match an entry that is no directory beneath it, and one that is at it where no slash follows. -/
def Covers (candidate : Path) (ns : List Name) : Prop :=
  parts candidate <+: ns ∧ (ns = parts candidate → ¬EndsWithSlash candidate)

def Reviewed (candidates : List Path) (ns : List Name) : Prop := candidates = [] ∨ ∃ p ∈ candidates, Covers p ns

theorem collapse_parts (above : Bool) {ns : List Name} (h : dotdot ∉ ns) : ∀ stack, collapse above stack ns =
    stack.reverse ++ ns.filter fun n => !(decide (n = []) || decide (n = dot)) := by
  induction ns with
  | nil =>
    intro stack
    simp [collapse]
  | cons n ns ih =>
    intro stack
    rw [List.mem_cons, not_or] at h
    have ih := ih h.2
    unfold collapse
    by_cases hempty : n = [] ∨ n = dot
    · rw [if_pos hempty, ih, List.filter_cons_of_neg (by rcases hempty with rfl | rfl <;> simp)]
    · rw [if_neg hempty, if_neg fun hdots => h.1 hdots.symm, ih, List.filter_cons_of_pos (by simpa [not_or] using hempty),
        List.reverse_cons, List.append_assoc, List.singleton_append]

/-- A component without backslashes is one of the finer parts. -/
theorem mem_splitOnP (p : Path) : ∃ n ns m ms, split p = n :: ns ∧
    (p.splitOnP fun c => c == '\\' || c == '/') = m :: ms ∧ ('\\' ∉ n → n = m) ∧ ∀ k ∈ ns, '\\' ∉ k → k ∈ ms := by
  induction p with
  | nil => exact ⟨[], [], [], [], rfl, rfl, fun _ => rfl, by simp⟩
  | cons c p ih =>
    obtain ⟨n, ns, m, ms, hsplit, hfine, hhead, htail⟩ := ih
    by_cases hslash : c = '/'
    · subst hslash
      refine ⟨[], n :: ns, [], m :: ms, by rw [split, if_pos rfl, hsplit],
        by simp [List.splitOnP_cons_eq_if_modifyHead, hfine], fun _ => rfl, fun k hk hback => ?_⟩
      rcases List.mem_cons.1 hk with rfl | hk
      · exact hhead hback ▸ List.mem_cons_self
      · exact List.mem_cons_of_mem _ (htail k hk hback)
    · have hcons : split (c :: p) = (c :: n) :: ns := by rw [split, if_neg hslash, hsplit]
      by_cases hback : c = '\\'
      · subst hback
        refine ⟨_, ns, [], m :: ms, hcons, by simp [List.splitOnP_cons_eq_if_modifyHead, hfine], fun h => ?_,
          fun k hk h => ?_⟩
        · exact absurd List.mem_cons_self h
        · exact List.mem_cons_of_mem _ (htail k hk h)
      · refine ⟨_, ns, c :: m, ms, hcons, ?_, fun h => ?_, htail⟩
        · simp [List.splitOnP_cons_eq_if_modifyHead, hfine, hslash, hback]
        · rw [hhead fun hmem => h (List.mem_cons_of_mem c hmem)]

section
variable {candidate : Path}

theorem dotdot_notMem_split (h : isLiteralPath candidate = true) : dotdot ∉ split candidate := by
  simp only [isLiteralPath, Bool.and_eq_true, Bool.not_eq_true', List.contains_eq_mem, decide_eq_false_iff_not] at h
  intro hmem
  obtain ⟨n, ns, m, ms, hsplit, hfine, hhead, htail⟩ := mem_splitOnP candidate
  have hback : '\\' ∉ dotdot := by decide
  rw [hfine, List.mem_cons, not_or] at h
  rw [hsplit] at hmem
  rcases List.mem_cons.1 hmem with rfl | hmem
  · exact h.2.1 (hhead hback)
  · exact h.2.2 (htail _ hmem hback)

theorem split_parts (hne : parts candidate ≠ []) : split (join (parts candidate)) = parts candidate :=
  split_join (fun _ hn => not_mem_split (List.mem_of_mem_filter hn)) hne

/-- **A path that is given without a slash at its end is normalised to its components.** -/
theorem normalize_of_literal (h : isLiteralPath candidate = true) (hslash : ¬EndsWithSlash candidate) :
    normalize candidate = if parts candidate = [] then dot else join (parts candidate) := by
  have hdots := dotdot_notMem_split h
  simp only [isLiteralPath, Bool.and_eq_true, Bool.not_eq_true', List.isEmpty_eq_false_iff] at h
  have htrailing : (candidate.getLast? == some '/') = false := beq_eq_false_iff_ne.2 hslash
  rw [PosixPath.normalize, if_neg h.1.1.1, collapse_parts _ hdots, List.reverse_nil, List.nil_append, htrailing, h.1.2, ← parts]
  by_cases hparts : parts candidate = []
  · rw [if_pos hparts, hparts]
    rfl
  · rw [if_neg hparts]
    have hne : join (parts candidate) ≠ [] := by
      intro hnil
      have hsplit := split_parts hparts
      rw [hnil] at hsplit
      have hmem : [] ∈ parts candidate := hsplit ▸ List.mem_singleton.2 rfl
      simp [parts] at hmem
    cases hjoin : join (parts candidate) with
    | nil => exact absurd hjoin hne
    | cons c q => simp

theorem split_normalize (h : isLiteralPath candidate = true) (hslash : ¬EndsWithSlash candidate)
    (hne : normalize candidate ≠ dot) : parts candidate ≠ [] ∧ split (normalize candidate) = parts candidate := by
  rw [normalize_of_literal h hslash] at hne ⊢
  split_ifs at hne ⊢ with hparts
  · exact absurd rfl hne
  · exact ⟨hparts, split_parts hparts⟩

theorem parts_of_root (h : isLiteralPath candidate = true) (hslash : ¬EndsWithSlash candidate)
    (hroot : normalize candidate = dot) : parts candidate = [] := by
  rw [normalize_of_literal h hslash] at hroot
  by_contra hparts
  rw [if_neg hparts] at hroot
  have hsplit := split_parts hparts
  rw [hroot] at hsplit
  have hmem : dot ∈ parts candidate := hsplit ▸ List.mem_singleton.2 rfl
  simp [parts] at hmem

end

/-- What is read of the paths of a review. -/
theorem readPaths_cases {candidates : List Path} : ∀ {unique : List Path} {root : Bool} {unique' : List Path} {root' : Bool},
    readPaths unique root candidates = .ok (unique', root') → (∀ p ∈ candidates, isLiteralPath p = true) ∧
      (root' = true ↔ root = true ∨ ∃ p ∈ candidates, normalize p = dot) ∧
      ∀ f, f ∈ unique' ↔ f ∈ unique ∨ ∃ p ∈ candidates, normalize p ≠ dot ∧ f = normalize p := by
  induction candidates with
  | nil =>
    intro unique root unique' root' h
    cases h
    simp
  | cons p ps ih =>
    intro unique root unique' root' h
    unfold readPaths at h
    cases hliteral : isLiteralPath p with
    | false =>
      rw [hliteral] at h
      cases h
    | true =>
      rw [hliteral] at h
      dsimp only [Bool.not_true, Bool.false_eq_true, if_false] at h
      by_cases hroot : normalize p = dot
      · rw [if_pos hroot] at h
        obtain ⟨hall, hroots, hmem⟩ := ih h
        exact ⟨by simpa [hliteral] using hall, by simp [hroots, hroot], fun f => by simp [hmem f, hroot]⟩
      · rw [if_neg hroot] at h
        obtain ⟨hall, hroots, hmem⟩ := ih h
        refine ⟨by simpa [hliteral] using hall, by simp [hroots, hroot], fun f => ?_⟩
        have hunique : (f ∈ if normalize p ∈ unique then unique else unique ++ [normalize p]) ↔
            f ∈ unique ∨ f = normalize p := by
          split_ifs with hold
          · refine ⟨Or.inl, ?_⟩
            rintro (hf | rfl)
            · exact hf
            · exact hold
          · simp
        rw [hmem f, hunique]
        simp [hroot, or_assoc]

/-- The filters of a review: none, where the root is given. -/
theorem validate_cases {candidates paths : List Path} (h : validateLiteralPaths candidates = .ok paths) :
    (∀ p ∈ candidates, isLiteralPath p = true) ∧
      (((∃ p ∈ candidates, normalize p = dot) ∧ paths = []) ∨
        ((∀ p ∈ candidates, normalize p ≠ dot) ∧ ∀ f, f ∈ paths ↔ ∃ p ∈ candidates, f = normalize p)) := by
  obtain ⟨⟨unique, root⟩, hread, h⟩ := ok_of_bind h
  obtain ⟨hall, hroot, hmem⟩ := readPaths_cases hread
  refine ⟨hall, ?_⟩
  have hpaths : paths = if root then [] else sortStrings unique := (Except.ok.inj h).symm
  simp only [Bool.false_eq_true, false_or] at hroot
  split_ifs at hpaths with hset
  · exact .inl ⟨hroot.1 hset, hpaths⟩
  · have hnone : ∀ p ∈ candidates, normalize p ≠ dot := fun p hp hdot => hset (hroot.2 ⟨p, hp, hdot⟩)
    refine .inr ⟨hnone, fun f => ?_⟩
    rw [hpaths, sortStrings, List.mem_mergeSort, hmem f]
    simp only [List.not_mem_nil, false_or]
    exact exists_congr fun p => and_congr_right fun hp => and_iff_right (hnone p hp)

/-! ## The claim of the walk -/

section
variable {git : Git} {tree : Worktree} {candidates paths : List Path}

/-- Some entry is unsafe to review: it is live, and the paths cover it. -/
def Unsafe (git : Git) (tree : Worktree) (candidates : List Path) : Prop :=
  ∃ ns, Live git tree ns ∧ Reviewed candidates ns

/-- Where no path ends with a slash and no live entry is above one, the filters meet the live entries that are covered. -/
theorem reviewed_iff (h : validateLiteralPaths candidates = .ok paths) (hslash : ∀ p ∈ candidates, ¬EndsWithSlash p)
    {ns : List Name} (hlive : Live git tree ns) (habove : ∀ p ∈ candidates, ns <+: parts p → ns = parts p) :
    Reviewed candidates ns ↔ pathIntersectsFilters (join ns) paths = true := by
  rw [intersects_iff hlive.proper hlive.ne_nil]
  obtain ⟨hall, ⟨⟨p, hp, hroot⟩, rfl⟩ | ⟨hnone, hmem⟩⟩ := validate_cases h
  · refine iff_of_true (.inr ⟨p, hp, ?_, fun _ => hslash p hp⟩) (.inl rfl)
    rw [parts_of_root (hall p hp) (hslash p hp) hroot]
    exact List.nil_prefix
  · have hparts : ∀ p ∈ candidates, split (normalize p) = parts p :=
      fun p hp => (split_normalize (hall p hp) (hslash p hp) (hnone p hp)).2
    constructor
    · rintro (rfl | ⟨p, hp, hcovers, -⟩)
      · left
        refine List.eq_nil_iff_forall_not_mem.2 fun f hf => ?_
        obtain ⟨p, hp, -⟩ := (hmem f).1 hf
        cases hp
      · exact .inr ⟨normalize p, (hmem _).2 ⟨p, hp, rfl⟩, .inr (hparts p hp ▸ hcovers)⟩
    · rintro (hnil | ⟨f, hf, hmeet⟩)
      · left
        refine List.eq_nil_iff_forall_not_mem.2 fun p hp => ?_
        have hf := (hmem (normalize p)).2 ⟨p, hp, rfl⟩
        rw [hnil] at hf
        cases hf
      · obtain ⟨p, hp, rfl⟩ := (hmem f).1 hf
        rw [hparts p hp] at hmeet
        refine .inr ⟨p, hp, ?_, fun _ => hslash p hp⟩
        rcases hmeet with hup | hdown
        · rw [← habove p hp hup]
        · exact hdown

/-- **The refusal covers the paths of a review**, if and only if a live entry is covered just when the walk comes to one below
the ceiling.  That is so where no path ends with a slash, no live entry is above one of the paths, and the ceiling is not reached.
The walk enumerates only directories that are reached through directories. -/
theorem special_entries_iff (h : validateLiteralPaths candidates = .ok paths) :
    ((Throws (refuseUntrackedSpecialEntries git tree paths) ↔ Unsafe git tree candidates) ↔
      (Unsafe git tree candidates ↔ Seen git tree paths)) ∧
    ((∀ p ∈ candidates, ¬EndsWithSlash p) →
      (∀ ns, Live git tree ns → ∀ p ∈ candidates, ns <+: parts p → ns = parts p) →
      (∀ depth, visitedWithin git paths tree depth ≤ MAX_VISITED) →
      (Throws (refuseUntrackedSpecialEntries git tree paths) ↔ Unsafe git tree candidates)) ∧
    ∀ depth, ∀ d ∈ frontierAt git paths tree depth, entryAt d.path (.dir tree.entries) = some (.dir d.entries) := by
  refine ⟨?_, fun hslash habove hceiling => ?_, fun depth d hd => (mem_frontierAt.1 hd).2.1⟩
  · rw [throws_iff]
    exact ⟨Iff.symm, Iff.symm⟩
  · rw [throws_iff]
    refine exists_congr fun ns => and_congr_right fun hlive => ?_
    rw [reviewed_iff h hslash hlive (habove ns hlive)]
    exact and_iff_left (hceiling _)

end

/-! ## A pipe -/

theorem proper_letter {c : Char} (h : c ≠ '.') (h' : c ≠ '/') : Proper [c] where
  nonempty := List.cons_ne_nil _ _
  notDot := fun heq => h (List.cons.inj heq).1
  notDotdot := fun heq => h (List.cons.inj heq).1
  noSlash := by simpa using h'.symm

/-- A pipe in a directory. -/
def nestedTree : Worktree where
  entries := [(['a'], .dir [(['p'], .special .fifo)])]
  sound := ⟨List.nodup_singleton _, proper_letter (by decide) (by decide),
    ⟨List.nodup_singleton _, proper_letter (by decide) (by decide), trivial, trivial⟩, trivial⟩

/-- Nothing is tracked, and nothing ignored. -/
def plainGit : Git := ⟨fun _ => false, fun _ => false⟩

theorem live_nested {ns : List Name} (h : Live plainGit nestedTree ns) : ns = [['a'], ['p']] := by
  obtain ⟨kind, hkind⟩ := h.special
  cases ns with
  | nil => cases hkind
  | cons n ns =>
    obtain ⟨⟨n', e⟩, hfind, hbelow⟩ := Option.bind_eq_some_iff.1 hkind
    have hmem := List.mem_of_find?_eq_some hfind
    have hn : n' = n := by simpa using List.find?_some hfind
    obtain ⟨rfl, rfl⟩ := Prod.mk.inj (List.mem_singleton.1 hmem)
    cases ns with
    | nil => cases hbelow
    | cons m ms =>
      obtain ⟨⟨m', e'⟩, hfind', hbelow'⟩ := Option.bind_eq_some_iff.1 hbelow
      have hmem' := List.mem_of_find?_eq_some hfind'
      have hm : m' = m := by simpa using List.find?_some hfind'
      obtain ⟨rfl, rfl⟩ := Prod.mk.inj (List.mem_singleton.1 hmem')
      cases ms with
      | nil => rw [← hn, ← hm]
      | cons k ks => cases hbelow'

theorem unsafe_nested {p : Path} (h : Covers p [['a'], ['p']]) : Unsafe plainGit nestedTree [p] :=
  ⟨_, ⟨⟨.fifo, rfl⟩, by decide, rfl, fun _ _ _ => rfl⟩, .inr ⟨p, List.mem_singleton_self p, h⟩⟩

/-- The walk of the tree ends behind the directory and the pipe. -/
theorem visitedWithin_nested (depth : ℕ) : visitedWithin plainGit [['a']] nestedTree depth ≤ MAX_VISITED := by
  have hroot : level [['a']] [⟨[], nestedTree.entries⟩] = [⟨[['a']], .dir [(['p'], .special .fifo)]⟩] := by
    simp only [level, children, sortEntries, nestedTree, List.flatMap_singleton, List.mergeSort_singleton]
    rfl
  have hbelow : level [['a']] [⟨[['a']], [(['p'], .special .fifo)]⟩] = [⟨[['a'], ['p']], .special .fifo⟩] := by
    simp only [level, children, sortEntries, List.flatMap_singleton, List.mergeSort_singleton]
    rfl
  have hone : frontierAt plainGit [['a']] nestedTree 1 = [⟨[['a']], [(['p'], .special .fifo)]⟩] := by
    rw [frontierAt, frontierAt, hroot]
    rfl
  have hend : frontierAt plainGit [['a']] nestedTree 2 = [] := by
    rw [frontierAt, hone, hbelow]
    rfl
  have htwo : visitedWithin plainGit [['a']] nestedTree 2 ≤ 2 := by
    rw [visitedWithin, visitedWithin, visitedAt, visitedAt, hone, hbelow, frontierAt, hroot]
    exact le_rfl
  have hmax : MAX_VISITED = 100000 := rfl
  rcases Nat.le_total depth 2 with hdepth | hdepth
  · exact (visitedWithin_mono hdepth).trans (htwo.trans (by omega))
  · induction depth, hdepth using Nat.le_induction with
    | base => exact htwo.trans (by omega)
    | succ depth hdepth ih => rwa [visitedWithin, frontierAt_nil hend depth hdepth]

/-- The pipe is refused, where its directory is given. -/
theorem special_entries_of_pipe : validateLiteralPaths [['a']] = .ok [['a']] ∧ Unsafe plainGit nestedTree [['a']] ∧
    Throws (refuseUntrackedSpecialEntries plainGit nestedTree [['a']]) := by
  have hpaths : validateLiteralPaths [['a']] = .ok [['a']] := by
    show Except.ok (sortStrings [['a']]) = _
    rw [sortStrings, List.mergeSort_singleton]
  have hunsafe : Unsafe plainGit nestedTree [['a']] := unsafe_nested ⟨by decide, fun heq => absurd heq (by decide)⟩
  refine ⟨hpaths, hunsafe, ((special_entries_iff hpaths).2.1 ?_ ?_ visitedWithin_nested).2 hunsafe⟩
  · intro p hp hslash
    rw [List.mem_singleton.1 hp] at hslash
    cases hslash
  · intro ns hlive p hp habove
    rw [live_nested hlive, List.mem_singleton.1 hp] at habove
    exact absurd habove (by decide)

/-- The pipe is not refused, where its directory is given with a slash. -/
theorem slash_hides_a_pipe : validateLiteralPaths [['a', '/']] = .ok [['a', '/']] ∧ Unsafe plainGit nestedTree [['a', '/']] ∧
    ¬Throws (refuseUntrackedSpecialEntries plainGit nestedTree [['a', '/']]) := by
  refine ⟨?_, unsafe_nested ⟨by decide, fun heq => absurd heq (by decide)⟩, ?_⟩
  · show Except.ok (sortStrings [['a', '/']]) = _
    rw [sortStrings, List.mergeSort_singleton]
  · rw [throws_iff]
    rintro ⟨ns, hlive, hmeet, -⟩
    rw [live_nested hlive] at hmeet
    exact absurd hmeet (by decide)

end LlmGateway.Review.Scope
