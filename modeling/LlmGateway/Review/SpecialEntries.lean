import LlmGateway.Lib.PosixPath
import LlmGateway.Lib.Utf8
import Mathlib.Algebra.Order.BigOperators.Group.List

/-!
# Special entries of a working tree

`validateLiteralPaths` and `refuseUntrackedSpecialEntries` (review-scope.ts), on a platform with POSIX paths.

* `validateLiteralPaths` — the paths of a review, normalised;
* `enumerateFrontier`, `refuseLevel` — one level of the walk; `walk` — all of them, breadth first; `load` is what is left of the
  tree below a level, which decreases.

The answers of Git, `check-ignore` and `ls-files --error-unmatch`, are parameters.  The tree does not change, and its root has
been resolved: the directories that the walk comes to are then their own `realpathSync`.
-/

namespace LlmGateway.Review.Scope

open Lib Lib.PosixPath

inductive Kind where
  | fifo
  | socket
  | block_device
  | character_device
  | special
deriving DecidableEq

inductive Entry where
  | file
  | link (target : Path)
  | special (kind : Kind)
  | dir (entries : List (Name × Entry))

mutual

/-- The names of a directory are proper and different. -/
def Sound : Entry → Prop
  | .dir es => (es.map Prod.fst).Nodup ∧ SoundEntries es
  | _ => True

def SoundEntries : List (Name × Entry) → Prop
  | [] => True
  | (n, e) :: es => Proper n ∧ Sound e ∧ SoundEntries es

end

/-- The root of a repository. -/
structure Worktree where
  entries : List (Name × Entry)
  sound : Sound (.dir entries)

structure Git where
  ignored : Path → Bool
  tracked : Path → Bool

/-! ## Errors -/

inductive ReviewScopeErrorCode where
  | invalid_input
  | git_output_too_large
  | unsafe_untracked_type
deriving DecidableEq

structure ReviewScopeError where
  code : ReviewScopeErrorCode
  message : String
  path : Option Path
  kind : Option Kind
deriving DecidableEq

abbrev Checked := Except ReviewScopeError

def Kind.word : Kind → String
  | .fifo => "fifo"
  | .socket => "socket"
  | .block_device => "block_device"
  | .character_device => "character_device"
  | .special => "special"

def invalidPaths : ReviewScopeError :=
  ⟨.invalid_input, "Review paths must be non-empty literal paths relative to the repository", none, none⟩

def enumerationTooLarge : ReviewScopeError :=
  ⟨.git_output_too_large, "Repository filesystem enumeration exceeded the hard evidence ceiling", none, none⟩

def unsafeUntracked (path : Path) (kind : Kind) : ReviewScopeError :=
  ⟨.unsafe_untracked_type, "Untracked " ++ kind.word ++ " entries are refused by review evidence capture", some path, some kind⟩

/-! ## Paths -/

/-- The order of `compareDeterministicStrings`. -/
def sortStrings (ps : List Path) : List Path := ps.mergeSort fun p q => decide (Utf8.units p ≤ Utf8.units q)

def isLiteralPath (candidate : Path) : Bool :=
  !candidate.isEmpty && !candidate.contains '\x00' && !isAbsolute candidate &&
    !(candidate.splitOnP fun c => c == '\\' || c == '/').contains dotdot

/-- The paths other than the root, and whether the root is among them. -/
def readPaths (unique : List Path) (includesRepositoryRoot : Bool) : List Path → Checked (List Path × Bool)
  | [] => .ok (unique, includesRepositoryRoot)
  | candidate :: candidates =>
    if !isLiteralPath candidate then .error invalidPaths
    else
      let normalized := normalize candidate
      if normalized = dot then readPaths unique true candidates
      else readPaths (if normalized ∈ unique then unique else unique ++ [normalized]) includesRepositoryRoot candidates

def validateLiteralPaths (paths : List Path) : Checked (List Path) := do
  let (unique, includesRepositoryRoot) ← readPaths [] false paths
  return if includesRepositoryRoot then [] else sortStrings unique

def pathIntersectsFilters (relativePath : Path) (paths : List Path) : Bool :=
  paths.isEmpty || paths.any fun filter =>
    relativePath == filter || (filter ++ ['/']).isPrefixOf relativePath || (relativePath ++ ['/']).isPrefixOf filter

/-! ## The walk -/

/-- An entry, with the names on the way from the root. -/
structure DirectoryEntry where
  path : List Name
  entry : Entry

def DirectoryEntry.relativePath (e : DirectoryEntry) : Path := join e.path

structure Directory where
  path : List Name
  entries : List (Name × Entry)

def dotGit : Name := ['.', 'g', 'i', 't']

def MAX_VISITED : ℕ := 100000

def sortEntries (es : List (Name × Entry)) : List (Name × Entry) :=
  es.mergeSort fun e e' => decide (Utf8.units e.1 ≤ Utf8.units e'.1)

section
variable (paths : List Path)

/-- The entries of a directory that the walk looks at. -/
def isVisited (directory : List Name) (e : Name × Entry) : Bool :=
  !(directory.isEmpty && e.1 == dotGit) && pathIntersectsFilters (join (directory ++ [e.1])) paths

def enumerateEntries (directory : List Name) (visited : ℕ) : List (Name × Entry) → Checked (List DirectoryEntry × ℕ)
  | [] => .ok ([], visited)
  | e :: es =>
    if !isVisited paths directory e then enumerateEntries directory visited es
    else if MAX_VISITED < visited + 1 then .error enumerationTooLarge
    else do
      let (entries, visited) ← enumerateEntries directory (visited + 1) es
      return (⟨directory ++ [e.1], e.2⟩ :: entries, visited)

def enumerateDirectory (visited : ℕ) (d : Directory) : Checked (List DirectoryEntry × ℕ) :=
  enumerateEntries paths d.path visited (sortEntries d.entries)

def enumerateFrontier (visited : ℕ) : List Directory → Checked (List DirectoryEntry × ℕ)
  | [] => .ok ([], visited)
  | d :: ds => do
    let (entries, visited) ← enumerateDirectory paths visited d
    let (rest, visited) ← enumerateFrontier visited ds
    return (entries ++ rest, visited)

end

section
variable (git : Git)

/-- A directory, or an entry that is neither a file nor a link. -/
def isProbed (e : DirectoryEntry) : Bool :=
  match e.entry with
  | .file => false
  | .link _ => false
  | .special _ => true
  | .dir _ => true

def ignoredPathSubset (relativePaths : List Path) : List Path := relativePaths.filter git.ignored

/-- The directories to descend into, unless an entry is refused. -/
def refuseEntries (ignored : List Path) : List DirectoryEntry → Checked (List Directory)
  | [] => .ok []
  | e :: es =>
    match e.entry with
    | .dir entries => do
      let next ← refuseEntries ignored es
      return if ignored.contains e.relativePath then next else ⟨e.path, entries⟩ :: next
    | .special kind =>
      if !ignored.contains e.relativePath && !git.tracked e.relativePath then .error (unsafeUntracked e.relativePath kind)
      else refuseEntries ignored es
    | _ => refuseEntries ignored es

def refuseLevel (entries : List DirectoryEntry) : Checked (List Directory) :=
  let probed := entries.filter isProbed
  refuseEntries git (ignoredPathSubset git (probed.map (·.relativePath))) probed

end

mutual

/-- The number of directories of an entry. -/
def weight : Entry → ℕ
  | .dir es => weights es + 1
  | _ => 0

def weights : List (Name × Entry) → ℕ
  | [] => 0
  | (_, e) :: es => weight e + weights es

end

def load (frontier : List Directory) : ℕ := (frontier.map fun d => weights d.entries + 1).sum

theorem weights_eq (es : List (Name × Entry)) : weights es = (es.map fun e => weight e.2).sum := by
  induction es with
  | nil => rfl
  | cons e es ih => rw [weights, ih, List.map_cons, List.sum_cons]

theorem load_eq (frontier : List Directory) :
    load frontier = (frontier.map fun d => weights d.entries).sum + frontier.length := by
  induction frontier with
  | nil => rfl
  | cons d ds ih =>
    simp only [load, List.map_cons, List.sum_cons, List.length_cons] at ih ⊢
    omega

theorem weights_sortEntries (es : List (Name × Entry)) : weights (sortEntries es) = weights es := by
  rw [weights_eq, weights_eq]
  exact ((List.mergeSort_perm es _).map _).sum_eq

section
variable {paths : List Path}

theorem ok_of_bind {α β : Type} {x : Checked α} {f : α → Checked β} {b : β} (h : x >>= f = .ok b) :
    ∃ a, x = .ok a ∧ f a = .ok b := by
  cases x with
  | error e => cases h
  | ok a => exact ⟨a, rfl, h⟩

theorem weight_enumerateEntries {directory : List Name} {es : List (Name × Entry)} :
    ∀ {visited visited' : ℕ} {entries : List DirectoryEntry},
    enumerateEntries paths directory visited es = .ok (entries, visited') →
    (entries.map fun e => weight e.entry).sum ≤ weights es := by
  induction es with
  | nil =>
    intro visited visited' entries h
    cases h
    exact le_rfl
  | cons e es ih =>
    intro visited visited' entries h
    rw [enumerateEntries] at h
    split_ifs at h
    · exact (ih h).trans (Nat.le_add_left _ _)
    · obtain ⟨⟨rest, v⟩, hrest, h⟩ := ok_of_bind h
      cases h
      exact Nat.add_le_add_left (ih hrest) _

theorem weight_enumerateFrontier {frontier : List Directory} :
    ∀ {visited visited' : ℕ} {entries : List DirectoryEntry},
    enumerateFrontier paths visited frontier = .ok (entries, visited') →
    (entries.map fun e => weight e.entry).sum ≤ (frontier.map fun d => weights d.entries).sum := by
  induction frontier with
  | nil =>
    intro visited visited' entries h
    cases h
    exact le_rfl
  | cons d ds ih =>
    intro visited visited' entries h
    obtain ⟨⟨first, v⟩, hfirst, h⟩ := ok_of_bind h
    obtain ⟨⟨rest, v'⟩, hrest, h⟩ := ok_of_bind h
    cases h
    have hd := weight_enumerateEntries hfirst
    rw [weights_sortEntries] at hd
    rw [List.map_append, List.sum_append, List.map_cons, List.sum_cons]
    exact Nat.add_le_add hd (ih hrest)

theorem load_refuseEntries {git : Git} {ignored : List Path} {entries : List DirectoryEntry} :
    ∀ {next : List Directory}, refuseEntries git ignored entries = .ok next →
    load next ≤ (entries.map fun e => weight e.entry).sum := by
  induction entries with
  | nil =>
    intro next h
    cases h
    exact le_rfl
  | cons e es ih =>
    intro next h
    rw [refuseEntries] at h
    rw [List.map_cons, List.sum_cons]
    split at h
    · rename_i entries hentry
      obtain ⟨rest, hrest, h⟩ := ok_of_bind h
      have hle := ih hrest
      cases h
      rw [hentry, weight]
      split_ifs
      · omega
      · simp only [load, List.map_cons, List.sum_cons] at hle ⊢
        omega
    · split_ifs at h
      exact (ih h).trans (Nat.le_add_left _ _)
    · exact (ih h).trans (Nat.le_add_left _ _)

theorem load_refuseLevel {git : Git} {entries : List DirectoryEntry} {next : List Directory}
    (h : refuseLevel git entries = .ok next) : load next ≤ (entries.map fun e => weight e.entry).sum := by
  refine (load_refuseEntries h).trans ?_
  exact (List.filter_sublist.map _).sum_le_sum (by simp)

/-- What is left below the next level is less. -/
theorem load_lt {git : Git} {visited visited' : ℕ} {d : Directory} {ds : List Directory} {entries : List DirectoryEntry}
    {next : List Directory} (hentries : enumerateFrontier paths visited (d :: ds) = .ok (entries, visited'))
    (hnext : refuseLevel git entries = .ok next) : load next < load (d :: ds) := by
  have hle := (load_refuseLevel hnext).trans (weight_enumerateFrontier hentries)
  have hsum := load_eq (d :: ds)
  rw [List.length_cons] at hsum
  omega

end

def walk (git : Git) (paths : List Path) (visited : ℕ) (frontier : List Directory) : Checked Unit :=
  match frontier with
  | [] => .ok ()
  | d :: ds =>
    match _hentries : enumerateFrontier paths visited (d :: ds) with
    | .error e => .error e
    | .ok (entries, visited) =>
      match _hnext : refuseLevel git entries with
      | .error e => .error e
      | .ok next => walk git paths visited next
termination_by load frontier
decreasing_by exact load_lt _hentries _hnext

def refuseUntrackedSpecialEntries (git : Git) (tree : Worktree) (paths : List Path) : Checked Unit :=
  walk git paths 0 [⟨[], tree.entries⟩]

end LlmGateway.Review.Scope
