import LlmGateway.Lib.JsMap
import LlmGateway.Lib.PosixPath

/-!
# Directory trees with symbolic links

A tree has an object for every identity that is in use: a directory with its entries, a file or a symbolic link.  A `Place` is the
way down to an object, the last entry first.

* `steps`, `walk` — the resolution of the components of a path, with at most so many links; `follow` says what becomes of a link
  at the end of the path;
* `Real` — a place that is reached without links: `real_walk` — any path that is followed to its end leads to such a one.
-/

namespace LlmGateway.Lib

open PosixPath

inductive Node (ι β : Type*) where
  | dir (entries : JsMap Name ι)
  | file (content : β)
  | link (target : Path)

inductive Errno where
  | ENOENT
  | ENOTDIR
  | ELOOP
deriving DecidableEq

structure FileTree (ι β : Type*) where
  root : ι
  nodes : ι → Option (Node ι β)
  root_dir : ∃ entries, nodes root = some (.dir entries)

namespace FileTree

variable {ι β : Type*}

abbrev Place (ι : Type*) := List (Name × ι)

def Place.names (place : Place ι) : List Name := (place.map Prod.fst).reverse

section Resolution

variable (t : FileTree ι β)

/-- The object at a place. -/
def here : Place ι → ι
  | [] => t.root
  | (_, i) :: _ => i

/-- The resolution of components up to the next link; `k` goes on behind it. -/
def steps (follow : Bool) (k : List Name → Place ι → Except Errno (Place ι)) : List Name → Place ι → Except Errno (Place ι)
  | [], place => .ok place
  | n :: ns, place =>
    match t.nodes (t.here place) with
    | some (.dir entries) =>
      if n = [] ∨ n = dot then steps follow k ns place
      else if n = dotdot then steps follow k ns place.tail
      else
        match entries.get n with
        | none => .error .ENOENT
        | some i =>
          match t.nodes i with
          | none => .error .ENOENT
          | some (.link target) =>
            if follow || !ns.isEmpty then k (split target ++ ns) (if isAbsolute target then [] else place)
            else .ok ((n, i) :: place)
          | some _ => steps follow k ns ((n, i) :: place)
    | _ => .error .ENOTDIR

def walk (follow : Bool) : ℕ → List Name → Place ι → Except Errno (Place ι)
  | 0 => t.steps follow fun _ _ => .error .ELOOP
  | links + 1 => t.steps follow (walk follow links)

def maxLinks : ℕ := 40

/-- The resolution of an absolute path. -/
def lookup (follow : Bool) (p : Path) : Except Errno (Place ι) := t.walk follow maxLinks (split p) []

def existsSync (p : Path) : Bool := (t.lookup true p).isOk

/-- The place that `realpathSync` finds. -/
def realPlace (p : Path) : Except Errno (Place ι) := t.walk true maxLinks (names p) []

def realpathSync (p : Path) : Except Errno Path := (t.realPlace p).map fun place => render place.names

end Resolution

variable {t t' : FileTree ι β}

/-! ## Places without links -/

/-- Every entry on the way is there, and none is a link. -/
def Real (t : FileTree ι β) : Place ι → Prop
  | [] => True
  | (n, i) :: place =>
    Real t place ∧ Proper n ∧ (∃ entries, t.nodes (t.here place) = some (.dir entries) ∧ entries.get n = some i) ∧
      ∃ node, t.nodes i = some node ∧ ∀ target, node ≠ .link target

theorem real_nil (t : FileTree ι β) : Real t [] := trivial

theorem Real.proper {place : Place ι} (h : Real t place) : ∀ n ∈ place.names, Proper n := by
  induction place with
  | nil =>
    intro n hn
    cases hn
  | cons e place ih =>
    intro n hn
    unfold Place.names at hn
    rw [List.map_cons, List.reverse_cons, List.mem_append, List.mem_singleton] at hn
    rcases hn with hn | rfl
    · exact ih h.1 n hn
    · exact h.2.1

theorem Real.tail {place : Place ι} (h : Real t place) : Real t place.tail := by
  cases place with
  | nil => trivial
  | cons e place => exact h.1

/-- Any path that is followed to its end leads to a real place. -/
theorem real_steps {k : List Name → Place ι → Except Errno (Place ι)}
    (hk : ∀ ns place r, (∀ n ∈ ns, '/' ∉ n) → Real t place → k ns place = .ok r → Real t r) {ns : List Name} (hns : ∀ n ∈ ns, '/' ∉ n)
    {place r : Place ι} (h : Real t place) (hr : t.steps true k ns place = .ok r) : Real t r := by
  induction ns generalizing place with
  | nil =>
    cases hr
    exact h
  | cons n ns ih =>
    have hns' : ∀ m ∈ ns, '/' ∉ m := fun m hm => hns m (List.mem_cons_of_mem n hm)
    unfold steps at hr
    split at hr
    · rename_i entries hdir
      split at hr
      · exact ih hns' h hr
      · rename_i hskip
        split at hr
        · exact ih hns' h.tail hr
        · rename_i hup
          split at hr
          · cases hr
          · rename_i i hget
            have hn : Proper n := ⟨fun e => hskip (.inl e), fun e => hskip (.inr e), hup, hns n List.mem_cons_self⟩
            split at hr
            · cases hr
            · rename_i target hnode
              change k (split target ++ ns) (if isAbsolute target then [] else place) = .ok r at hr
              have htarget : ∀ m ∈ split target ++ ns, '/' ∉ m := by
                intro m hm
                rcases List.mem_append.1 hm with hm | hm
                · exact not_mem_split hm
                · exact hns' m hm
              split at hr
              · exact hk _ [] _ htarget (real_nil t) hr
              · exact hk _ _ _ htarget h hr
            · rename_i node hlink hnode
              have hreal : Real t ((n, i) :: place) := by
                refine ⟨h, hn, ⟨entries, hdir, hget⟩, node, hnode, ?_⟩
                rintro target rfl
                exact hlink target rfl
              exact ih hns' hreal hr
    · cases hr

theorem real_walk {links : ℕ} {ns : List Name} (hns : ∀ n ∈ ns, '/' ∉ n) {place r : Place ι} (h : Real t place)
    (hr : t.walk true links ns place = .ok r) : Real t r := by
  induction links generalizing ns place r with
  | zero =>
    refine real_steps ?_ hns h hr
    intro ns place r _ _ hr
    cases hr
  | succ links ih => exact real_steps (fun _ _ _ hns h hr => ih hns h hr) hns h hr

theorem real_realPlace {p : Path} {r : Place ι} (h : t.realPlace p = .ok r) : Real t r :=
  real_walk (fun n hn => (proper_names p n hn).noSlash) (real_nil t) h

end FileTree

end LlmGateway.Lib
