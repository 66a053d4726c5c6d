import Mathlib.Tactic.Common
import Mathlib.Data.List.DropRight

/-!
# Paths

The functions of `path.posix` on texts.

* `split`, `join` — a text and its components; `collapse` — what is left of components when `.` and `..` are carried out;
* `names`, `render` — the components of an absolute path, and the path that has them;
* `normalize`, `joinPaths`, `resolve`, `dirname`, `relative` — the functions;
* `Proper` — the name of an entry of a directory; `names_render` — a path with such names keeps them.
-/

namespace LlmGateway.Lib.PosixPath

abbrev Path := List Char

abbrev Name := List Char

def split : Path → List Name
  | [] => [[]]
  | c :: p =>
    if c = '/' then [] :: split p
    else
      match split p with
      | [] => [[c]]
      | n :: ns => (c :: n) :: ns

def join : List Name → Path
  | [] => []
  | [n] => n
  | n :: m :: ns => n ++ '/' :: join (m :: ns)

def dot : Name := ['.']

def dotdot : Name := ['.', '.']

/-- The components that are left, in front of them those of the stack; a `..` above the first one is kept where `above` says so. -/
def collapse (above : Bool) : List Name → List Name → List Name
  | stack, [] => stack.reverse
  | stack, n :: ns =>
    if n = [] ∨ n = dot then collapse above stack ns
    else if n = dotdot then
      match stack with
      | [] => collapse above (if above then [dotdot] else []) ns
      | top :: rest => if top = dotdot then collapse above (dotdot :: top :: rest) ns else collapse above rest ns
    else collapse above (n :: stack) ns

def isAbsolute (p : Path) : Bool := p.head? == some '/'

/-- The components of an absolute path. -/
def names (p : Path) : List Name := collapse false [] (split p)

def render (ns : List Name) : Path := '/' :: join ns

def normalize (p : Path) : Path :=
  if p = [] then dot
  else
    match join (collapse (!isAbsolute p) [] (split p)), p.getLast? == some '/' with
    | [], trailing => if isAbsolute p then ['/'] else if trailing then ['.', '/'] else dot
    | q, trailing => (if isAbsolute p then ['/'] else []) ++ q ++ if trailing then ['/'] else []

/-- The function `join` of paths. -/
def joinPaths (ps : List Path) : Path := normalize (join (ps.filter fun p => !p.isEmpty))

/-- `resolve(p)` in a working directory. -/
def resolve (cwd p : Path) : Path := render (names (if isAbsolute p then p else cwd ++ '/' :: p))

def dirname (p : Path) : Path :=
  let q := (p.rdropWhile (· == '/')).rdropWhile (· != '/')
  if q = [] then if isAbsolute p then ['/'] else dot
  else if q = ['/'] ∨ q = ['/', '/'] then q
  else q.dropLast

/-- The number of components that two paths share at their front. -/
def common : List Name → List Name → ℕ
  | m :: ms, n :: ns => if m = n then common ms ns + 1 else 0
  | _, _ => 0

/-- `relative(a, b)` for absolute paths. -/
def relative (a b : Path) : Path :=
  join (List.replicate ((names a).length - common (names a) (names b)) dotdot ++ (names b).drop (common (names a) (names b)))

/-! ## Components -/

theorem split_ne_nil (p : Path) : split p ≠ [] := by
  cases p with
  | nil => simp [split]
  | cons c p =>
    unfold split
    split
    · simp
    · split
      · simp
      · simp

theorem not_mem_split {p : Path} {n : Name} (h : n ∈ split p) : '/' ∉ n := by
  induction p generalizing n with
  | nil =>
    rw [split, List.mem_singleton] at h
    simp [h]
  | cons c p ih =>
    unfold split at h
    split at h
    · rcases List.mem_cons.1 h with rfl | h
      · simp
      · exact ih h
    · rename_i hc
      split at h
      · rename_i hsplit
        exact absurd hsplit (split_ne_nil p)
      · rename_i m ms hsplit
        rcases List.mem_cons.1 h with rfl | h
        · have hm := ih (n := m) (by rw [hsplit]; exact List.mem_cons_self)
          simp only [List.mem_cons, not_or]
          exact ⟨fun hslash => hc hslash.symm, hm⟩
        · exact ih (by rw [hsplit]; exact List.mem_cons_of_mem _ h)

theorem split_append {n : Name} (hn : '/' ∉ n) (p : Path) : split (n ++ '/' :: p) = n :: split p := by
  induction n with
  | nil => simp [split]
  | cons c n ih =>
    simp only [List.mem_cons, not_or] at hn
    rw [List.cons_append, split, if_neg (fun h => hn.1 h.symm), ih hn.2]

theorem split_of_not_mem {n : Name} (hn : '/' ∉ n) : split n = [n] := by
  induction n with
  | nil => rfl
  | cons c n ih =>
    simp only [List.mem_cons, not_or] at hn
    rw [split, if_neg (fun h => hn.1 h.symm), ih hn.2]

theorem split_join {ns : List Name} (hns : ∀ n ∈ ns, '/' ∉ n) (hne : ns ≠ []) : split (join ns) = ns := by
  induction ns with
  | nil => exact absurd rfl hne
  | cons n ns ih =>
    cases ns with
    | nil => exact split_of_not_mem (hns n List.mem_cons_self)
    | cons m ns =>
      rw [join, split_append (hns n List.mem_cons_self), ih (fun k hk => hns k (List.mem_cons_of_mem n hk)) (by simp)]

/-! ## Names of entries -/

theorem join_cons (n : Name) {ns : List Name} (hne : ns ≠ []) : join (n :: ns) = n ++ '/' :: join ns := by
  cases ns with
  | nil => exact absurd rfl hne
  | cons m ns => rfl

theorem join_split (p : Path) : join (split p) = p := by
  induction p with
  | nil => rfl
  | cons c p ih =>
    rw [split]
    split_ifs with hc
    · rw [join_cons _ (split_ne_nil p), ih, hc]
      rfl
    · cases hsplit : split p with
      | nil => exact absurd hsplit (split_ne_nil p)
      | cons n ns =>
        rw [hsplit] at ih
        show join ((c :: n) :: ns) = c :: p
        rw [← ih]
        cases ns <;> rfl

theorem join_append_cons {ms ns : List Name} (hms : ms ≠ []) (hns : ns ≠ []) : join (ms ++ ns) = join ms ++ '/' :: join ns := by
  induction ms with
  | nil => exact absurd rfl hms
  | cons m ms ih =>
    by_cases hnil : ms = []
    · subst hnil
      exact join_cons m hns
    · rw [List.cons_append, join_cons m (by simp [hnil]), join_cons m hnil, ih hnil]
      simp

/-- The name of an entry of a directory. -/
structure Proper (n : Name) : Prop where
  nonempty : n ≠ []
  notDot : n ≠ dot
  notDotdot : n ≠ dotdot
  noSlash : '/' ∉ n

theorem collapse_proper (above : Bool) {stack ns : List Name} (hns : ∀ n ∈ ns, Proper n) :
    collapse above stack ns = stack.reverse ++ ns := by
  induction ns generalizing stack with
  | nil => simp [collapse]
  | cons n ns ih =>
    have hn := hns n List.mem_cons_self
    unfold collapse
    rw [if_neg (by simp [hn.nonempty, hn.notDot]), if_neg hn.notDotdot,
      ih (fun m hm => hns m (List.mem_cons_of_mem n hm))]
    simp

theorem proper_collapse {stack ns : List Name} (hstack : ∀ n ∈ stack, Proper n) (hns : ∀ n ∈ ns, '/' ∉ n) :
    ∀ n ∈ collapse false stack ns, Proper n := by
  induction ns generalizing stack with
  | nil =>
    intro n hn
    exact hstack n (List.mem_reverse.1 hn)
  | cons m ns ih =>
    have hrest : ∀ n ∈ ns, '/' ∉ n := fun n hn => hns n (List.mem_cons_of_mem m hn)
    unfold collapse
    split
    · exact ih hstack hrest
    · rename_i hskip
      split
      · split
        · exact ih (by simp) hrest
        · rename_i top rest
          rw [if_neg (hstack top List.mem_cons_self).notDotdot]
          exact ih (fun n hn => hstack n (List.mem_cons_of_mem top hn)) hrest
      · rename_i hup
        apply ih _ hrest
        intro n hn
        rcases List.mem_cons.1 hn with rfl | hn
        · exact ⟨fun h => hskip (.inl h), fun h => hskip (.inr h), hup, hns n List.mem_cons_self⟩
        · exact hstack n hn

theorem proper_names (p : Path) : ∀ n ∈ names p, Proper n := proper_collapse (by simp) fun _ hn => not_mem_split hn

theorem split_render {ns : List Name} (hns : ∀ n ∈ ns, '/' ∉ n) : split (render ns) = [] :: if ns = [] then [[]] else ns := by
  unfold render
  rw [split, if_pos rfl]
  split
  · rename_i h
    subst h
    rfl
  · rename_i h
    rw [split_join hns h]

theorem names_render {ns : List Name} (hns : ∀ n ∈ ns, Proper n) : names (render ns) = ns := by
  unfold names
  rw [split_render fun n hn => (hns n hn).noSlash]
  unfold collapse
  rw [if_pos (.inl rfl)]
  split
  · rename_i h
    subst h
    rfl
  · rw [collapse_proper false hns]
    rfl

theorem render_injective {ms ns : List Name} (hms : ∀ n ∈ ms, Proper n) (hns : ∀ n ∈ ns, Proper n)
    (h : render ms = render ns) : ms = ns := by
  rw [← names_render hms, h, names_render hns]

theorem resolve_render {cwd : Path} {ns : List Name} (hns : ∀ n ∈ ns, Proper n) : resolve cwd (render ns) = render ns := by
  have habsolute : isAbsolute (render ns) = true := rfl
  unfold resolve
  rw [if_pos habsolute, names_render hns]

theorem split_append_slash (p q : Path) : split (p ++ '/' :: q) = split p ++ split q := by
  induction p with
  | nil => simp [split]
  | cons c p ih =>
    rw [List.cons_append]
    by_cases hc : c = '/'
    · rw [split, if_pos hc, ih, split, if_pos hc]
      rfl
    · conv_lhs => rw [split, if_neg hc, ih]
      conv_rhs => rw [split, if_neg hc]
      cases hsplit : split p with
      | nil => exact absurd hsplit (split_ne_nil p)
      | cons n ns => rfl

theorem collapse_append (above : Bool) {stack ms ns : List Name} (hns : ∀ n ∈ ns, Proper n) :
    collapse above stack (ms ++ ns) = collapse above stack ms ++ ns := by
  induction ms generalizing stack with
  | nil =>
    rw [List.nil_append, collapse_proper above hns]
    unfold collapse
    rfl
  | cons m ms ih =>
    rw [List.cons_append]
    unfold collapse
    split
    · exact ih
    · split
      · split
        · exact ih
        · split
          · exact ih
          · exact ih
      · exact ih

theorem join_append {ms : List Name} (hms : ms ≠ []) (n : Name) : join (ms ++ [n]) = join ms ++ '/' :: n := by
  induction ms with
  | nil => exact absurd rfl hms
  | cons m ms ih =>
    cases ms with
    | nil => rfl
    | cons l ms =>
      rw [List.cons_append, List.cons_append, join, ← List.cons_append, ih (by simp), join]
      simp

theorem render_append (ms : List Name) (n : Name) :
    render (ms ++ [n]) = (if ms = [] then ['/'] else render ms ++ ['/']) ++ n := by
  unfold render
  split
  · rename_i h
    subst h
    rfl
  · rename_i h
    rw [join_append h]
    simp

theorem Proper.getLast {n : Name} (h : Proper n) (p : Path) : ((p ++ '/' :: n).getLast? == some '/') = false := by
  obtain ⟨m, c, rfl⟩ := List.eq_nil_or_concat n |>.resolve_left h.nonempty
  have hc : c ≠ '/' := by
    rintro rfl
    exact h.noSlash (by simp)
  rw [List.concat_eq_append, ← List.cons_append, ← List.append_assoc, List.getLast?_concat]
  simpa using hc

theorem joinPaths_proper {p : Path} {ns : List Name} (hp : isAbsolute p = true) (hns : ∀ n ∈ ns, Proper n) (hne : ns ≠ []) :
    joinPaths (p :: ns) = render (names p ++ ns) := by
  have hp0 : p ≠ [] := by
    rintro rfl
    cases hp
  have hfilter : (p :: ns).filter (fun p => !p.isEmpty) = p :: ns := by
    rw [List.filter_eq_self]
    intro q hq
    rcases List.mem_cons.1 hq with rfl | hq
    · simpa using hp0
    · simpa using (hns q hq).nonempty
  obtain ⟨n, ns', rfl⟩ := List.exists_cons_of_ne_nil hne
  have hjoin : join (p :: n :: ns') = p ++ '/' :: join (n :: ns') := rfl
  have hsplit : split (p ++ '/' :: join (n :: ns')) = split p ++ n :: ns' := by
    rw [split_append_slash, split_join (fun m hm => (hns m hm).noSlash) hne]
  have habsolute : isAbsolute (p ++ '/' :: join (n :: ns')) = true := by
    obtain ⟨c, p', rfl⟩ := List.exists_cons_of_ne_nil hp0
    exact hp
  have hlast : ((p ++ '/' :: join (n :: ns')).getLast? == some '/') = false := by
    obtain ⟨ms, m, hms⟩ := List.eq_nil_or_concat (n :: ns') |>.resolve_left hne
    rw [List.concat_eq_append] at hms
    have hm := hns m (by rw [hms]; simp)
    rw [hms]
    cases ms with
    | nil => exact hm.getLast p
    | cons l ms =>
      rw [join_append (by simp), ← List.cons_append, ← List.append_assoc]
      exact hm.getLast _
  unfold joinPaths
  rw [hfilter, hjoin]
  unfold normalize
  rw [if_neg (by simp), habsolute, hsplit, hlast, Bool.not_true, collapse_append false hns]
  have hnonempty : join (collapse false [] (split p) ++ n :: ns') ≠ [] := by
    intro h
    have hclean : ∀ m ∈ collapse false [] (split p) ++ n :: ns', Proper m := by
      intro m hm
      rcases List.mem_append.1 hm with hm | hm
      · exact proper_names p m hm
      · exact hns m hm
    have := split_join (fun m hm => (hclean m hm).noSlash) (by simp)
    rw [h] at this
    have hmem : [] ∈ collapse false [] (split p) ++ n :: ns' := by
      rw [← this]
      exact List.mem_singleton_self []
    exact (hclean [] hmem).nonempty rfl
  split
  · rename_i h
    exact absurd h hnonempty
  · simp [render, names]

/-! ## Paths below a path -/

theorem common_append (ms ns : List Name) : common ms (ms ++ ns) = ms.length := by
  induction ms with
  | nil => cases ns <;> rfl
  | cons m ms ih => simp [common, ih]

theorem common_le (ms ns : List Name) : common ms ns ≤ ms.length := by
  induction ms generalizing ns with
  | nil => cases ns <;> exact le_rfl
  | cons m ms ih =>
    cases ns with
    | nil => exact Nat.zero_le _
    | cons n ns =>
      unfold common
      split
      · exact Nat.succ_le_succ (ih ns)
      · exact Nat.zero_le _

theorem prefix_of_common {ms ns : List Name} (h : common ms ns = ms.length) : ∃ rest, ns = ms ++ rest := by
  induction ms generalizing ns with
  | nil => exact ⟨ns, rfl⟩
  | cons m ms ih =>
    cases ns with
    | nil => cases h
    | cons n ns =>
      unfold common at h
      split at h
      · rename_i hmn
        obtain ⟨rest, hrest⟩ := ih (Nat.succ.inj h)
        exact ⟨rest, by rw [hrest, hmn]; rfl⟩
      · cases h

/-- Otherwise the way from one path to the other goes up. -/
theorem dotdot_prefix_relative {a b : Path} (h : ¬names a <+: names b) : dotdot <+: relative a b := by
  have hless : common (names a) (names b) < (names a).length := by
    refine lt_of_le_of_ne (common_le _ _) fun heq => h ?_
    obtain ⟨rest, hrest⟩ := prefix_of_common heq
    exact ⟨rest, hrest.symm⟩
  obtain ⟨k, hk⟩ : ∃ k, (names a).length - common (names a) (names b) = k + 1 := Nat.exists_eq_succ_of_ne_zero (by omega)
  rw [relative, hk, List.replicate_succ, List.cons_append]
  cases List.replicate k dotdot ++ (names b).drop (common (names a) (names b)) with
  | nil => exact List.prefix_rfl
  | cons n ns => exact List.prefix_append dotdot _

theorem relative_of_prefix {a b : Path} {rest : List Name} (h : names a ++ rest = names b) : relative a b = join rest := by
  rw [relative, ← h, common_append]
  simp

/-- The text of some names begins with the first of them. -/
theorem dotdot_prefix_join {n : Name} (hn : Proper n) (ns : List Name) : dotdot <+: join (n :: ns) ↔ dotdot <+: n := by
  have hdotdot {c d : Char} {p : Path} : dotdot <+: c :: d :: p ↔ c = '.' ∧ d = '.' := by
    rw [dotdot, List.cons_prefix_cons, List.cons_prefix_cons]
    exact ⟨fun h => ⟨h.1.symm, h.2.1.symm⟩, fun h => ⟨h.1.symm, h.2.symm, List.nil_prefix⟩⟩
  cases ns with
  | nil => rfl
  | cons m ns =>
    rw [join]
    match n, hn with
    | [], hn => exact absurd rfl hn.nonempty
    | [c], hn =>
      rw [List.singleton_append, hdotdot]
      constructor
      · rintro ⟨-, h⟩
        cases h
      · intro h
        have hlength := h.length_le
        simp [dotdot] at hlength
    | c :: d :: n, hn => rw [List.cons_append, List.cons_append, hdotdot, hdotdot]

theorem join_ne_nil {n : Name} (hn : Proper n) (ns : List Name) : join (n :: ns) ≠ [] := by
  cases ns with
  | nil => exact hn.nonempty
  | cons m ns => simp [join]

theorem not_isAbsolute_join {n : Name} (hn : Proper n) (ns : List Name) : isAbsolute (join (n :: ns)) = false := by
  obtain ⟨c, p, rfl⟩ := List.exists_cons_of_ne_nil hn.nonempty
  have hc : c ≠ '/' := by
    rintro rfl
    exact hn.noSlash List.mem_cons_self
  cases ns <;> simp [join, isAbsolute, hc]

end LlmGateway.Lib.PosixPath
