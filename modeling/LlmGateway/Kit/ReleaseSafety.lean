import LlmGateway.Kit.Release
import LlmGateway.Kit.ContextSafety
import LlmGateway.Lib.Table

/-!
# What the digest of a release tells

* `filesOf`, `mem_filesOf` — the files below a directory are those that names lead to;
* `feed_eq_iff` — records that feed the hash alike are the same ones, or a content of the one goes on where the other one has its
  next files (`Spliced`);
* `release_digest_iff` — the digest identifies the files of two trees, if and only if neither is spliced from the other one.
-/

namespace LlmGateway.Kit.Release

open Lib Lib.Utf16 Context

/-! ## The files below a directory -/

mutual

def filesOf (candidate : List Name) : Entry → List (List Name × Bytes)
  | .file bytes => [(candidate, bytes)]
  | .dir es => filesBelow candidate es
  | _ => []

def filesBelow (directory : List Name) : List (Name × Entry) → List (List Name × Bytes)
  | [] => []
  | (n, e) :: es => filesOf (directory ++ [n]) e ++ filesBelow directory es

end

mutual

theorem files_of_visitEntry (candidate : List Name) (l : Listing) : ∀ e l', visitEntry candidate l e = .ok l' →
    l'.files = l.files ++ (filesOf candidate e).map fun f => relative f.1
  | .link, l', h => by cases h
  | .special, l', h => by cases h
  | .dir es, l', h => by
    rw [visitEntry] at h
    rw [filesOf]
    exact files_of_visit candidate l es l' h
  | .file bytes, l', h => by
    rw [visitEntry] at h
    split_ifs at h
    · cases h
    · cases h
    · cases h
    · cases h
      rfl

theorem files_of_visit (directory : List Name) (l : Listing) : ∀ es l', visit directory l es = .ok l' →
    l'.files = l.files ++ (filesBelow directory es).map fun f => relative f.1
  | [], l', h => by
    cases h
    rw [filesBelow, List.map_nil, List.append_nil]
  | (n, e) :: es, l', h => by
    rw [visit] at h
    split_ifs at h
    · cases h
    · obtain ⟨m, hm, h⟩ := ok_of_bind h
      rw [files_of_visit directory m es l' h, files_of_visitEntry (directory ++ [n]) l e m hm, filesBelow, List.map_append,
        List.append_assoc]

end

mutual

/-- The files below are those that names lead to. -/
theorem mem_filesOf (candidate : List Name) : ∀ e, Sound e → ∀ f,
    f ∈ filesOf candidate e ↔ ∃ ms, f.1 = candidate ++ ms ∧ contentAt ms e = some f.2
  | .link, _, f => by simp [filesOf, contentAt]
  | .special, _, f => by simp [filesOf, contentAt]
  | .file bytes, _, f => by
    rw [filesOf, List.mem_singleton]
    constructor
    · rintro rfl
      exact ⟨[], (List.append_nil _).symm, rfl⟩
    · rintro ⟨ms, hf, hms⟩
      cases ms with
      | nil =>
        rw [contentAt] at hms
        rw [List.append_nil] at hf
        exact Prod.ext hf (Option.some.inj hms).symm
      | cons m ms => cases hms
  | .dir es, h, f => by
    rw [filesOf, mem_filesBelow candidate es h.2 f]
    constructor
    · rintro ⟨n, e, ms, he, hf, hms⟩
      refine ⟨n :: ms, hf, ?_⟩
      have hfind : (es.find? fun e => e.1 == n) = some (n, e) := find_of_nodup h.1 he
      rw [contentAt, hfind]
      exact hms
    · rintro ⟨ms, hf, hms⟩
      cases ms with
      | nil => cases hms
      | cons n ms =>
        rw [contentAt] at hms
        obtain ⟨⟨n', e⟩, hfind, hcontent⟩ := Option.bind_eq_some_iff.1 hms
        have hn : n' = n := by simpa using List.find?_some hfind
        subst hn
        exact ⟨n', e, ms, List.mem_of_find?_eq_some hfind, hf, hcontent⟩

theorem mem_filesBelow (directory : List Name) : ∀ es, SoundEntries es → ∀ f, f ∈ filesBelow directory es ↔
    ∃ n e ms, (n, e) ∈ es ∧ f.1 = directory ++ n :: ms ∧ contentAt ms e = some f.2
  | [], _, f => by simp [filesBelow]
  | (n, e) :: es, h, f => by
    rw [filesBelow, List.mem_append, mem_filesOf (directory ++ [n]) e h.2.1 f, mem_filesBelow directory es h.2.2 f]
    constructor
    · rintro (⟨ms, hf, hms⟩ | ⟨n', e', ms, he, hf, hms⟩)
      · exact ⟨n, e, ms, List.mem_cons_self, by rw [hf, List.append_assoc]; rfl, hms⟩
      · exact ⟨n', e', ms, List.mem_cons_of_mem _ he, hf, hms⟩
    · rintro ⟨n', e', ms, he, hf, hms⟩
      rcases List.mem_cons.1 he with heq | he
      · cases heq
        exact .inl ⟨ms, by rw [hf, List.append_assoc]; rfl, hms⟩
      · exact .inr ⟨n', e', ms, he, hf, hms⟩

end

/-- The way to a file below begins with the directory and a name of it. -/
theorem way_of_mem (directory : List Name) {es : List (Name × Entry)} (h : SoundEntries es) {ns : List Name}
    (hns : ns ∈ (filesBelow directory es).map Prod.fst) : ∃ n ∈ es.map Prod.fst, ∃ ms, ns = directory ++ n :: ms := by
  obtain ⟨f, hf, rfl⟩ := List.mem_map.1 hns
  obtain ⟨n, e, ms, he, hf, -⟩ := (mem_filesBelow directory es h f).1 hf
  exact ⟨n, List.mem_map_of_mem he, ms, hf⟩

mutual

theorem nodup_filesOf (candidate : List Name) : ∀ e, Sound e → ((filesOf candidate e).map Prod.fst).Nodup
  | .link, _ => List.nodup_nil
  | .special, _ => List.nodup_nil
  | .file bytes, _ => List.nodup_singleton _
  | .dir es, h => by
    rw [filesOf]
    exact nodup_filesBelow candidate es h.1 h.2

theorem nodup_filesBelow (directory : List Name) : ∀ es, (es.map Prod.fst).Nodup → SoundEntries es →
    ((filesBelow directory es).map Prod.fst).Nodup
  | [], _, _ => List.nodup_nil
  | (n, e) :: es, hnames, h => by
    rw [List.map_cons, List.nodup_cons] at hnames
    rw [filesBelow, List.map_append, List.nodup_append]
    refine ⟨nodup_filesOf (directory ++ [n]) e h.2.1, nodup_filesBelow directory es hnames.2 h.2.2, ?_⟩
    rintro ns hns ns' hns' rfl
    obtain ⟨f, hf, rfl⟩ := List.mem_map.1 hns
    obtain ⟨ms, hms, -⟩ := (mem_filesOf (directory ++ [n]) e h.2.1 f).1 hf
    obtain ⟨n', hn', ms', hms'⟩ := way_of_mem directory h.2.2 hns'
    rw [hms, List.append_assoc] at hms'
    have hnames' := List.append_cancel_left hms'
    rw [List.singleton_append, List.cons.injEq] at hnames'
    exact hnames.1 (hnames'.1 ▸ hn')

end

/-! ## Paths -/

theorem relative_injective {ms ns : List Name} (hms : ∀ n ∈ ms, Legal n) (hns : ∀ n ∈ ns, Legal n) (hne : ms ≠ [])
    (hne' : ns ≠ []) (h : relative ms = relative ns) : ms = ns := by
  rw [← List.splitOn_intercalate 47 (fun n hn => (hms n hn).slash) hne,
    ← List.splitOn_intercalate 47 (fun n hn => (hns n hn).slash) hne']
  exact congrArg (List.splitOn 47) h

theorem splitOn_relative {ns : List Name} (h : ∀ n ∈ ns, Legal n) (hne : ns ≠ []) : (relative ns).splitOn 47 = ns :=
  List.splitOn_intercalate 47 (fun n hn => (h n hn).slash) hne

theorem relative_cons (n : Name) (ns : List Name) : relative (n :: ns) = if ns = [] then n else n ++ 47 :: relative ns := by
  cases ns with
  | nil => simp [relative]
  | cons m ns => simp [relative, List.intercalate_cons_cons]

theorem wellFormed_relative {ns : List Name} (h : ∀ n ∈ ns, Legal n) : WellFormed (relative ns) := by
  induction ns with
  | nil => exact rfl
  | cons n ns ih =>
    rw [relative_cons]
    split_ifs
    · exact (h n List.mem_cons_self).wellFormed
    · refine (h n List.mem_cons_self).wellFormed.append ?_
      exact WellFormed.append (s := [47]) rfl (ih fun m hm => h m (List.mem_cons_of_mem n hm))

theorem nul_notMem_relative {ns : List Name} (h : ∀ n ∈ ns, Legal n) : 0 ∉ relative ns := by
  induction ns with
  | nil => exact List.not_mem_nil
  | cons n ns ih =>
    have hn := (h n List.mem_cons_self).nul
    have hrest := ih fun m hm => h m (List.mem_cons_of_mem n hm)
    rw [relative_cons]
    split_ifs
    · exact hn
    · simp [hn, hrest]

mutual

/-- The names that lead to a file are legal. -/
theorem legal_of_contentAt : ∀ e, Sound e → ∀ ns b, contentAt ns e = some b → ∀ n ∈ ns, Legal n
  | .link, _, ns, b, hb => by simp [contentAt] at hb
  | .special, _, ns, b, hb => by simp [contentAt] at hb
  | .file bytes, _, [], b, hb => by simp
  | .file bytes, _, n :: ns, b, hb => by simp [contentAt] at hb
  | .dir es, _, [], b, hb => by simp [contentAt] at hb
  | .dir es, h, m :: ns, b, hb => by
    rw [contentAt] at hb
    obtain ⟨⟨m', e⟩, hfind, hcontent⟩ := Option.bind_eq_some_iff.1 hb
    have hm : m' = m := by simpa using List.find?_some hfind
    subst hm
    obtain ⟨hlegal, hrest⟩ := legal_of_mem es h.2 (List.mem_of_find?_eq_some hfind)
    intro n hn
    rcases List.mem_cons.1 hn with rfl | hn
    · exact hlegal
    · exact hrest ns b hcontent n hn

theorem legal_of_mem : ∀ es, SoundEntries es → ∀ {n : Name} {e : Entry}, (n, e) ∈ es →
    Legal n ∧ ∀ ns b, contentAt ns e = some b → ∀ m ∈ ns, Legal m
  | [], _, n, e, he => by cases he
  | (n', e') :: es, h, n, e, he => by
    rcases List.mem_cons.1 he with heq | he
    · obtain ⟨rfl, rfl⟩ := Prod.mk.inj heq
      exact ⟨h.1, legal_of_contentAt e h.2.1⟩
    · exact legal_of_mem es h.2.2 he

end

/-! ## Records -/

theorem legal_manifest : Legal (text "manifest.json") where
  wellFormed := by decide
  nonempty := by decide
  notDot := by decide
  notDotdot := by decide
  slash := by decide
  nul := by decide

/-- The same files with the same bytes, a manifest at the root apart. -/
def SameFiles (s t : Entry) : Prop := ∀ ns, ns ≠ [text "manifest.json"] → contentAt ns s = contentAt ns t

section
variable {t : ReleaseTree} {files : List Text}

theorem list_cases (h : listVerifiedReleaseFiles t.root = .ok files) :
    files = sortPaths ((filesOf [] t.root).map fun f => relative f.1) ∧ contentAt [] t.root = none := by
  obtain ⟨root, hsound⟩ := t
  cases root with
  | dir es =>
    obtain ⟨l, hl, h⟩ := ok_of_bind h
    cases h
    have hfiles := files_of_visit [] ⟨[], 0⟩ es l hl
    rw [List.nil_append] at hfiles
    exact ⟨by rw [hfiles, filesOf], rfl⟩
  | _ => cases h

/-- The paths that are listed are those that lead to files. -/
theorem mem_list (h : listVerifiedReleaseFiles t.root = .ok files) {p : Text} :
    p ∈ files ↔ ∃ ns b, p = relative ns ∧ contentAt ns t.root = some b := by
  rw [(list_cases h).1, sortPaths, List.mem_mergeSort, List.mem_map]
  constructor
  · rintro ⟨f, hf, rfl⟩
    obtain ⟨ms, hms, hb⟩ := (mem_filesOf [] t.root t.sound f).1 hf
    exact ⟨ms, f.2, by rw [hms, List.nil_append], hb⟩
  · rintro ⟨ns, b, rfl, hb⟩
    exact ⟨(ns, b), (mem_filesOf [] t.root t.sound _).2 ⟨ns, (List.nil_append ns).symm, hb⟩, rfl⟩

theorem ne_nil_of_contentAt (h : listVerifiedReleaseFiles t.root = .ok files) {ns : List Name} {b : Bytes}
    (hb : contentAt ns t.root = some b) : ns ≠ [] := by
  rintro rfl
  rw [(list_cases h).2] at hb
  cases hb

theorem readFileSync_relative (h : listVerifiedReleaseFiles t.root = .ok files) {ns : List Name} {b : Bytes}
    (hb : contentAt ns t.root = some b) : readFileSync t.root (relative ns) = b := by
  have hlegal := legal_of_contentAt t.root t.sound ns b hb
  rw [readFileSync, splitOn_relative hlegal (ne_nil_of_contentAt h hb), hb, Option.getD_some]

theorem mem_records (h : listVerifiedReleaseFiles t.root = .ok files) {r : Text × Bytes} :
    r ∈ records t.root files ↔ ∃ ns, ns ≠ [text "manifest.json"] ∧ r.1 = relative ns ∧ contentAt ns t.root = some r.2 := by
  have hmanifest {ns : List Name} {b : Bytes} (hb : contentAt ns t.root = some b) :
      relative ns = text "manifest.json" ↔ ns = [text "manifest.json"] := by
    constructor
    · intro hns
      refine relative_injective (legal_of_contentAt t.root t.sound ns b hb) ?_ (ne_nil_of_contentAt h hb)
        (List.cons_ne_nil _ _) (hns.trans (by simp [relative]))
      rintro n hn
      rw [List.mem_singleton.1 hn]
      exact legal_manifest
    · rintro rfl
      simp [relative]
  obtain ⟨p, bytes⟩ := r
  simp only [records, List.mem_map, List.mem_filter, bne_iff_ne, Prod.mk.injEq]
  constructor
  · rintro ⟨q, ⟨hq, hne⟩, rfl, rfl⟩
    obtain ⟨ns, b, rfl, hb⟩ := (mem_list h).1 hq
    exact ⟨ns, fun hns => hne ((hmanifest hb).2 hns), rfl, by rw [readFileSync_relative h hb, hb]⟩
  · rintro ⟨ns, hne, rfl, hb⟩
    exact ⟨relative ns, ⟨(mem_list h).2 ⟨ns, bytes, rfl, hb⟩, fun hns => hne ((hmanifest hb).1 hns)⟩, rfl,
      readFileSync_relative h hb⟩

theorem nodup_list (h : listVerifiedReleaseFiles t.root = .ok files) : files.Nodup := by
  have hperm : files.Perm ((filesOf [] t.root).map fun f => relative f.1) := by
    rw [(list_cases h).1]
    exact List.mergeSort_perm _ _
  have hnodup : ((filesOf [] t.root).map fun f => relative f.1).Nodup := by
    have hnames := nodup_filesOf [] t.root t.sound
    rw [show (fun f : List Name × Bytes => relative f.1) = relative ∘ Prod.fst from rfl, ← List.map_map]
    refine List.Nodup.map_on ?_ hnames
    intro ns hns ns' hns' heq
    obtain ⟨f, hf, rfl⟩ := List.mem_map.1 hns
    obtain ⟨f', hf', rfl⟩ := List.mem_map.1 hns'
    obtain ⟨ms, hms, hb⟩ := (mem_filesOf [] t.root t.sound f).1 hf
    obtain ⟨ms', hms', hb'⟩ := (mem_filesOf [] t.root t.sound f').1 hf'
    rw [hms, hms'] at heq ⊢
    exact relative_injective (legal_of_contentAt t.root t.sound ms _ hb) (legal_of_contentAt t.root t.sound ms' _ hb')
      (ne_nil_of_contentAt h hb) (ne_nil_of_contentAt h hb') heq
  exact hperm.nodup_iff.2 hnodup

theorem sorted_list (h : listVerifiedReleaseFiles t.root = .ok files) : files.Pairwise (· ≤ ·) := by
  rw [(list_cases h).1]
  refine (List.pairwise_mergeSort (fun a b c hab hbc => ?_) (fun a b => ?_) _).imp fun hle => of_decide_eq_true hle
  · exact decide_eq_true (List.le_trans (of_decide_eq_true hab) (of_decide_eq_true hbc))
  · simpa using List.le_total a b

/-- The paths of the records of a release. -/
theorem paths_records (files : List Text) (root : Entry) :
    (records root files).map Prod.fst = files.filter fun p => p != text "manifest.json" := by
  rw [records, List.map_map]
  exact List.map_id _

theorem eq_of_path {r r' : Text × Bytes} (hr : r ∈ records t.root files) (hr' : r' ∈ records t.root files) (h : r.1 = r'.1) :
    r = r' := by
  obtain ⟨p, -, rfl⟩ := List.mem_map.1 hr
  obtain ⟨p', -, rfl⟩ := List.mem_map.1 hr'
  obtain rfl : p = p' := h
  rfl

end

/-- **Trees of the same files have the same records.** -/
theorem records_eq_iff {s t : ReleaseTree} {files files' : List Text} (hs : listVerifiedReleaseFiles s.root = .ok files)
    (ht : listVerifiedReleaseFiles t.root = .ok files') :
    records s.root files = records t.root files' ↔ SameFiles s.root t.root := by
  constructor
  · intro heq ns hne
    have hway {s t : ReleaseTree} {files files' : List Text} (hs : listVerifiedReleaseFiles s.root = .ok files)
        (ht : listVerifiedReleaseFiles t.root = .ok files') (heq : records s.root files = records t.root files') {b : Bytes}
        (hb : contentAt ns s.root = some b) : contentAt ns t.root = some b := by
      have hmem := (mem_records hs (r := (relative ns, b))).2 ⟨ns, hne, rfl, hb⟩
      rw [heq, mem_records ht] at hmem
      obtain ⟨ms, -, hms, hb'⟩ := hmem
      have hnames := relative_injective (legal_of_contentAt s.root s.sound ns b hb) (legal_of_contentAt t.root t.sound ms b hb')
        (ne_nil_of_contentAt hs hb) (ne_nil_of_contentAt ht hb') hms
      rw [hnames, hb']
    cases hb : contentAt ns s.root with
    | some b => exact (hway hs ht heq hb).symm
    | none =>
      cases hb' : contentAt ns t.root with
      | none => rfl
      | some b =>
        rw [hway ht hs heq.symm hb'] at hb
        cases hb
  · intro hsame
    have hmem (r : Text × Bytes) : r ∈ records s.root files ↔ r ∈ records t.root files' := by
      rw [mem_records hs, mem_records ht]
      constructor
      · rintro ⟨ns, hne, hp, hb⟩
        exact ⟨ns, hne, hp, hsame ns hne ▸ hb⟩
      · rintro ⟨ns, hne, hp, hb⟩
        exact ⟨ns, hne, hp, (hsame ns hne).symm ▸ hb⟩
    have hnodup {t : ReleaseTree} {files : List Text} (h : listVerifiedReleaseFiles t.root = .ok files) :
        (records t.root files).Nodup := by
      apply List.Nodup.of_map Prod.fst
      rw [paths_records]
      exact (nodup_list h).filter _
    have hsorted {t : ReleaseTree} {files : List Text} (h : listVerifiedReleaseFiles t.root = .ok files) :
        (records t.root files).Pairwise fun r r' => r.1 ≤ r'.1 := by
      rw [← List.pairwise_map, paths_records]
      exact (sorted_list h).filter _
    refine List.Perm.eq_of_pairwise (fun r r' hr hr' hle hle' => ?_) (hsorted hs) (hsorted ht)
      ((List.perm_ext_iff_of_nodup (hnodup hs) (hnodup ht)).2 hmem)
    exact eq_of_path hr ((hmem r').2 hr') (List.le_antisymm hle hle')

/-! ## What the hash is fed -/

/-- Behind the same files, a content of `rs'` goes on, behind a zero, where `rs` has its next files: the content of `rs'` and its
next files are written like those of `rs`. -/
def Spliced (rs rs' : List (Text × Bytes)) : Prop :=
  ∃ front p bytes rest more rest', rs = front ++ (p, bytes) :: rest ∧ rs' = front ++ (p, bytes ++ 0 :: more) :: rest' ∧
    feed rest = more ++ 0 :: feed rest'

def EitherSpliced (rs rs' : List (Text × Bytes)) : Prop := Spliced rs rs' ∨ Spliced rs' rs

theorem Spliced.cons {rs rs' : List (Text × Bytes)} (h : Spliced rs rs') (r : Text × Bytes) :
    Spliced (r :: rs) (r :: rs') := by
  obtain ⟨front, p, bytes, rest, more, rest', rfl, rfl, hfeed⟩ := h
  exact ⟨r :: front, p, bytes, rest, more, rest', rfl, rfl, hfeed⟩

theorem feed_cons (p : Text) (bytes : Bytes) (rest : List (Text × Bytes)) :
    feed ((p, bytes) :: rest) = Utf8.encode p ++ 0 :: (bytes ++ 0 :: feed rest) := by
  simp [feed]

theorem feed_append (rs rs' : List (Text × Bytes)) : feed (rs ++ rs') = feed rs ++ feed rs' := by
  simp [feed]

theorem feed_of_spliced {rs rs' : List (Text × Bytes)} (h : Spliced rs rs') : feed rs = feed rs' ∧ rs ≠ rs' := by
  obtain ⟨front, p, bytes, rest, more, rest', rfl, rfl, hfeed⟩ := h
  constructor
  · rw [feed_append, feed_append, feed_cons, feed_cons, hfeed]
    simp only [List.append_assoc, List.cons_append]
  · intro heq
    have hrecord := (List.cons.inj (List.append_cancel_left heq)).1
    have hlength := congrArg (fun r : Text × Bytes => r.2.length) hrecord
    simp only [List.length_append, List.length_cons] at hlength
    omega

/-- A text without zeros in front of a zero. -/
theorem append_zero_inj {a b s t : Bytes} (ha : 0 ∉ a) (hb : 0 ∉ b) (h : a ++ 0 :: s = b ++ 0 :: t) : a = b ∧ s = t := by
  rcases List.append_eq_append_iff.1 h with ⟨u, rfl, hu⟩ | ⟨u, rfl, hu⟩
  · cases u with
    | nil => exact ⟨(List.append_nil a).symm, (List.cons.inj hu).2⟩
    | cons x u =>
      obtain rfl := (List.cons.inj hu).1
      exact absurd (List.mem_append_right a List.mem_cons_self) hb
  · cases u with
    | nil => exact ⟨List.append_nil b, (List.cons.inj hu).2.symm⟩
    | cons x u =>
      obtain rfl := (List.cons.inj hu).1
      exact absurd (List.mem_append_right b List.mem_cons_self) ha

/-- Paths as directories have them. -/
def Pathlike (rs : List (Text × Bytes)) : Prop := ∀ r ∈ rs, WellFormed r.1 ∧ 0 ∉ r.1

/-- **Records that feed the hash alike.** -/
theorem feed_eq_iff {rs rs' : List (Text × Bytes)} (h : Pathlike rs) (h' : Pathlike rs') :
    feed rs = feed rs' ↔ rs = rs' ∨ EitherSpliced rs rs' := by
  constructor
  swap
  · rintro (rfl | hspliced | hspliced)
    · rfl
    · exact (feed_of_spliced hspliced).1
    · exact (feed_of_spliced hspliced).1.symm
  intro heq
  induction rs generalizing rs' with
  | nil =>
    cases rs' with
    | nil => exact .inl rfl
    | cons r rs' =>
      rw [feed_cons] at heq
      exact absurd (heq ▸ List.mem_append_right _ List.mem_cons_self : (0 : UInt8) ∈ feed []) (by simp [feed])
  | cons r rs ih =>
    cases rs' with
    | nil =>
      rw [feed_cons] at heq
      exact absurd (heq.symm ▸ List.mem_append_right _ List.mem_cons_self : (0 : UInt8) ∈ feed []) (by simp [feed])
    | cons r' rs' =>
      obtain ⟨p, bytes⟩ := r
      obtain ⟨p', bytes'⟩ := r'
      rw [feed_cons, feed_cons] at heq
      obtain ⟨hp, hnul⟩ := h _ List.mem_cons_self
      obtain ⟨hp', hnul'⟩ := h' _ List.mem_cons_self
      obtain ⟨hpath, hbytes⟩ := append_zero_inj (Utf8.zero_notMem_encode hnul) (Utf8.zero_notMem_encode hnul') heq
      have hsame : p = p' := Utf8.encode_injective hp hp' hpath
      subst hsame
      have hcons {r : Text × Bytes} (hfeed : feed rs = feed rs') : r :: rs = r :: rs' ∨ EitherSpliced (r :: rs) (r :: rs') := by
        rcases ih (fun r hr => h r (List.mem_cons_of_mem _ hr)) (fun r hr => h' r (List.mem_cons_of_mem _ hr)) hfeed with
          rfl | hspliced | hspliced
        · exact .inl rfl
        · exact .inr (.inl (hspliced.cons _))
        · exact .inr (.inr (hspliced.cons _))
      rcases List.append_eq_append_iff.1 hbytes with ⟨u, rfl, hu⟩ | ⟨u, rfl, hu⟩
      · cases u with
        | nil =>
          rw [List.append_nil]
          exact hcons (List.cons.inj hu).2
        | cons x more =>
          obtain ⟨rfl, hmore⟩ := List.cons.inj hu
          exact .inr (.inl ⟨[], p, bytes, rs, more, rs', rfl, rfl, hmore⟩)
      · cases u with
        | nil =>
          rw [List.append_nil]
          exact hcons (List.cons.inj hu).2.symm
        | cons x more =>
          obtain ⟨rfl, hmore⟩ := List.cons.inj hu
          exact .inr (.inr ⟨[], p, bytes', rs', more, rs, rfl, rfl, hmore⟩)

/-- Only a content with a zero is spliced. -/
theorem zero_of_spliced {rs rs' : List (Text × Bytes)} (h : Spliced rs rs') : ∃ r ∈ rs', 0 ∈ r.2 := by
  obtain ⟨front, p, bytes, rest, more, rest', -, rfl, -⟩ := h
  exact ⟨(p, bytes ++ 0 :: more), by simp, by simp⟩

/-! ## Releases -/

section
variable {sha256 : Bytes → Text} {asString : Option JsValue → Option Text}

/-- The release is read from the directory, by its identifier or as the current one. -/
def Accepted (sha256 : Bytes → Text) (asString : Option JsValue → Option Text) (release : PersonalConfigRelease) (root : Entry) :
    Prop :=
  getReleaseById sha256 asString release.id (some root) = some release ∨
    ∃ pointer state rootAt, getCurrentPersonalConfigRelease sha256 asString pointer state rootAt = some release ∧
      rootAt release.id = some root

theorem acceptManifest_cases {releaseId : Text} {root : Entry} {manifest : JsValue} {release : PersonalConfigRelease}
    (h : acceptManifest sha256 asString releaseId root manifest = some release) :
    release.id = releaseId ∧ computeReleaseTreeDigest sha256 root = .ok release.treeDigest := by
  unfold acceptManifest at h
  split at h
  · split at h
    · split_ifs at h
      split at h
      · rename_i d hd
        split_ifs at h with heq
        obtain ⟨createdAt, -, rfl⟩ := Option.map_eq_some_iff.1 h
        exact ⟨rfl, heq ▸ hd⟩
      · cases h
    · cases h
  · cases h

theorem getReleaseById_cases {releaseId : Text} {root : Option Entry} {release : PersonalConfigRelease}
    (h : getReleaseById sha256 asString releaseId root = some release) :
    release.id = releaseId ∧ ∃ e, root = some e ∧ computeReleaseTreeDigest sha256 e = .ok release.treeDigest := by
  unfold getReleaseById at h
  split_ifs at h
  obtain ⟨e, he, h⟩ := Option.bind_eq_some_iff.1 h
  obtain ⟨bytes, -, h⟩ := Option.bind_eq_some_iff.1 h
  obtain ⟨manifest, -, h⟩ := Option.bind_eq_some_iff.1 h
  obtain ⟨hid, hdigest⟩ := acceptManifest_cases h
  exact ⟨hid, e, he, hdigest⟩

/-- A release that is accepted has the digest of its manifest. -/
theorem digest_of_accepted {release : PersonalConfigRelease} {root : Entry} (h : Accepted sha256 asString release root) :
    computeReleaseTreeDigest sha256 root = .ok release.treeDigest := by
  rcases h with h | ⟨pointer, state, rootAt, h, hroot⟩
  · obtain ⟨-, e, he, hdigest⟩ := getReleaseById_cases h
    exact Option.some.inj he ▸ hdigest
  · obtain ⟨releaseId, -, h⟩ := Option.bind_eq_some_iff.1 h
    obtain ⟨hid, e, he, hdigest⟩ := getReleaseById_cases h
    rw [hid, he] at hroot
    exact Option.some.inj hroot ▸ hdigest

/-- A release that is made has the digest of what was staged. -/
theorem digest_of_created {L : LowerCase} {now commit : Text} {existing : Option Entry} {root : Entry}
    {release : PersonalConfigRelease} (h : createRelease sha256 asString L now commit existing (.ok root) = .ok release)
    (hnew : getReleaseById sha256 asString commit existing = none) :
    computeReleaseTreeDigest sha256 root = .ok release.treeDigest := by
  unfold createRelease at h
  rw [hnew] at h
  split_ifs at h
  · obtain ⟨e, he, h⟩ := ok_of_bind h
    obtain rfl := Except.ok.inj he
    obtain ⟨-, -, h⟩ := ok_of_bind h
    obtain ⟨d, hd, h⟩ := ok_of_bind h
    cases h
    exact hd
  · cases h

theorem pathlike_records {t : ReleaseTree} {files : List Text} (h : listVerifiedReleaseFiles t.root = .ok files) :
    Pathlike (records t.root files) := by
  intro r hr
  obtain ⟨ns, -, hp, hb⟩ := (mem_records h).1 hr
  have hlegal := legal_of_contentAt t.root t.sound ns _ hb
  rw [hp]
  exact ⟨wellFormed_relative hlegal, nul_notMem_relative hlegal⟩

theorem compute_of_list {root : Entry} {files : List Text} (h : listVerifiedReleaseFiles root = .ok files) :
    computeReleaseTreeDigest sha256 root = .ok (sha256 (feed (records root files))) := by
  rw [computeReleaseTreeDigest, h]
  rfl

theorem digest_eq_iff (hsha : Function.Injective sha256) {s t : ReleaseTree} {files files' : List Text}
    (hs : listVerifiedReleaseFiles s.root = .ok files) (ht : listVerifiedReleaseFiles t.root = .ok files') :
    computeReleaseTreeDigest sha256 s.root = computeReleaseTreeDigest sha256 t.root ↔
      SameFiles s.root t.root ∨ EitherSpliced (records s.root files) (records t.root files') := by
  rw [compute_of_list hs, compute_of_list ht, Except.ok.injEq, hsha.eq_iff,
    feed_eq_iff (pathlike_records hs) (pathlike_records ht), records_eq_iff hs ht]

/-- **The digest of a release.**  For trees that are listed it identifies the files, if and only if neither tree is spliced from
the other one; and so it does for a release that was made of the one and is read from the other. -/
theorem release_digest_iff (hsha : Function.Injective sha256) {s t : ReleaseTree} {files files' : List Text}
    (hs : listVerifiedReleaseFiles s.root = .ok files) (ht : listVerifiedReleaseFiles t.root = .ok files') :
    ((computeReleaseTreeDigest sha256 s.root = computeReleaseTreeDigest sha256 t.root ↔ SameFiles s.root t.root) ↔
      ¬EitherSpliced (records s.root files) (records t.root files')) ∧
    ∀ asString L now commit existing release release',
      createRelease sha256 asString L now commit existing (.ok s.root) = .ok release →
      getReleaseById sha256 asString commit existing = none → Accepted sha256 asString release' t.root →
      release'.treeDigest = release.treeDigest →
      (SameFiles s.root t.root ↔ ¬EitherSpliced (records s.root files) (records t.root files')) := by
  have hdifferent : SameFiles s.root t.root → ¬EitherSpliced (records s.root files) (records t.root files') := by
    intro hsame
    have heq := (records_eq_iff hs ht).2 hsame
    rintro (hspliced | hspliced)
    · exact (feed_of_spliced hspliced).2 heq
    · exact (feed_of_spliced hspliced).2 heq.symm
  have hdigest := digest_eq_iff hsha hs ht
  constructor
  · rw [hdigest]
    constructor
    · intro h hspliced
      exact hdifferent (h.1 (.inr hspliced)) hspliced
    · intro hnot
      constructor
      · rintro (hsame | hspliced)
        · exact hsame
        · exact absurd hspliced hnot
      · exact Or.inl
  · intro asString L now commit existing release release' hcreate hnew haccepted htree
    have heq : computeReleaseTreeDigest sha256 s.root = computeReleaseTreeDigest sha256 t.root := by
      rw [digest_of_created hcreate hnew, digest_of_accepted haccepted, htree]
    refine ⟨hdifferent, fun hnot => ?_⟩
    rcases hdigest.1 heq with hsame | hspliced
    · exact hsame
    · exact absurd hspliced hnot

end

/-! ## Two trees -/

theorem legal_letter (u : UInt16) (h : 97 ≤ u) (h' : u ≤ 122) : Legal [u] where
  wellFormed := wellFormed_of_not_surrogate fun v hv => by
    rw [List.mem_singleton.1 hv]
    apply isSurrogate_of_lt
    have := UInt16.le_iff_toNat_le.1 h'
    have hz : (122 : UInt16).toNat = 122 := rfl
    omega
  nonempty := List.cons_ne_nil _ _
  notDot := by
    rintro heq
    have hu : u = 46 := (List.cons.inj heq).1
    subst hu
    exact absurd h (by decide)
  notDotdot := by
    intro heq
    have hlength : (text "..").length = 2 := by decide
    rw [← heq] at hlength
    cases hlength
  slash := by
    rw [List.mem_singleton]
    rintro rfl
    exact absurd h (by decide)
  nul := by
    rw [List.mem_singleton]
    rintro rfl
    exact absurd h (by decide)

/-- A directory with one file. -/
def oneFile (bytes : Bytes) : ReleaseTree where
  root := .dir [([97], .file bytes)]
  sound := ⟨List.nodup_singleton _, legal_letter 97 (by decide) (by decide), trivial, trivial⟩

/-- A directory with two files. -/
def twoFiles : ReleaseTree where
  root := .dir [([97], .file [120]), ([98], .file [121])]
  sound := ⟨by simp, legal_letter 97 (by decide) (by decide), trivial, legal_letter 98 (by decide) (by decide), trivial, trivial⟩

theorem list_oneFile (bytes : Bytes) (h : bytes.length ≤ 8) : listVerifiedReleaseFiles (oneFile bytes).root = .ok [[97]] := by
  have hsource : ¬MAX_CONFIG_SOURCE_BYTES < bytes.length := by
    unfold MAX_CONFIG_SOURCE_BYTES
    omega
  have htree : ¬MAX_RELEASE_TREE_BYTES < 0 + bytes.length := by
    unfold MAX_RELEASE_TREE_BYTES
    omega
  have hvisit : visit [] ⟨[], 0⟩ [([97], .file bytes)] = .ok ⟨[[97]], 0 + bytes.length⟩ := by
    rw [visit, if_neg (by decide), visitEntry, if_neg hsource, if_neg (by decide), if_neg htree]
    rfl
  rw [oneFile, listVerifiedReleaseFiles, hvisit]
  show Except.ok (sortPaths [[97]]) = _
  rw [sortPaths, List.mergeSort_singleton]

/-- A directory with two files, the second of them another one. -/
def otherFiles : ReleaseTree where
  root := .dir [([97], .file [120]), ([98], .file [122])]
  sound := twoFiles.sound

theorem list_two (u v : UInt8) : listVerifiedReleaseFiles (.dir [([97], .file [u]), ([98], .file [v])]) = .ok [[97], [98]] := by
  have hvisit : visit [] ⟨[], 0⟩ [([97], .file [u]), ([98], .file [v])] = .ok ⟨[[97], [98]], 2⟩ := rfl
  rw [listVerifiedReleaseFiles, hvisit]
  show Except.ok (sortPaths [[97], [98]]) = _
  rw [sortPaths, List.mergeSort_of_pairwise]
  decide

/-- The digest tells two trees of two files apart. -/
theorem release_digest_of_letters :
    computeReleaseTreeDigest widen twoFiles.root ≠ computeReleaseTreeDigest widen otherFiles.root := by
  have hs : listVerifiedReleaseFiles twoFiles.root = .ok [[97], [98]] := list_two 120 121
  have ht : listVerifiedReleaseFiles otherFiles.root = .ok [[97], [98]] := list_two 120 122
  intro heq
  have hiff := (release_digest_iff widen_injective hs ht).1.2 ?_
  · have hsame := hiff.1 heq [[98]] (by decide)
    exact absurd hsame (by decide)
  · rintro (hspliced | hspliced)
    · obtain ⟨r, hr, hzero⟩ := zero_of_spliced hspliced
      revert r
      decide
    · obtain ⟨r, hr, hzero⟩ := zero_of_spliced hspliced
      revert r
      decide

/-- A file that holds the other one behind a zero has the digest of the two files. -/
theorem zeros_hide_a_file : (∃ files, listVerifiedReleaseFiles (oneFile [120, 0, 98, 0, 121]).root = .ok files) ∧
    (∃ files, listVerifiedReleaseFiles twoFiles.root = .ok files) ∧
    ¬SameFiles (oneFile [120, 0, 98, 0, 121]).root twoFiles.root ∧
    ∀ sha256, computeReleaseTreeDigest sha256 (oneFile [120, 0, 98, 0, 121]).root =
      computeReleaseTreeDigest sha256 twoFiles.root := by
  have hs := list_oneFile [120, 0, 98, 0, 121] (by decide)
  have ht : listVerifiedReleaseFiles twoFiles.root = .ok [[97], [98]] := list_two 120 121
  refine ⟨⟨_, hs⟩, ⟨_, ht⟩, ?_, fun sha256 => ?_⟩
  · intro hsame
    exact absurd (hsame [[98]] (by decide)) (by decide)
  · rw [compute_of_list hs, compute_of_list ht]
    congr 2

end LlmGateway.Kit.Release
