import LlmGateway.Lib.JsString

/-!
# Fenced code blocks

`splitFences` and `mapUnfenced` (transforms/whitespace.ts).

* `fenceOpen`, `closes` — the line that opens a fence, and the one that closes it;
* `scan` — the segments of a text, line by line;
* `scan_mapLines` — such an edit keeps the segments as long as it makes no line that opens a fence.
-/

namespace LlmGateway.Compressor

open LlmGateway.Lib LlmGateway.Lib.Utf16

/-! ### Lines -/

def splitLines (s : Text) : List Text := s.splitOn 10

def joinLines (ls : List Text) : Text := [10].intercalate ls

theorem joinLines_splitLines (s : Text) : joinLines (splitLines s) = s := List.intercalate_splitOn 10

theorem splitLines_joinLines {ls : List Text} (hline : ∀ l ∈ ls, 10 ∉ l) (hne : ls ≠ []) : splitLines (joinLines ls) = ls :=
  List.splitOn_intercalate 10 hline hne

theorem splitLines_ne_nil (s : Text) : splitLines s ≠ [] := List.splitOn_ne_nil 10 s

theorem newline_not_mem {s l : Text} (h : l ∈ splitLines s) : 10 ∉ l := by
  unfold splitLines at h
  induction s generalizing l with
  | nil =>
    rw [List.splitOn_nil, List.mem_singleton] at h
    rw [h]
    exact List.not_mem_nil
  | cons u s ih =>
    rw [List.splitOn_cons_eq_if_modifyHead] at h
    split at h
    · rcases List.mem_cons.1 h with rfl | h
      · exact List.not_mem_nil
      · exact ih h
    · rename_i hu
      obtain ⟨r, rs, hr⟩ := List.exists_cons_of_ne_nil (List.splitOn_ne_nil 10 s)
      rw [hr, List.modifyHead_cons] at h
      rcases List.mem_cons.1 h with rfl | h
      · intro hmem
        rcases List.mem_cons.1 hmem with h10 | hmem
        · exact hu (by simp [← h10])
        · exact ih (hr ▸ List.mem_cons_self) hmem
      · exact ih (hr ▸ List.mem_cons_of_mem _ h)

theorem joinLines_append {as bs : List Text} (ha : as ≠ []) (hb : bs ≠ []) :
    joinLines (as ++ bs) = joinLines as ++ 10 :: joinLines bs := by
  induction as with
  | nil => exact absurd rfl ha
  | cons a as ih =>
    cases as with
    | nil =>
      obtain ⟨b, bs, rfl⟩ := List.exists_cons_of_ne_nil hb
      simp [joinLines, List.intercalate_cons_cons]
    | cons a' as =>
      have := ih (by simp)
      unfold joinLines at this ⊢
      rw [List.cons_append, List.cons_append, List.intercalate_cons_cons, List.intercalate_cons_cons, ← List.cons_append, this]
      simp

/-- A text of several parts of some lines each. -/
theorem joinLines_map_joinLines {parts : List (List Text)} (h : ∀ part ∈ parts, part ≠ []) :
    joinLines (parts.map joinLines) = joinLines parts.flatten := by
  induction parts with
  | nil => rfl
  | cons part parts ih =>
    have hpart := h part List.mem_cons_self
    have ih := ih fun p hp => h p (List.mem_cons_of_mem _ hp)
    cases parts with
    | nil => simp [joinLines]
    | cons next parts =>
      have hnext := h next (by simp)
      have hrest : (next :: parts).flatten ≠ [] := by simp [hnext]
      rw [List.flatten_cons, joinLines_append hpart hrest, ← ih]
      simp [joinLines, List.intercalate_cons_cons]

/-! ### Fences -/

/-- A line without at most `n` spaces at its start. -/
def dropSpaces : ℕ → Text → Text
  | n + 1, 32 :: s => dropSpaces n s
  | _, s => s

/-- `FENCE_OPEN`: the backticks or tildes that open a fence. -/
def fenceOpen (line : Text) : Option Text :=
  match dropSpaces 3 line with
  | u :: s =>
    let marker := (u :: s).takeWhile (· == u)
    if (u = 96 ∨ u = 126) ∧ 3 ≤ marker.length then some marker else none
  | [] => none

/-- Whether a line closes the fence that `fenceMarker` has opened. -/
def closes (fenceMarker line : Text) : Bool :=
  match fenceOpen line with
  | some marker => marker.head? == fenceMarker.head? && fenceMarker.length ≤ marker.length && trim line == marker
  | none => false

/-- A segment, with its lines. -/
structure Segment where
  lines : List Text
  fenced : Bool
deriving DecidableEq

def flush (current : List Text) (fenced : Bool) : List Segment := if current = [] then [] else [⟨current, fenced⟩]

/-- The loop of `splitFences`, with the marker of the fence it is in. -/
def scan : Option Text → List Text → List Text → List Segment
  | fenceMarker, current, [] => flush current fenceMarker.isSome
  | none, current, line :: lines =>
    match fenceOpen line with
    | some marker => flush current false ++ scan (some marker) [line] lines
    | none => scan none (current ++ [line]) lines
  | some fenceMarker, current, line :: lines =>
    if closes fenceMarker line then flush (current ++ [line]) true ++ scan none [] lines
    else scan (some fenceMarker) (current ++ [line]) lines

def segments (lines : List Text) : List Segment := scan none [] lines

structure FenceSegment where
  text : Text
  fenced : Bool
deriving DecidableEq

def splitFences (s : Text) : List FenceSegment := (segments (splitLines s)).map fun seg => ⟨joinLines seg.lines, seg.fenced⟩

def mapUnfenced (s : Text) (op : Text → Text) : Text :=
  joinLines ((splitFences s).map fun seg => if seg.fenced then seg.text else op seg.text)

/-- The lines of a fence after the one that opens it, and the lines behind it. -/
def fencedPart (fenceMarker : Text) : List Text → List Text × List Text
  | [] => ([], [])
  | line :: lines =>
    if closes fenceMarker line then ([line], lines)
    else (line :: (fencedPart fenceMarker lines).1, (fencedPart fenceMarker lines).2)

theorem fencedPart_append (m : Text) (lines : List Text) : (fencedPart m lines).1 ++ (fencedPart m lines).2 = lines := by
  induction lines with
  | nil => rfl
  | cons line lines ih =>
    unfold fencedPart
    split
    · rfl
    · simp [ih]

theorem length_fencedPart (m : Text) (lines : List Text) : (fencedPart m lines).2.length ≤ lines.length := by
  have h := congrArg List.length (fencedPart_append m lines)
  rw [List.length_append] at h
  omega

/-- A fence that is closed ends where it did, whatever follows it; one that is not has nothing behind it. -/
theorem fencedPart_fst_append (m : Text) (lines rest : List Text) (h : (fencedPart m lines).2 = [] → rest = []) :
    fencedPart m ((fencedPart m lines).1 ++ rest) = ((fencedPart m lines).1, rest) := by
  induction lines with
  | nil =>
    obtain rfl := h rfl
    rfl
  | cons line lines ih =>
    by_cases hclose : closes m line
    · simp [fencedPart, hclose]
    · simp only [fencedPart, hclose] at h
      simp [fencedPart, hclose, ih h]

theorem scan_some {m : Text} {current : List Text} (hne : current ≠ []) (lines : List Text) :
    scan (some m) current lines = ⟨current ++ (fencedPart m lines).1, true⟩ :: segments (fencedPart m lines).2 := by
  induction lines generalizing current with
  | nil => simp [scan, fencedPart, flush, hne, segments]
  | cons line lines ih =>
    unfold scan fencedPart
    split
    · simp [flush, segments]
    · rw [ih (by simp)]
      simp

theorem scan_none_append {new : List Text} (hnew : ∀ l ∈ new, fenceOpen l = none) (current lines : List Text) :
    scan none current (new ++ lines) = scan none (current ++ new) lines := by
  induction new generalizing current with
  | nil => simp
  | cons l new ih =>
    rw [List.cons_append, scan, hnew l List.mem_cons_self]
    simp only
    rw [ih fun l hl => hnew l (List.mem_cons_of_mem _ hl)]
    simp

/-- What a segment is: it has lines of the text, and no line of an unfenced one opens a fence. -/
structure Segment.Of (seg : Segment) (lines : List Text) : Prop where
  ne_nil : seg.lines ≠ []
  mem : ∀ l ∈ seg.lines, l ∈ lines
  unopened : seg.fenced = false → ∀ l ∈ seg.lines, fenceOpen l = none

theorem Segment.Of.mono {seg : Segment} {lines lines' : List Text} (h : seg.Of lines) (hsub : ∀ l ∈ lines, l ∈ lines') :
    seg.Of lines' :=
  ⟨h.ne_nil, fun l hl => hsub l (h.mem l hl), h.unopened⟩

theorem mem_flush {current : List Text} {fenced : Bool} {seg : Segment} (h : seg ∈ flush current fenced) :
    current ≠ [] ∧ seg = ⟨current, fenced⟩ := by
  unfold flush at h
  split at h
  · cases h
  · exact ⟨‹_›, List.mem_singleton.1 h⟩

theorem scan_of {current lines : List Text} (hcurrent : ∀ l ∈ current, fenceOpen l = none) :
    ∀ seg ∈ scan none current lines, seg.Of (current ++ lines) := by
  induction hn : lines.length using Nat.strong_induction_on generalizing current lines with
  | _ n ih =>
    intro seg hseg
    cases lines with
    | nil =>
      obtain ⟨hne, rfl⟩ := mem_flush hseg
      exact ⟨hne, by simp, fun _ => hcurrent⟩
    | cons line lines =>
      rw [scan] at hseg
      cases hopen : fenceOpen line with
      | none =>
        rw [hopen] at hseg
        have hcurrent' : ∀ l ∈ current ++ [line], fenceOpen l = none := by
          intro l hl
          rcases List.mem_append.1 hl with hl | hl
          · exact hcurrent l hl
          · rw [List.mem_singleton.1 hl, hopen]
        exact (ih lines.length (by simp [← hn]) hcurrent' rfl seg hseg).mono (by simp)
      | some m =>
        rw [hopen] at hseg
        rcases List.mem_append.1 hseg with hseg | hseg
        · obtain ⟨hne, rfl⟩ := mem_flush hseg
          exact ⟨hne, fun l hl => List.mem_append_left _ hl, fun _ => hcurrent⟩
        · have hpart := fencedPart_append m lines
          rw [scan_some (by simp)] at hseg
          rcases List.mem_cons.1 hseg with rfl | hseg
          · refine ⟨by simp, ?_, nofun⟩
            intro l hl
            rw [← hpart]
            simp only [List.mem_append, List.mem_cons] at hl ⊢
            tauto
          · have hlt : (fencedPart m lines).2.length < n := by
              have := length_fencedPart m lines
              simp only [List.length_cons] at hn
              omega
            refine (@ih _ hlt [] _ nofun rfl seg hseg).mono ?_
            intro l hl
            rw [← hpart]
            simp only [List.mem_append, List.mem_cons, List.nil_append] at hl ⊢
            tauto

theorem scan_flatMap {current lines : List Text} : (scan none current lines).flatMap Segment.lines = current ++ lines := by
  have hflush : ∀ (c : List Text) (b : Bool), (flush c b).flatMap Segment.lines = c := by
    intro c b
    unfold flush
    split
    · simp_all
    · simp
  induction hn : lines.length using Nat.strong_induction_on generalizing current lines with
  | _ n ih =>
    cases lines with
    | nil => simp [scan, hflush]
    | cons line lines =>
      rw [scan]
      cases hopen : fenceOpen line with
      | none =>
        simp only
        rw [ih lines.length (by simp [← hn]) rfl]
        simp
      | some m =>
        have hlt : (fencedPart m lines).2.length < n := by
          have := length_fencedPart m lines
          simp only [List.length_cons] at hn
          omega
        have hrest := @ih _ hlt [] _ rfl
        simp only
        rw [scan_some (by simp), List.flatMap_append, hflush, List.flatMap_cons, segments, hrest]
        simp [fencedPart_append]

/-! ### Edits of the unfenced segments -/

/-- A segment with its lines edited, unless it is fenced. -/
def Segment.edit (g : List Text → List Text) (seg : Segment) : Segment :=
  if seg.fenced then seg else ⟨g seg.lines, false⟩

@[simp] theorem Segment.fenced_edit (g : List Text → List Text) (seg : Segment) : (seg.edit g).fenced = seg.fenced := by
  unfold Segment.edit
  split
  · rfl
  · simp_all

def mapLines (g : List Text → List Text) (lines : List Text) : List Text :=
  (segments lines).flatMap fun seg => (seg.edit g).lines

/-- The edit leaves a segment, and makes no line that opens a fence. -/
def Keeps (g : List Text → List Text) (lines : List Text) : Prop := g lines ≠ [] ∧ ∀ l ∈ g lines, fenceOpen l = none

/-- **Segments are kept** by an edit of the unfenced ones. -/
theorem scan_mapLines {g : List Text → List Text} {current lines : List Text}
    (hg : ∀ seg ∈ scan none current lines, seg.fenced = false → Keeps g seg.lines) :
    segments ((scan none current lines).flatMap fun seg => (seg.edit g).lines) =
      (scan none current lines).map (Segment.edit g) := by
  have hone : ∀ c, c ≠ [] → Keeps g c → ∀ rest, segments (g c ++ rest) = scan none (g c) rest := by
    intro c _ hc rest
    rw [segments, scan_none_append hc.2, List.nil_append]
  induction hn : lines.length using Nat.strong_induction_on generalizing current lines with
  | _ n ih =>
    cases lines with
    | nil =>
      rw [scan, Option.isSome_none] at hg ⊢
      by_cases hc : current = []
      · simp [flush, hc, segments, scan]
      · rw [flush, if_neg hc] at hg ⊢
        have hkeeps := hg _ List.mem_cons_self rfl
        have := hone current hc hkeeps []
        simp only [List.append_nil] at this
        simp [Segment.edit, this, scan, flush, hkeeps.1]
    | cons line lines =>
      rw [scan] at hg ⊢
      cases hopen : fenceOpen line with
      | none =>
        rw [hopen] at hg
        exact ih lines.length (by simp [← hn]) hg rfl
      | some m =>
        rw [hopen] at hg
        have hlt : (fencedPart m lines).2.length < n := by
          have := length_fencedPart m lines
          simp only [List.length_cons] at hn
          omega
        simp only at hg ⊢
        rw [scan_some (by simp)] at hg ⊢
        have hrest := @ih _ hlt [] _ (fun seg hseg => hg seg (by simp [segments, hseg])) rfl
        have hfence : ∀ c, scan none c ((line :: (fencedPart m lines).1) ++
            mapLines g (fencedPart m lines).2) = flush c false ++ ⟨line :: (fencedPart m lines).1, true⟩ ::
              (segments (fencedPart m lines).2).map (Segment.edit g) := by
          intro c
          have hpart : fencedPart m ((fencedPart m lines).1 ++ mapLines g (fencedPart m lines).2) =
              ((fencedPart m lines).1, mapLines g (fencedPart m lines).2) := by
            refine fencedPart_fst_append m lines _ ?_
            intro hnil
            rw [hnil]
            rfl
          rw [List.cons_append, scan, hopen]
          simp only
          rw [scan_some (by simp), hpart]
          exact congrArg (fun r => flush c false ++ ⟨line :: (fencedPart m lines).1, true⟩ :: r) hrest
        by_cases hc : current = []
        · subst hc
          simpa [flush, Segment.edit, mapLines, segments] using hfence []
        · have hkeeps := hg ⟨current, false⟩ (by simp [flush, hc]) rfl
          have hfirst := hone current hc hkeeps ((line :: (fencedPart m lines).1) ++ mapLines g (fencedPart m lines).2)
          rw [hfence] at hfirst
          simpa [flush, hc, hkeeps.1, Segment.edit, mapLines, segments] using hfirst

theorem segments_mapLines {g : List Text → List Text} {lines : List Text}
    (hg : ∀ seg ∈ segments lines, seg.fenced = false → Keeps g seg.lines) :
    segments (mapLines g lines) = (segments lines).map (Segment.edit g) := scan_mapLines hg

theorem segments_of {lines : List Text} : ∀ seg ∈ segments lines, seg.Of lines := @scan_of [] _ nofun

theorem segments_flatMap (lines : List Text) : (segments lines).flatMap Segment.lines = lines := scan_flatMap

/-- An edit of texts that edits their lines, on the whole text. -/
theorem splitLines_mapUnfenced {g : List Text → List Text} {s : Text}
    (hg : ∀ seg ∈ segments (splitLines s), seg.fenced = false → g seg.lines ≠ [] ∧ ∀ l ∈ g seg.lines, 10 ∉ l) :
    splitLines (mapUnfenced s fun t => joinLines (g (splitLines t))) = mapLines g (splitLines s) := by
  have hedit : ∀ seg ∈ segments (splitLines s), (seg.edit g).lines ≠ [] ∧ ∀ l ∈ (seg.edit g).lines, 10 ∉ l := by
    intro seg hseg
    have hof := segments_of seg hseg
    cases hf : seg.fenced with
    | true => simpa [Segment.edit, hf] using ⟨hof.ne_nil, fun l hl => newline_not_mem (hof.mem l hl)⟩
    | false => simpa [Segment.edit, hf] using hg seg hseg hf
  have hjoin : mapUnfenced s (fun t => joinLines (g (splitLines t))) = joinLines (mapLines g (splitLines s)) := by
    unfold mapUnfenced splitFences mapLines
    rw [List.map_map, List.flatMap_def, ← joinLines_map_joinLines, List.map_map]
    · congr 1
      refine List.map_congr_left ?_
      intro seg hseg
      have hof := segments_of seg hseg
      cases hf : seg.fenced with
      | true => simp [Segment.edit, hf]
      | false =>
        simp [Segment.edit, hf, splitLines_joinLines (fun l hl => newline_not_mem (hof.mem l hl)) hof.ne_nil]
    · intro part hpart
      obtain ⟨seg, hseg, rfl⟩ := List.mem_map.1 hpart
      exact (hedit seg hseg).1
  rw [hjoin]
  refine splitLines_joinLines ?_ ?_
  · intro l hl
    obtain ⟨seg, hseg, hl⟩ := List.mem_flatMap.1 hl
    exact (hedit seg hseg).2 l hl
  · intro hnil
    have hsegments : segments (splitLines s) ≠ [] := by
      intro h
      have := segments_flatMap (splitLines s)
      rw [h] at this
      exact splitLines_ne_nil s this.symm
    obtain ⟨seg, rest, hcons⟩ := List.exists_cons_of_ne_nil hsegments
    have hmem : seg ∈ segments (splitLines s) := hcons ▸ List.mem_cons_self
    exact (hedit seg hmem).1 (List.flatMap_eq_nil_iff.1 hnil seg hmem)

/-! ### A line in front of the text -/

/-- The segments, with lines before the first. -/
def precede (new : List Text) : List Segment → List Segment
  | ⟨ls, false⟩ :: segs => ⟨new ++ ls, false⟩ :: segs
  | segs => ⟨new, false⟩ :: segs

theorem scan_precede {new : List Text} (hnew : new ≠ []) (current lines : List Text) :
    scan none (new ++ current) lines = precede new (scan none current lines) := by
  have hflush : ∀ c segs, flush (new ++ c) false ++ segs = precede new (flush c false ++ segs) ∨
      c = [] ∧ flush (new ++ c) false ++ segs = ⟨new, false⟩ :: segs := by
    intro c segs
    by_cases hc : c = []
    · exact .inr ⟨hc, by simp [flush, hc, hnew]⟩
    · exact .inl (by simp [flush, hc, hnew, precede])
  induction lines generalizing current with
  | nil =>
    rw [scan, scan]
    rcases hflush current [] with h | ⟨rfl, -⟩
    · simpa using h
    · simp [flush, hnew, precede]
  | cons line lines ih =>
    rw [scan, scan]
    cases hopen : fenceOpen line with
    | none =>
      simp only
      rw [List.append_assoc]
      exact ih _
    | some m =>
      simp only
      rcases hflush current (scan (some m) [line] lines) with h | ⟨rfl, h⟩
      · exact h
      · rw [h, scan_some (by simp)]
        simp [flush, precede]

theorem segments_cons {line : Text} (hopen : fenceOpen line = none) (lines : List Text) :
    segments (line :: lines) = precede [line] (segments lines) := by
  have hline : [line] ≠ [] := List.cons_ne_nil line []
  rw [segments, scan, hopen]
  exact scan_precede hline [] lines

/-! ### What opens a fence -/

theorem dropSpaces_eq (n : ℕ) (s : Text) : ∃ k ≤ n, s = List.replicate k 32 ++ dropSpaces n s := by
  induction n generalizing s with
  | zero => exact ⟨0, Nat.le_refl 0, by simp [dropSpaces]⟩
  | succ n ih =>
    unfold dropSpaces
    split
    · rename_i s' hn
      cases hn
      obtain ⟨k, hk, hs⟩ := ih s'
      refine ⟨k + 1, by omega, ?_⟩
      rw [List.replicate_succ, List.cons_append, ← hs]
    · exact ⟨0, by omega, rfl⟩

theorem dropSpaces_replicate {n k : ℕ} (hk : k ≤ n) {s : Text} (hs : s.head? ≠ some 32) :
    dropSpaces n (List.replicate k 32 ++ s) = s := by
  induction n generalizing k with
  | zero =>
    obtain rfl : k = 0 := by omega
    simp [dropSpaces]
  | succ n ih =>
    cases k with
    | zero =>
      cases s with
      | nil => simp [dropSpaces]
      | cons u s =>
        have hu : u ≠ 32 := by simpa using hs
        unfold dropSpaces
        split
        · simp_all
        · rfl
    | succ k =>
      rw [List.replicate_succ, List.cons_append, dropSpaces]
      exact ih (by omega)

theorem takeWhile_beq (u : UInt16) (s : Text) : s.takeWhile (· == u) = List.replicate (s.takeWhile (· == u)).length u := by
  rw [List.eq_replicate_iff]
  refine ⟨rfl, ?_⟩
  intro v hv
  simpa using List.mem_takeWhile_imp hv

/-- **A line opens a fence** exactly when it begins with at most three spaces and three backticks or tildes. -/
theorem opens_iff (line : Text) :
    fenceOpen line ≠ none ↔
      ∃ k ≤ 3, ∃ u, (u = 96 ∨ u = 126) ∧ List.replicate k 32 ++ List.replicate 3 u <+: line := by
  constructor
  · intro hopen
    obtain ⟨k, hk, hline⟩ := dropSpaces_eq 3 line
    unfold fenceOpen at hopen
    split at hopen
    · rename_i u s hs
      by_cases hcond : (u = 96 ∨ u = 126) ∧ 3 ≤ ((u :: s).takeWhile (· == u)).length
      · refine ⟨k, hk, u, hcond.1, ?_⟩
        rw [hline, hs, List.prefix_append_right_inj]
        refine List.IsPrefix.trans ?_ (List.takeWhile_prefix (· == u))
        rw [takeWhile_beq, List.prefix_replicate_iff]
        simpa using hcond.2
      · simp only [hcond, if_false] at hopen
        exact absurd rfl hopen
    · exact absurd rfl hopen
  · rintro ⟨k, hk, u, hu, rest, rfl⟩
    have hne : u ≠ 32 := by rintro rfl; simp at hu
    have hdrop : dropSpaces 3 (List.replicate k 32 ++ List.replicate 3 u ++ rest) = List.replicate 3 u ++ rest := by
      rw [List.append_assoc]
      exact dropSpaces_replicate hk (by simpa using hne)
    unfold fenceOpen
    rw [hdrop]
    simp only [List.replicate, List.cons_append, List.nil_append]
    rw [if_pos ⟨hu, by simp⟩]
    simp

end LlmGateway.Compressor
