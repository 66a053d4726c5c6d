import LlmGateway.Compressor.Decode

/-!
# Where the markers of a compressed text come from

* `Emitted`, `editLines_split` — a line that looks like a marker is a repeat marker or an escaped line of the input;
* `compact_marker_lines` — the log and plain routes emit no other markers.
-/

namespace LlmGateway.Compressor

open LlmGateway.Lib.Utf16

/-! ### Unfenced lines -/

/-- An unfenced line of a text, behind the lines `pre`. -/
def UnfencedAt (s : Text) (pre : List Text) (x : Text) : Prop :=
  ∃ before seg behind p q, segments (splitLines s) = before ++ seg :: behind ∧ seg.fenced = false ∧ seg.lines = p ++ x :: q ∧
    pre = before.flatMap Segment.lines ++ p

def unfencedLines (s : Text) : List Text := ((segments (splitLines s)).filter fun seg => !seg.fenced).flatMap Segment.lines

/-! ### A line behind the transforms, in front of them -/

theorem collapseFrom_append {x : Text} (hx : isBlank x = false) (run p q : List Text) :
    collapseFrom run (p ++ x :: q) = collapseFrom run p ++ x :: collapseFrom [] q := by
  induction p generalizing run with
  | nil => simp [collapseFrom, hx]
  | cons line p ih =>
    rw [List.cons_append, collapseFrom, collapseFrom]
    split
    · exact ih _
    · rw [ih []]
      simp

theorem collapseFrom_split {run ls p q : List Text} {x : Text} (hx : isBlank x = false) (hrun : ∀ b ∈ run, isBlank b = true)
    (h : collapseFrom run ls = p ++ x :: q) : ∃ p' q', ls = p' ++ x :: q' ∧ p = collapseFrom run p' := by
  have hnot : x ∉ closeRun run := by
    intro hmem
    rw [closeRun_blank hrun x hmem] at hx
    cases hx
  induction ls generalizing run p with
  | nil =>
    rw [collapseFrom] at h
    exact absurd (by rw [h]; simp) hnot
  | cons line ls ih =>
    rw [collapseFrom] at h
    split at h
    · rename_i hblank
      have hrun' : ∀ b ∈ run ++ [line], isBlank b = true := by
        intro b hb
        rcases List.mem_append.1 hb with hb | hb
        · exact hrun b hb
        · rw [List.mem_singleton.1 hb, hblank]
      obtain ⟨p', q', rfl, rfl⟩ := ih hrun' h fun hmem => by
        rw [closeRun_blank hrun' x hmem] at hx
        cases hx
      exact ⟨line :: p', q', rfl, by rw [collapseFrom, if_pos hblank]⟩
    · rename_i hblank
      have hhead : ∀ {as : List Text}, line :: collapseFrom [] ls = as ++ x :: q → p = closeRun run ++ as →
          ∃ p' q', line :: ls = p' ++ x :: q' ∧ p = collapseFrom run p' := by
        intro as has hp
        cases as with
        | nil =>
          obtain ⟨rfl, -⟩ := List.cons_eq_cons.1 has
          exact ⟨[], ls, rfl, by simpa [collapseFrom] using hp⟩
        | cons a as =>
          obtain ⟨rfl, hrest⟩ := List.cons_eq_cons.1 has
          obtain ⟨p', q', hls, has'⟩ := @ih [] as (by simp) hrest (by simp [closeRun])
          exact ⟨line :: p', q', by rw [hls]; rfl, by rw [collapseFrom, if_neg hblank, hp, has']⟩
      rcases List.append_eq_append_iff.1 h with ⟨as, hp, has⟩ | ⟨bs, hclose, hbs⟩
      · exact hhead has hp
      · cases bs with
        | nil =>
          refine @hhead [] hbs.symm ?_
          simpa using hclose.symm
        | cons b bs =>
          obtain ⟨rfl, -⟩ := List.cons_eq_cons.1 hbs
          exact absurd (by rw [hclose]; simp) hnot

/-- **A line that is not blank**, in front of the white space transform; a line before it that is not blank stays before it. -/
theorem normalizeLines_split {ls p q : List Text} {x : Text} (hx : isBlank x = false) (h : normalizeLines ls = p ++ x :: q) :
    ∃ p' y q', ls = p' ++ y :: q' ∧ x = stripLine y ∧
      ∀ z, p'.getLast? = some z → isBlank (stripLine z) = false → p.getLast? = some (stripLine z) := by
  obtain ⟨p', q', hsplit, rfl⟩ := @collapseFrom_split [] _ _ _ _ hx (by simp) h
  obtain ⟨p₁, r, rfl, rfl, hr⟩ := List.map_eq_append_iff.1 hsplit
  obtain ⟨y, q₁, rfl, rfl, -⟩ := List.map_eq_cons_iff.1 hr
  refine ⟨p₁, y, q₁, rfl, rfl, ?_⟩
  intro z hz hblank
  obtain ⟨front, rfl⟩ := List.getLast?_eq_some_iff.1 hz
  rw [List.map_append, List.map_singleton, collapseFrom_append hblank]
  simp [collapseFrom, closeRun]

theorem emitRun_split {line : Text} {n : ℕ} (hline : 2 ≤ n → isBlankLine line = false) {p q : List Text} {x : Text}
    (h : emitRun line n = p ++ x :: q) :
    x = line ∨ MIN_RUN ≤ n ∧ x = repeatMarker 1 n ∧ isBlankLine line = false ∧ p.getLast? = some line := by
  rw [emitRun] at h
  split at h
  · rename_i hn
    cases p with
    | nil => exact .inl (List.cons_eq_cons.1 h).1.symm
    | cons a p =>
      obtain ⟨rfl, hrest⟩ := List.cons_eq_cons.1 h
      cases p with
      | nil => exact .inr ⟨hn, (List.cons_eq_cons.1 hrest).1.symm, hline (by simp only [MIN_RUN] at hn; omega), rfl⟩
      | cons b p => simp at hrest
  · exact .inl (List.eq_of_mem_replicate (by rw [h]; simp))

/-- **A line behind `dedupAdjacentLines`** is one of the lines, or the marker of a run that it directly follows. -/
theorem dedupFrom_split {line : Text} {n : ℕ} (hn : 1 ≤ n) (hline : 2 ≤ n → isBlankLine line = false) {ls p q : List Text}
    {x : Text} (h : (dedupFrom line n ls).1 = p ++ x :: q) :
    (x = line ∨ x ∈ ls) ∨ ∃ k l, MIN_RUN ≤ k ∧ x = repeatMarker 1 k ∧ isBlankLine l = false ∧ p.getLast? = some l ∧
      List.replicate k l <:+: List.replicate n line ++ ls := by
  induction ls generalizing line n p with
  | nil =>
    rcases emitRun_split hline h with h | ⟨hk, hx, hl, hp⟩
    · exact .inl (.inl h)
    · exact .inr ⟨n, line, hk, hx, hl, hp, by simp⟩
  | cons next ls ih =>
    rw [dedupFrom] at h
    split at h
    · rename_i hsame
      obtain ⟨rfl, hblank⟩ := hsame
      rcases ih (by omega) (fun _ => hblank) h with (h | h) | ⟨k, l, hk, hx, hl, hp, hin⟩
      · exact .inl (.inl h)
      · exact .inl (.inr (List.mem_cons_of_mem _ h))
      · refine .inr ⟨k, l, hk, hx, hl, hp, ?_⟩
        rwa [List.replicate_succ', List.append_assoc] at hin
    · have hrest : ∀ {p₁ : List Text}, (dedupFrom next 1 ls).1 = p₁ ++ x :: q → (∀ l, p₁.getLast? = some l → p.getLast? = some l) →
          (x = line ∨ x ∈ next :: ls) ∨ ∃ k l, MIN_RUN ≤ k ∧ x = repeatMarker 1 k ∧ isBlankLine l = false ∧ p.getLast? = some l ∧
            List.replicate k l <:+: List.replicate n line ++ next :: ls := by
        intro p₁ h hlast
        rcases ih (Nat.le_refl 1) (by omega) h with (h | h) | ⟨k, l, hk, hx, hl, hp, hin⟩
        · exact .inl (.inr (h ▸ List.mem_cons_self))
        · exact .inl (.inr (List.mem_cons_of_mem _ h))
        · exact .inr ⟨k, l, hk, hx, hl, hlast l hp, hin.trans (List.suffix_append _ _).isInfix⟩
      rcases List.append_eq_append_iff.1 h with ⟨p₁, rfl, hsplit⟩ | ⟨bs, hbs, hsplit⟩
      · refine hrest hsplit ?_
        intro l hl
        rw [List.getLast?_append, hl]
        rfl
      · cases bs with
        | nil =>
          refine @hrest [] (by simpa using hsplit.symm) ?_
          intro l hl
          cases hl
        | cons b bs =>
          obtain ⟨rfl, -⟩ := List.cons_eq_cons.1 hsplit
          rcases emitRun_split hline hbs with h | ⟨hk, hx, hl, hp⟩
          · exact .inl (.inl h)
          · exact .inr ⟨n, line, hk, hx, hl, hp, (List.prefix_append _ _).isInfix⟩

/-! ### Lines that look like a marker -/

theorem Trimmed.opensSentinel {l m : Text} (h : Trimmed l m) (hm : opensSentinel m = true) : opensSentinel l = true := by
  cases h with
  | same => exact hm
  | @trim body white eol hcode hwhite heol =>
    rw [opensSentinel_iff] at hm ⊢
    have heol' : eol.dropWhile isSpace = [] := by
      rcases heol with rfl | rfl
      · rfl
      · rfl
    rw [List.dropWhile_append] at hm
    split at hm
    · rw [heol'] at hm
      exact absurd (List.prefix_nil.1 hm) (by decide)
    · rename_i hbody
      have hp := isPrefix_append_eol (by decide) heol hm
      rw [List.append_assoc, List.dropWhile_append, if_neg hbody]
      exact hp.trans (List.prefix_append _ _)

theorem escapeLine_injective : Function.Injective escapeLine := by
  have hnot : ∀ a b, opensSentinel b = false → LIT_MARKER ++ a ≠ b := by
    rintro a b hb rfl
    rw [opensSentinel_of_start (SENTINEL_prefix_lit.trans (List.prefix_append _ _))] at hb
    cases hb
  intro a b h
  unfold escapeLine at h
  cases ha : opensSentinel a with
  | true =>
    cases hb : opensSentinel b with
    | true => simpa [ha, hb] using h
    | false => exact absurd (by simpa [ha, hb] using h) (hnot a b hb)
  | false =>
    cases hb : opensSentinel b with
    | true => exact absurd (by simpa [ha, hb] using h.symm) (hnot b a ha)
    | false => simpa [ha, hb] using h

/-- Where a line of the output that looks like a marker comes from: the marker of a run in `source`, behind its line, or an
escaped line of `source`. -/
inductive Emitted (source pre : List Text) (x : Text) : Prop
  | fold {n : ℕ} {l m : Text} (hn : MIN_RUN ≤ n) (hx : x = repeatMarker 1 n) (hrun : List.replicate n l <:+: source)
    (hpre : pre.getLast? = some m) (htrim : Trimmed (escapeLine l) m)
  | escaped {l m : Text} (hl : l ∈ source) (hopens : opensSentinel l = true) (htrim : Trimmed l m) (hx : x = LIT_MARKER ++ m)

theorem replicate_infix_map {n : ℕ} (hn : 1 ≤ n) {l : Text} {ls : List Text} (h : List.replicate n l <:+: ls.map escapeLine) :
    ∃ i, l = escapeLine i ∧ List.replicate n i <:+: ls := by
  obtain ⟨is, his, hmap⟩ := List.infix_map_iff.1 h
  have hall : ∀ i ∈ is, escapeLine i = l := by
    intro i hi
    refine List.eq_of_mem_replicate (hmap ▸ List.mem_map_of_mem hi)
  have hlength : is.length = n := by simpa using (congrArg List.length hmap).symm
  obtain ⟨i, rest, rfl⟩ := List.exists_cons_of_length_pos (l := is) (by omega)
  refine ⟨i, (hall i List.mem_cons_self).symm, ?_⟩
  have hrep : i :: rest = List.replicate n i := by
    refine List.eq_replicate_iff.2 ⟨hlength, ?_⟩
    intro j hj
    exact escapeLine_injective ((hall j hj).trans (hall i List.mem_cons_self).symm)
  rwa [← hrep]

theorem isBlank_of_opensSentinel {x : Text} (h : opensSentinel x = true) : isBlank x = false := by
  by_contra hb
  have := bracket_mem h
  rcases isBlank_iff.1 (by simpa using hb) with rfl | rfl
  · cases this
  · exact absurd this (by decide)

theorem isBlank_stripLine {l : Text} (h : isBlankLine l = false) : isBlank (stripLine l) = false := by
  by_contra hb
  rw [(trimmed_stripLine l).isBlankLine (by simpa using hb)] at h
  cases h

/-- An escaped and trimmed line. -/
theorem escaped_of_opensSentinel {i : Text} (h : opensSentinel (stripLine (escapeLine i)) = true) :
    opensSentinel i = true ∧ stripLine (escapeLine i) = LIT_MARKER ++ stripLine i := by
  unfold escapeLine at h ⊢
  split at h
  · rename_i hi
    exact ⟨hi, by rw [if_pos hi, stripLine_lit hi]⟩
  · rename_i hi
    exact absurd ((trimmed_stripLine i).opensSentinel h) hi

/-- **A line behind folding and tidying.** -/
theorem foldedLines_split {ls p q : List Text} {x : Text} (hx : isBlank x = false)
    (h : normalizeLines (dedupLines ls).1 = p ++ x :: q) :
    (∃ l ∈ ls, x = stripLine l) ∨ ∃ k l, MIN_RUN ≤ k ∧ x = repeatMarker 1 k ∧ p.getLast? = some (stripLine l) ∧
      List.replicate k l <:+: ls := by
  obtain ⟨p', y, q', hsplit, rfl, hlast⟩ := normalizeLines_split hx h
  cases ls with
  | nil => simp [dedupLines] at hsplit
  | cons line ls =>
    rcases dedupFrom_split (Nat.le_refl 1) (by omega) hsplit with hy | ⟨k, l, hk, rfl, hl, hp, hrun⟩
    · exact .inl ⟨y, by simpa using hy, rfl⟩
    · exact .inr ⟨k, l, hk, stripLine_repeatMarker k, hlast _ hp (isBlank_stripLine hl), by simpa using hrun⟩

/-- **A line that looks like a marker**, of an unfenced segment behind the transforms of the log and plain routes. -/
theorem editLines_split {route : ContentRoute} {ls p q : List Text} {x : Text} (hx : opensSentinel x = true)
    (h : editLines route ls = p ++ x :: q) : Emitted ls p x := by
  have hline : ∀ y ∈ ls.map escapeLine, x = stripLine y → Emitted ls p x := by
    rintro y hy rfl
    obtain ⟨i, hi, rfl⟩ := List.mem_map.1 hy
    obtain ⟨hopens, heq⟩ := escaped_of_opensSentinel hx
    exact .escaped hi hopens (trimmed_stripLine i) heq
  have hblank := isBlank_of_opensSentinel hx
  unfold editLines routeLines at h
  split at h
  · rcases foldedLines_split hblank h with ⟨y, hy, rfl⟩ | ⟨k, l, hk, rfl, hp, hrun⟩
    · exact hline y hy rfl
    · obtain ⟨i, rfl, hi⟩ := replicate_infix_map (by simp only [MIN_RUN] at hk; omega) hrun
      exact .fold hk rfl hi hp (trimmed_stripLine _)
  · obtain ⟨p', y, q', hsplit, rfl, -⟩ := normalizeLines_split hblank h
    exact hline y (by rw [hsplit]; simp) rfl

theorem Emitted.mono {source source' pre : List Text} {x : Text} (h : Emitted source pre x) (hs : source <:+: source')
    (front : List Text) : Emitted source' (front ++ pre) x := by
  cases h with
  | fold hn hx hrun hpre htrim =>
    refine .fold hn hx (hrun.trans hs) ?_ htrim
    rw [List.getLast?_append, hpre]
    rfl
  | escaped hl hopens htrim hx => exact .escaped (hs.subset hl) hopens htrim hx

theorem segment_lines {lines : List Text} {seg : Segment} (h : seg ∈ segments lines) : seg.lines <:+: lines := by
  obtain ⟨front, behind, hsplit⟩ := List.append_of_mem h
  have hlines := segments_flatMap lines
  rw [hsplit, List.flatMap_append, List.flatMap_cons] at hlines
  exact ⟨front.flatMap Segment.lines, behind.flatMap Segment.lines, by rw [← hlines]; simp⟩

/-- An unfenced line behind an edit of the unfenced segments. -/
theorem UnfencedAt.of_edit {s t : Text} {g : List Text → List Text} {pre : List Text} {x : Text}
    (ht : segments (splitLines t) = (segments (splitLines s)).map (Segment.edit g)) (h : UnfencedAt t pre x) :
    ∃ seg ∈ segments (splitLines s), ∃ front p q, seg.fenced = false ∧ g seg.lines = p ++ x :: q ∧ pre = front ++ p := by
  obtain ⟨before, seg, behind, p, q, hsegs, hf, hlines, rfl⟩ := h
  have hmem : seg ∈ (segments (splitLines s)).map (Segment.edit g) := by
    rw [← ht, hsegs]
    simp
  obtain ⟨seg, horigin, rfl⟩ := List.mem_map.1 hmem
  rw [Segment.fenced_edit] at hf
  simp only [Segment.edit, hf, Bool.false_eq_true, if_false] at hlines
  exact ⟨seg, horigin, _, p, q, hf, hlines, rfl⟩

/-- Behind the note a text has the lines that it has without it. -/
theorem unfencedAt_note {folded escaped : ℕ} {t : Text} {pre : List Text} {x : Text}
    (h : UnfencedAt (noteLine folded escaped ++ 10 :: t) pre x) :
    (pre = [] ∧ x = noteLine folded escaped) ∨ ∃ pre', pre = [noteLine folded escaped] ++ pre' ∧ UnfencedAt t pre' x := by
  obtain ⟨before, seg, behind, p, q, hsegs, hf, hlines, rfl⟩ := h
  rw [splitLines_note, segments_cons (fenceOpen_noteLine folded escaped)] at hsegs
  have hnote : ∀ {ls p : List Text}, noteLine folded escaped :: ls = p ++ x :: q →
      (p = [] ∧ x = noteLine folded escaped) ∨ ∃ p', p = noteLine folded escaped :: p' ∧ ls = p' ++ x :: q := by
    intro ls p h
    cases p with
    | nil => exact .inl ⟨rfl, (List.cons_eq_cons.1 h).1.symm⟩
    | cons a p =>
      obtain ⟨rfl, hls⟩ := List.cons_eq_cons.1 h
      exact .inr ⟨p, rfl, hls⟩
  unfold precede at hsegs
  split at hsegs
  · rename_i ls segs hL
    cases before with
    | nil =>
      obtain ⟨rfl, rfl⟩ := List.cons_eq_cons.1 hsegs
      rcases hnote hlines with ⟨rfl, hx⟩ | ⟨p', rfl, hls⟩
      · exact .inl ⟨rfl, hx⟩
      · exact .inr ⟨p', rfl, [], ⟨ls, false⟩, _, p', q, hL, rfl, hls, rfl⟩
    | cons b before =>
      obtain ⟨rfl, rfl⟩ := List.cons_eq_cons.1 hsegs
      exact .inr ⟨_, rfl, ⟨ls, false⟩ :: before, seg, behind, p, q, hL, hf, hlines, rfl⟩
  · cases before with
    | nil =>
      obtain ⟨rfl, rfl⟩ := List.cons_eq_cons.1 hsegs
      rcases hnote hlines with ⟨rfl, hx⟩ | ⟨p', rfl, hls⟩
      · exact .inl ⟨rfl, hx⟩
      · simp at hls
    | cons b before =>
      obtain ⟨rfl, hbehind⟩ := List.cons_eq_cons.1 hsegs
      exact .inr ⟨_, rfl, before, seg, behind, p, q, hbehind, hf, hlines, rfl⟩

/-! ### What the note counts -/

/-- The repeat markers of a text. -/
def repeats (s : Text) : ℕ := ((unfencedLines s).filter fun x => (readRepeat x).isSome).length

/-- The lines of a text that are escaped. -/
def escapedLines (s : Text) : ℕ := ((unfencedLines s).filter opensSentinel).length

theorem length_filter_flatMap {α : Type*} (segs : List Segment) (f : Segment → List α) (p : α → Bool) :
    ((segs.flatMap f).filter p).length = (segs.map fun seg => ((f seg).filter p).length).sum := by
  induction segs with
  | nil => rfl
  | cons seg segs ih => simp [List.filter_append, ih]

theorem countUnfenced_eq (s : Text) (count : List Text → ℕ) :
    countUnfenced s (fun t => count (splitLines t)) =
      (((segments (splitLines s)).filter fun seg => !seg.fenced).map fun seg => count seg.lines).sum := by
  have hall : ∀ segs : List Segment, (∀ seg ∈ segs, seg.Of (splitLines s)) →
      ((segs.map fun seg => (⟨joinLines seg.lines, seg.fenced⟩ : FenceSegment)).map fun seg =>
        if seg.fenced then 0 else count (splitLines seg.text)).sum =
      ((segs.filter fun seg => !seg.fenced).map fun seg => count seg.lines).sum := by
    intro segs
    induction segs with
    | nil => exact fun _ => rfl
    | cons seg segs ih =>
      intro hof
      have hseg := hof seg List.mem_cons_self
      have ih := ih fun seg hseg => hof seg (List.mem_cons_of_mem _ hseg)
      simp only [List.map_cons, List.sum_cons]
      rw [ih]
      cases hf : seg.fenced with
      | true => simp [hf]
      | false => simp [hf, splitLines_joinLines (fun l hl => newline_not_mem (hseg.mem l hl)) hseg.ne_nil]
  exact hall _ segments_of

theorem escaped_eq (s : Text) (route : ContentRoute) (hroute : route ≠ .ansiText) :
    (transform route s).counts.escaped = escapedLines s := by
  have hcount : (transform route s).counts.escaped = countUnfenced s fun t => ((splitLines t).filter opensSentinel).length := by
    by_cases hlog : route = .log
    · simp [transform, hlog, Work.apply, escapeSentinelLikeLines, dedupAdjacentLines]
    · simp [transform, hroute, hlog, Work.apply, escapeSentinelLikeLines]
  rw [hcount, countUnfenced_eq s fun ls => (ls.filter opensSentinel).length, escapedLines, unfencedLines, length_filter_flatMap]

theorem filter_collapseFrom {p : Text → Bool} (hp : ∀ x, isBlank x = true → p x = false) {run : List Text}
    (hrun : ∀ b ∈ run, isBlank b = true) (ls : List Text) : (collapseFrom run ls).filter p = ls.filter p := by
  have hclose : ∀ run : List Text, (∀ b ∈ run, isBlank b = true) → (closeRun run).filter p = [] := by
    intro run hrun
    refine List.filter_eq_nil_iff.2 ?_
    intro b hb
    simp [hp b (closeRun_blank hrun b hb)]
  induction ls generalizing run with
  | nil => simpa [collapseFrom] using hclose run hrun
  | cons line ls ih =>
    rw [collapseFrom]
    split
    · rename_i hblank
      rw [ih, List.filter_cons_of_neg (by simp [hp line hblank])]
      intro b hb
      rcases List.mem_append.1 hb with hb | hb
      · exact hrun b hb
      · rw [List.mem_singleton.1 hb, hblank]
    · rw [List.filter_append, hclose run hrun, List.nil_append, List.filter_cons, List.filter_cons, @ih [] (by simp)]

theorem repeats_replicate (l : Text) (n : ℕ) :
    ((List.replicate n (stripLine (escapeLine l))).filter fun x => (readRepeat x).isSome) = [] := by
  refine List.filter_eq_nil_iff.2 ?_
  intro x hx
  simp [List.eq_of_mem_replicate hx, (coded_line l).1]

theorem repeats_emitRun (l : Text) (n : ℕ) :
    (((emitRun (escapeLine l) n).map stripLine).filter fun x => (readRepeat x).isSome).length = if MIN_RUN ≤ n then 1 else 0 := by
  unfold emitRun
  split
  · simp [(coded_line l).1]
  · rw [List.map_replicate, repeats_replicate]
    rfl

theorem repeats_dedupFrom (l : Text) (n : ℕ) (rest : List Text) :
    (((dedupFrom (escapeLine l) n (rest.map escapeLine)).1.map stripLine).filter fun x => (readRepeat x).isSome).length =
      (dedupFrom (escapeLine l) n (rest.map escapeLine)).2 := by
  induction rest generalizing l n with
  | nil => exact repeats_emitRun l n
  | cons next rest ih =>
    rw [List.map_cons, dedupFrom]
    split
    · exact ih l (n + 1)
    · rw [List.map_append, List.filter_append, List.length_append, repeats_emitRun, ih]

/-- The repeat markers of an unfenced segment are the runs that were folded. -/
theorem repeats_editLines (route : ContentRoute) (ls : List Text) :
    ((editLines route ls).filter fun x => (readRepeat x).isSome).length =
      if route = .log then (dedupLines (ls.map escapeLine)).2 else 0 := by
  have hblank : ∀ x, isBlank x = true → (readRepeat x).isSome = false := by
    intro x hx
    rcases isBlank_iff.1 hx with rfl | rfl
    · rw [readRepeat_eq_none (by decide)]
      rfl
    · rw [readRepeat_eq_none (by decide)]
      rfl
  rw [editLines, normalizeLines, filter_collapseFrom hblank (by simp), routeLines]
  split
  · cases ls with
    | nil => rfl
    | cons l ls => exact repeats_dedupFrom l 1 ls
  · rw [List.length_eq_zero_iff, List.filter_eq_nil_iff]
    intro x hx
    obtain ⟨y, hy, rfl⟩ := List.mem_map.1 hx
    obtain ⟨l, -, rfl⟩ := List.mem_map.1 hy
    simp [(coded_line l).1]

theorem unfencedLines_edit {s t : Text} {g : List Text → List Text}
    (ht : segments (splitLines t) = (segments (splitLines s)).map (Segment.edit g)) :
    unfencedLines t = ((segments (splitLines s)).filter fun seg => !seg.fenced).flatMap fun seg => g seg.lines := by
  have hcomp : (fun seg : Segment => !seg.fenced) ∘ Segment.edit g = fun seg => !seg.fenced := by
    funext seg
    simp
  rw [unfencedLines, ht, List.filter_map, hcomp, List.flatMap_map]
  refine List.flatMap_congr ?_
  intro seg hseg
  have hf : seg.fenced = false := by simpa using (List.mem_filter.1 hseg).2
  simp [Segment.edit, hf]

theorem folded_eq (s : Text) (route : ContentRoute) (hroute : route ≠ .ansiText) :
    (transform route s).counts.folded = repeats (transform route s).current := by
  have hlines : ∀ l ∈ splitLines s, 10 ∉ l := fun l hl => newline_not_mem hl
  rw [repeats, unfencedLines_edit (segments_transform hroute), length_filter_flatMap]
  simp only [repeats_editLines]
  by_cases hlog : route = .log
  · subst hlog
    have hcount : (transform .log s).counts.folded =
        countUnfenced (escapeSentinelLikeLines s).1 fun t => (dedupLines (splitLines t)).2 := by
      simp [transform, Work.apply, escapeSentinelLikeLines, dedupAdjacentLines]
    have hsegs : segments (splitLines (escapeSentinelLikeLines s).1) =
        (segments (splitLines s)).map (Segment.edit (List.map escapeLine)) := by
      rw [splitLines_escape, unfencing_escape.segments hlines]
    have hcomp : (fun seg : Segment => !seg.fenced) ∘ Segment.edit (List.map escapeLine) = fun seg => !seg.fenced := by
      funext seg
      simp
    rw [hcount, countUnfenced_eq _ fun ls => (dedupLines ls).2, hsegs, List.filter_map, hcomp, List.map_map]
    congr 1
    refine List.map_congr_left ?_
    intro seg hseg
    have hf : seg.fenced = false := by simpa using (List.mem_filter.1 hseg).2
    simp [Segment.edit, hf]
  · simp [transform, hroute, hlog, Work.apply, escapeSentinelLikeLines]

theorem current_note (w : Work) : w.note.current = if 0 < w.counts.folded + w.counts.escaped then
    noteLine w.counts.folded w.counts.escaped ++ 10 :: w.current else w.current := by
  unfold Work.note
  split
  · rfl
  · rfl

/-- What looks like a marker in the unfenced lines of `out` is the note, with the number of the repeat markers behind it and of the
lines of `s` that were escaped, or comes from a run or an escaped line of `s`. -/
def Accounted (s out : Text) : Prop :=
  ∃ t, (out = t ∧ repeats t + escapedLines s = 0 ∨
      out = noteLine (repeats t) (escapedLines s) ++ 10 :: t ∧ 0 < repeats t + escapedLines s) ∧
    (∀ pre x, UnfencedAt t pre x → opensSentinel x = true → Emitted (splitLines s) pre x) ∧
    ∀ pre x, UnfencedAt out pre x → opensSentinel x = true →
      (pre = [] ∧ x = noteLine (repeats t) (escapedLines s)) ∨ Emitted (splitLines s) pre x

/-- **The log and plain routes emit no other markers** into a text that they change. -/
theorem compact_marker_lines (estimateTokensSaved : Text → Text → ContentRoute → ℕ) (s : Text) (ctx : CompressCtx)
    (hroute : classify s = .log ∨ classify s = .plain) (hne : (compact estimateTokensSaved s ctx).text ≠ s) :
    Accounted s (compact estimateTokensSaved s ctx).text := by
  have hansi : classify s ≠ .ansiText := by
    rcases hroute with h | h
    · simp [h]
    · simp [h]
  rcases @compact_text estimateTokensSaved s ctx hroute with h | ⟨hout, -⟩
  · exact absurd h hne
  rw [current_note, folded_eq s _ hansi, escaped_eq s _ hansi] at hout
  have hlines : ∀ pre x, UnfencedAt (transform (classify s) s).current pre x → opensSentinel x = true →
      Emitted (splitLines s) pre x := by
    intro pre x hx hopens
    obtain ⟨seg, hseg, front, p, q, -, hsplit, rfl⟩ := hx.of_edit (segments_transform hansi)
    exact (editLines_split hopens hsplit).mono (segment_lines hseg) front
  generalize (transform (classify s) s).current = t at hout hlines
  rw [hout]
  refine ⟨t, ?_⟩
  split
  · next hpos =>
    refine ⟨.inr ⟨rfl, hpos⟩, hlines, ?_⟩
    intro pre x hx hopens
    rcases unfencedAt_note hx with hnote | ⟨pre', rfl, hbehind⟩
    · exact .inl hnote
    · exact .inr ((hlines pre' x hbehind hopens).mono (List.infix_refl _) _)
  · next hzero => exact ⟨.inl ⟨rfl, by omega⟩, hlines, fun pre x hx hopens => .inr (hlines pre x hx hopens)⟩

/-- A run of lines that is folded. -/
def repeatedText : Text := joinLines (List.replicate 30 (text "still waiting for it"))

theorem compact_marker_lines_folded : Accounted repeatedText (compact (fun _ _ _ => 0) repeatedText ⟨none, false⟩).text :=
  compact_marker_lines (fun _ _ _ => 0) repeatedText ⟨none, false⟩ (.inl (by decide +kernel)) (by decide +kernel)

end LlmGateway.Compressor
