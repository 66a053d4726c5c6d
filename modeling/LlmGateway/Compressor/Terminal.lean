import LlmGateway.Compressor.Lines
import LlmGateway.Compressor.Sequences

/-!
# What a terminal shows

* `Screen` — one line of a terminal: its cells and its cursor; `put`, `erase` — a code unit, and an erasure in the line (EL);
* `Piece` — printable ASCII, a tab, a carriage return, or an erasure;
* `cells_run_iff` — a terminal shows the line without its erasures exactly if each is of blanks or of what is overwritten;
* `shows_iff_of_aligned` — when a line that has been collapsed shows what a terminal shows.
-/

namespace LlmGateway.Compressor

open LlmGateway.Lib LlmGateway.Lib.Utf16

/-! ### The terminal -/

structure Screen where
  cells : ℕ → UInt16
  column : ℕ

namespace Screen

def blank : Screen := ⟨fun _ => 32, 0⟩

/-- The tab stop behind a column. -/
def nextStop (n : ℕ) : ℕ := (n / 8 + 1) * 8

def put (s : Screen) (u : UInt16) : Screen :=
  if u = 9 then { s with column := nextStop s.column }
  else if u = 13 then { s with column := 0 }
  else ⟨Function.update s.cells s.column u, s.column + 1⟩

/-- The cells that EL erases: to the end of the line, to its start, or all of it. -/
def erased (n column p : ℕ) : Prop := (n = 0 ∧ column ≤ p) ∨ (n = 1 ∧ p ≤ column) ∨ n = 2

instance (n column p : ℕ) : Decidable (erased n column p) := inferInstanceAs (Decidable (_ ∨ _))

def erase (s : Screen) (n : ℕ) : Screen := { s with cells := fun p => if erased n s.column p then 32 else s.cells p }

/-- What a text shows. -/
def type (s : Screen) (t : Text) : Screen := t.foldl put s

end Screen

/-- Printable single-column ASCII, tab and carriage return. -/
abbrev Glyph := { u : UInt16 // u = 9 ∨ u = 13 ∨ 32 ≤ u ∧ u ≤ 126 }

inductive Piece where
  | unit (u : Glyph)
  | erase (digits : List (Fin 10))

namespace Piece

def digit (d : Fin 10) : UInt16 := 48 + UInt16.ofNat d

def text : Piece → Text
  | unit u => [u.1]
  | erase digits => 27 :: 91 :: (digits.map digit ++ [75])

/-- The parameter of an erasure; it is 0 where there is none. -/
def parameter (digits : List (Fin 10)) : ℕ := digits.foldl (fun n d => n * 10 + d) 0

end Piece

def Screen.piece (s : Screen) : Piece → Screen
  | .unit u => s.put u.1
  | .erase digits => s.erase (Piece.parameter digits)

abbrev Line := List Piece

namespace Line

def text (l : Line) : Text := l.flatMap Piece.text

/-- The line without its erasures. -/
def plain (l : Line) : Text :=
  l.flatMap fun
    | .unit u => [u.1]
    | .erase _ => []

/-- What a terminal shows of the line. -/
def screen (l : Line) : Screen := l.foldl Screen.piece Screen.blank

end Line

/-! ### Lines are stripped one by one -/

def isIntroducer (u : UInt16) : Bool := u == 80 || u == 88 || u == 93 || u == 94 || u == 95

/-- The text introduces a control string. -/
def introduces : Text → Bool
  | [] => false
  | u :: s => (u == 27 && s.head?.any isIntroducer) || introduces s

theorem introduces_append (l r : Text) : introduces (l ++ 10 :: r) = (introduces l || introduces r) := by
  induction l with
  | nil => simp [introduces]
  | cons u l ih =>
    rw [List.cons_append, introduces, introduces, ih, Bool.or_assoc]
    cases l with
    | nil => simp [isIntroducer, introduces]
    | cons v l => rfl

theorem matchOsc_of_introduces {s : Text} (h : introduces s = false) : matchOsc s = none := by
  unfold matchOsc
  split
  · next t => simp [introduces, isIntroducer] at h
  · rfl

theorem matchString_of_introduces {s : Text} (h : introduces s = false) : matchString s = none := by
  unfold matchString
  split
  · next u t =>
    have hu : isIntroducer u = false := by
      simp only [introduces, beq_self_eq_true, List.head?_cons, Option.any_some, Bool.true_and, Bool.or_eq_false_iff] at h
      exact h.1
    refine if_neg ?_
    rintro (rfl | rfl | rfl | rfl) <;> cases hu
  · rfl

theorem removeAll_of_introduces {m : Text → Option Text} (hm : ∀ s, introduces s = false → m s = none) {s : Text}
    (h : introduces s = false) : removeAll m 0 s = s := by
  induction s with
  | nil => rfl
  | cons u s ih =>
    have hs : introduces s = false := (Bool.or_eq_false_iff.1 h).2
    rw [removeAll_cons (hm _ h), ih hs]

section Stop

variable {p : UInt16 → Bool} {z : UInt16}

theorem takeWhile_append_stop (hz : p z = false) (x r : Text) : (x ++ z :: r).takeWhile p = x.takeWhile p := by
  induction x with
  | nil => simp [hz]
  | cons v x ih =>
    rw [List.cons_append, List.takeWhile_cons, List.takeWhile_cons, ih]

theorem dropWhile_append_stop (hz : p z = false) (x r : Text) : (x ++ z :: r).dropWhile p = x.dropWhile p ++ z :: r := by
  induction x with
  | nil => simp [hz]
  | cons v x ih =>
    rw [List.cons_append, List.dropWhile_cons, List.dropWhile_cons, ih]
    split <;> rfl

end Stop

/-- A CSI sequence in front of a newline does not reach it. -/
theorem matchCsi_append (t r : Text) :
    (matchCsi (t ++ 10 :: r)).map (fun q => q.2.2) = ((matchCsi t).map fun q => q.2.2).map (· ++ 10 :: r) := by
  match t with
  | [] => rfl
  | [u] =>
    by_cases hu : u = 27
    · rw [hu]
      rfl
    · rw [show matchCsi ([u] ++ 10 :: r) = none from Option.map_eq_none_iff.1 (escapes_csi u _ hu),
        show matchCsi [u] = none from Option.map_eq_none_iff.1 (escapes_csi u _ hu)]
      rfl
  | u :: v :: x =>
    by_cases huv : u = 27 ∧ v = 91
    · obtain ⟨rfl, rfl⟩ := huv
      simp only [List.cons_append, matchCsi]
      rw [takeWhile_append_stop (by decide), dropWhile_append_stop (by decide), dropWhile_append_stop (by decide)]
      generalize (x.dropWhile fun u => decide (48 ≤ u) && decide (u ≤ 63)).dropWhile
        (fun u => decide (32 ≤ u) && decide (u ≤ 47)) = behind
      cases behind with
      | nil => rfl
      | cons f rest =>
        rw [List.cons_append]
        simp only
        split <;> rfl
    · have hnone : ∀ s, matchCsi (u :: v :: s) = none := by
        intro s
        unfold matchCsi
        split
        · next h =>
          obtain ⟨hu, h⟩ := List.cons.inj h
          exact absurd ⟨hu, (List.cons.inj h).1⟩ huv
        · rfl
      rw [List.cons_append, List.cons_append, hnone, hnone]
      rfl

theorem matchTwoByte_append (t r : Text) (ht : t ≠ []) :
    matchTwoByte (t ++ 10 :: r) = (matchTwoByte t).map (· ++ 10 :: r) := by
  match t with
  | [u] =>
    by_cases hu : u = 27
    · rw [hu]
      rfl
    · rw [show matchTwoByte ([u] ++ 10 :: r) = none from escapes_twoByte u _ hu, escapes_twoByte u _ hu]
      rfl
  | u :: v :: x =>
    by_cases hu : u = 27
    · subst hu
      simp only [List.cons_append, matchTwoByte]
      split <;> rfl
    · rw [List.cons_append, escapes_twoByte u _ hu, escapes_twoByte u _ hu]
      rfl

/-- **Lines that introduce no control string are stripped one by one.** -/
theorem stripEscapes_append {l r : Text} (hl : introduces l = false) (hr : introduces r = false) :
    stripEscapes (l ++ 10 :: r) = stripEscapes l ++ 10 :: stripEscapes r := by
  have hlr : introduces (l ++ 10 :: r) = false := by rw [introduces_append, hl, hr]; rfl
  have hstrings : ∀ s, introduces s = false → removeAll matchString 0 (removeAll matchOsc 0 s) = s := by
    intro s hs
    rw [removeAll_of_introduces (fun _ => matchOsc_of_introduces) hs,
      removeAll_of_introduces (fun _ => matchString_of_introduces) hs]
  unfold stripEscapes
  simp only
  rw [hstrings _ hlr, hstrings _ hl, hstrings _ hr]
  rw [removeAll_append fun t _ _ => matchCsi_append t r, removeAll_cons (s := r) rfl]
  rw [removeAll_append fun t ht _ => matchTwoByte_append t _ ht, removeAll_cons rfl]
  rw [List.filter_append, List.filter_cons_of_pos (by decide)]

theorem joinLines_cons (t : Text) {ts : List Text} (hts : ts ≠ []) : joinLines (t :: ts) = t ++ 10 :: joinLines ts := by
  have h := joinLines_append (List.cons_ne_nil t []) hts
  simpa [joinLines] using h

theorem stripEscapes_joinLines {ls : List Text} (hls : ∀ l ∈ ls, introduces l = false) (hne : ls ≠ []) :
    introduces (joinLines ls) = false ∧ stripEscapes (joinLines ls) = joinLines (ls.map stripEscapes) := by
  induction ls with
  | nil => exact absurd rfl hne
  | cons l ls ih =>
    have hl := hls l List.mem_cons_self
    cases ls with
    | nil => simpa [joinLines] using hl
    | cons l' ls =>
      obtain ⟨hrest, hstrip⟩ := ih (fun t ht => hls t (List.mem_cons_of_mem _ ht)) (by simp)
      have hl' : l' :: ls ≠ [] := List.cons_ne_nil _ _
      have hmap : (l' :: ls).map stripEscapes ≠ [] := by simp
      rw [joinLines_cons l hl', List.map_cons, joinLines_cons _ hmap, introduces_append, hl, hrest, stripEscapes_append hl hrest,
        hstrip]
      exact ⟨rfl, rfl⟩

theorem removeAll_subset {m : Text → Option Text} {n : ℕ} {s : Text} {u : UInt16} (h : u ∈ removeAll m n s) : u ∈ s := by
  induction s generalizing n with
  | nil => cases n <;> cases h
  | cons v s ih =>
    cases n with
    | succ n => exact List.mem_cons_of_mem _ (ih h)
    | zero =>
      rw [removeAll] at h
      split at h
      · exact List.mem_cons_of_mem _ (ih h)
      · rcases List.mem_cons.1 h with rfl | h
        · exact List.mem_cons_self
        · exact List.mem_cons_of_mem _ (ih h)

theorem stripEscapes_subset {s : Text} {u : UInt16} (h : u ∈ stripEscapes s) : u ∈ s := by
  unfold stripEscapes at h
  exact removeAll_subset (removeAll_subset (removeAll_subset (removeAll_subset (List.mem_filter.1 h).1)))

/-! ### The lines that are emitted -/

/-- The lines that a stripped line becomes. -/
def emit (line : Text) : List Text := if keepsFrames line then [line] else collapseLine line

theorem overlay_subset {frames : List Text} {cells : Text} {u : UInt16}
    (h : u ∈ frames.foldl (fun cells frame => frame ++ cells.drop frame.length) cells) : u ∈ cells ∨ ∃ f ∈ frames, u ∈ f := by
  induction frames generalizing cells with
  | nil => exact .inl h
  | cons f fs ih =>
    rcases ih h with h | ⟨g, hg, hu⟩
    · rcases List.mem_append.1 h with h | h
      · exact .inr ⟨f, List.mem_cons_self, h⟩
      · exact .inl ((List.drop_subset _ _) h)
    · exact .inr ⟨g, List.mem_cons_of_mem _ hg, hu⟩

theorem mem_splitOn {z : UInt16} {s f : Text} (h : f ∈ s.splitOn z) : z ∉ f ∧ ∀ u ∈ f, u ∈ s := by
  induction s generalizing f with
  | nil =>
    rw [List.splitOn_nil, List.mem_singleton] at h
    rw [h]
    exact ⟨List.not_mem_nil, fun _ hu => hu⟩
  | cons v s ih =>
    have hmono : ∀ {g : Text}, g ∈ s.splitOn z → z ∉ g ∧ ∀ u ∈ g, u ∈ v :: s :=
      fun hg => ⟨(ih hg).1, fun u hu => List.mem_cons_of_mem _ ((ih hg).2 u hu)⟩
    rw [List.splitOn_cons_eq_if_modifyHead] at h
    split at h
    · rcases List.mem_cons.1 h with rfl | h
      · exact ⟨List.not_mem_nil, fun _ hu => absurd hu List.not_mem_nil⟩
      · exact hmono h
    · next hv =>
      obtain ⟨g, gs, hg⟩ := List.exists_cons_of_ne_nil (List.splitOn_ne_nil z s)
      rw [hg, List.modifyHead_cons] at h
      rcases List.mem_cons.1 h with rfl | h
      · obtain ⟨hz, hu⟩ := ih (hg ▸ List.mem_cons_self : g ∈ s.splitOn z)
        refine ⟨?_, ?_⟩
        · intro hmem
          rcases List.mem_cons.1 hmem with rfl | hmem
          · exact hv (by simp)
          · exact hz hmem
        · intro u hmem
          rcases List.mem_cons.1 hmem with rfl | hmem
          · exact List.mem_cons_self
          · exact List.mem_cons_of_mem _ (hu u hmem)
      · exact hmono (hg ▸ List.mem_cons_of_mem _ h)

theorem newline_notMem_emit {line : Text} (h : 10 ∉ line) : emit line ≠ [] ∧ ∀ t ∈ emit line, 10 ∉ t := by
  unfold emit
  split
  · simpa using h
  · unfold collapseLine
    split
    · next visible marker hover =>
      refine ⟨by simp, ?_⟩
      unfold overwritten at hover
      dsimp only at hover
      split at hover
      · cases hover
        have hsplit := splitCrlf_append line
        intro t ht
        rcases List.mem_cons.1 ht with rfl | ht
        · intro h10
          apply h
          rw [← hsplit]
          rcases List.mem_append.1 h10 with h10 | h10
          · rcases overlay_subset h10 with h10 | ⟨f, hf, h10⟩
            · cases h10
            · exact List.mem_append_left _ ((mem_splitOn hf).2 10 h10)
          · exact List.mem_append_right _ h10
        · rw [List.mem_singleton.1 ht]
          unfold crMarker
          rw [List.mem_append, List.mem_append, not_or, not_or]
          exact ⟨⟨by decide, newline_not_mem_decimal _⟩, by decide⟩
      · cases hover
    · simpa using h

theorem stripSegment_joinLines {ls : List Text} (hls : ∀ l ∈ ls, introduces l = false ∧ 10 ∉ l) (hne : ls ≠ []) :
    stripSegment (joinLines ls) = joinLines (ls.flatMap fun l => emit (stripEscapes l)) := by
  unfold stripSegment stripLines
  rw [(stripEscapes_joinLines (fun l hl => (hls l hl).1) hne).2, splitLines_joinLines, List.flatMap_map]
  · rfl
  · intro t ht
    obtain ⟨l, hl, rfl⟩ := List.mem_map.1 ht
    exact fun h10 => (hls l hl).2 (stripEscapes_subset h10)
  · simpa using hne

theorem splitLines_stripSegment {l : Text} (hl : introduces l = false) (h10 : 10 ∉ l) :
    splitLines (stripSegment l) = emit (stripEscapes l) := by
  have hone : ∀ t ∈ [l], introduces t = false ∧ 10 ∉ t := by simpa using ⟨hl, h10⟩
  have h := stripSegment_joinLines hone (by simp)
  have hemit := newline_notMem_emit fun h => h10 (stripEscapes_subset (s := l) h)
  simp only [List.flatMap_cons, List.flatMap_nil, List.append_nil] at h
  rw [show joinLines [l] = l by simp [joinLines]] at h
  rw [h, splitLines_joinLines hemit.2 hemit.1]

/-- The unfenced lines of a text that introduce no control string are stripped one by one. -/
theorem splitLines_stripAnsi {s : Text} (hsafe : hasDangerousSequences s = false)
    (hlines : ∀ seg ∈ segments (splitLines s), seg.fenced = false → ∀ l ∈ seg.lines, introduces l = false) :
    splitLines (stripAnsi s).1 = mapLines (fun lines => lines.flatMap fun l => splitLines (stripSegment l)) (splitLines s) := by
  let g : List Text → List Text := fun lines => lines.flatMap fun l => splitLines (stripSegment l)
  have hspec : ∀ seg ∈ segments (splitLines s), seg.fenced = false →
      seg.lines ≠ [] ∧ (∀ l ∈ seg.lines, introduces l = false ∧ 10 ∉ l) ∧
        g seg.lines = seg.lines.flatMap fun l => emit (stripEscapes l) := by
    intro seg hseg hf
    have hof := segments_of seg hseg
    have hplain : ∀ l ∈ seg.lines, introduces l = false ∧ 10 ∉ l :=
      fun l hl => ⟨hlines seg hseg hf l hl, newline_not_mem (hof.mem l hl)⟩
    refine ⟨hof.ne_nil, hplain, ?_⟩
    exact List.flatMap_congr fun l hl => splitLines_stripSegment (hplain l hl).1 (hplain l hl).2
  have hmap : mapUnfenced s stripSegment = mapUnfenced s fun t => joinLines (g (splitLines t)) := by
    unfold mapUnfenced splitFences
    rw [List.map_map, List.map_map]
    refine congrArg joinLines (List.map_congr_left fun seg hseg => ?_)
    cases hf : seg.fenced with
    | true => simp [hf]
    | false =>
      obtain ⟨hne, hplain, hg⟩ := hspec seg hseg hf
      simp only [Function.comp, hf, Bool.false_eq_true, if_false]
      rw [stripSegment_joinLines hplain hne, splitLines_joinLines (fun l hl => (hplain l hl).2) hne, hg]
  unfold stripAnsi
  rw [hsafe, if_neg Bool.false_ne_true, hmap]
  refine splitLines_mapUnfenced fun seg hseg hf => ?_
  obtain ⟨hne, hplain, hg⟩ := hspec seg hseg hf
  rw [hg]
  have hemit := fun l hl => newline_notMem_emit fun h => (hplain l hl).2 (stripEscapes_subset (s := l) h)
  refine ⟨?_, ?_⟩
  · obtain ⟨l, ls, hcons⟩ := List.exists_cons_of_ne_nil hne
    rw [hcons, List.flatMap_cons]
    exact List.append_ne_nil_of_left_ne_nil (hemit l (by rw [hcons]; exact List.mem_cons_self)).1 _
  · intro t ht
    obtain ⟨l, hl, ht⟩ := List.mem_flatMap.1 ht
    exact (hemit l hl).2 t ht

/-! ### Lines of a terminal -/

theorem Glyph.ne_esc (u : Glyph) : u.1 ≠ 27 := by
  obtain ⟨u, hu⟩ := u
  rintro rfl
  revert hu
  decide

theorem Glyph.not_stray {u : UInt16} (h : u = 9 ∨ u = 13 ∨ 32 ≤ u ∧ u ≤ 126) : isStrayC0 u = false := by
  rcases h with rfl | rfl | ⟨h, -⟩
  · rfl
  · rfl
  · rw [UInt16.le_iff_toNat_le] at h
    simp only [isStrayC0, Bool.or_eq_false_iff, Bool.and_eq_false_iff, decide_eq_false_iff_not, beq_eq_false_iff_ne, ne_eq,
      UInt16.le_iff_toNat_le, ← UInt16.toNat_inj]
    simp only [UInt16.reduceToNat] at h ⊢
    omega

theorem Piece.digit_spec : ∀ d, 48 ≤ Piece.digit d ∧ Piece.digit d ≤ 57 := by decide

theorem Piece.esc_notMem (digits : List (Fin 10)) : 27 ∉ 91 :: (digits.map Piece.digit ++ [75]) := by
  intro h
  rcases List.mem_cons.1 h with h | h
  · cases h
  · rcases List.mem_append.1 h with h | h
    · obtain ⟨d, -, hd⟩ := List.mem_map.1 h
      have hspec := (Piece.digit_spec d).1
      rw [hd] at hspec
      exact absurd hspec (by decide)
    · cases List.mem_singleton.1 h

theorem introduces_of_notMem {w : Text} (h : 27 ∉ w) (r : Text) : introduces (w ++ r) = introduces r := by
  induction w with
  | nil => rfl
  | cons u w ih =>
    have hu : (u == 27) = false := by simpa using fun hu : u = 27 => h (hu ▸ List.mem_cons_self)
    rw [List.cons_append, introduces, hu, ih fun hmem => h (List.mem_cons_of_mem _ hmem)]
    rfl

namespace Line

theorem introduces_text (l : Line) : introduces (Line.text l) = false := by
  induction l with
  | nil => rfl
  | cons p l ih =>
    cases p with
    | unit u =>
      have hu : 27 ∉ [u.1] := by simpa using u.ne_esc.symm
      exact (introduces_of_notMem hu (Line.text l)).trans ih
    | erase digits => exact (introduces_of_notMem (Piece.esc_notMem digits) (Line.text l)).trans ih

theorem matchCsi_erase (digits : List (Fin 10)) (r : Text) :
    matchCsi ((Piece.erase digits).text ++ r) = some (digits.map Piece.digit, 75, r) := by
  have hdigits : ∀ u ∈ digits.map Piece.digit, (decide (48 ≤ u) && decide (u ≤ 63)) = true := by
    intro u hu
    obtain ⟨d, -, rfl⟩ := List.mem_map.1 hu
    have hdigit : ∀ d, (decide (48 ≤ Piece.digit d) && decide (Piece.digit d ≤ 63)) = true := by decide
    exact hdigit d
  obtain ⟨htake, hdrop⟩ := takeWhile_stop (t := 75 :: r) hdigits (by simp)
  show matchCsi (27 :: 91 :: (digits.map Piece.digit ++ [75] ++ r)) = _
  rw [List.append_assoc]
  simp only [matchCsi, List.singleton_append]
  rw [htake, hdrop]
  rfl

theorem removeAll_text (l : Line) : removeAll (fun t => (matchCsi t).map fun q => q.2.2) 0 (Line.text l) = Line.plain l := by
  induction l with
  | nil => rfl
  | cons p l ih =>
    cases p with
    | unit u => exact (removeAll_cons (escapes_csi u.1 (Line.text l) u.ne_esc)).trans (congrArg (u.1 :: ·) ih)
    | erase digits =>
      have hmatch := congrArg (Option.map fun q => q.2.2) (matchCsi_erase digits (Line.text l))
      exact (removeAll_match (by simp [Piece.text]) hmatch).trans ih

theorem mem_plain {l : Line} {u : UInt16} (h : u ∈ (Line.plain l)) : u = 9 ∨ u = 13 ∨ 32 ≤ u ∧ u ≤ 126 := by
  obtain ⟨p, -, hu⟩ := List.mem_flatMap.1 h
  cases p with
  | unit v =>
    rw [List.mem_singleton.1 hu]
    exact v.2
  | erase digits => cases hu

theorem stripEscapes_text (l : Line) : stripEscapes (Line.text l) = Line.plain l := by
  have hesc : 27 ∉ (Line.plain l) := fun h => Glyph.ne_esc ⟨27, mem_plain h⟩ rfl
  unfold stripEscapes
  simp only
  rw [removeAll_of_introduces (fun _ => matchOsc_of_introduces) (introduces_text l),
    removeAll_of_introduces (fun _ => matchString_of_introduces) (introduces_text l), removeAll_text]
  have htwo : removeAll matchTwoByte 0 ((Line.plain l) ++ []) = (Line.plain l) ++ removeAll matchTwoByte 0 [] := by
    refine removeAll_kept fun t ht hsuffix => ?_
    obtain ⟨v, t, rfl⟩ := List.exists_cons_of_ne_nil ht
    refine escapes_twoByte v _ ?_
    rintro rfl
    exact hesc (hsuffix.subset List.mem_cons_self)
  rw [List.append_nil] at htwo
  rw [htwo]
  rw [show removeAll matchTwoByte 0 [] = [] from rfl, List.append_nil]
  exact List.filter_eq_self.2 fun u hu => by rw [Glyph.not_stray (mem_plain hu)]; rfl

end Line

/-! ### Frames -/

/-- Two frames have their tabs at the same places, as far as both reach. -/
def Agree (f g : Text) : Prop := ∀ (k : ℕ) (u v : UInt16), f[k]? = some u → g[k]? = some v → (u = 9 ↔ v = 9)

theorem Agree.tail {u v : UInt16} {f g : Text} (h : Agree (u :: f) (v :: g)) : Agree f g := fun k => h (k + 1)

theorem Agree.over {f g h : Text} (hf : Agree f h) (hg : Agree g h) : Agree (f ++ g.drop f.length) h := by
  intro k u v hk hv
  by_cases hlt : k < f.length
  · rw [List.getElem?_append_left hlt] at hk
    exact hf k u v hk hv
  · rw [List.getElem?_append_right (by omega), List.getElem?_drop, Nat.add_sub_cancel' (by omega)] at hk
    exact hg k u v hk hv

namespace Screen

@[simp] theorem type_nil (s : Screen) : s.type [] = s := rfl

@[simp] theorem type_cons (s : Screen) (u : UInt16) (t : Text) : s.type (u :: t) = (s.put u).type t := rfl

theorem type_append (s : Screen) (t t' : Text) : s.type (t ++ t') = (s.type t).type t' := List.foldl_append

/-- A cell in front of the cursor is not written, without a carriage return. -/
theorem type_update {t : Text} (ht : 13 ∉ t) (cells : ℕ → UInt16) {p column : ℕ} (hp : p < column) (u : UInt16) :
    (type ⟨Function.update cells p u, column⟩ t).cells = Function.update (type ⟨cells, column⟩ t).cells p u := by
  induction t generalizing cells column with
  | nil => rfl
  | cons v t ih =>
    have ht' : 13 ∉ t := fun h => ht (List.mem_cons_of_mem _ h)
    have hv : v ≠ 13 := fun h => ht (h ▸ List.mem_cons_self)
    rw [type_cons, type_cons]
    by_cases htab : v = 9
    · simp only [put, if_pos htab]
      have hstop : column < nextStop column := by unfold nextStop; omega
      exact ih ht' cells (by omega)
    · simp only [put, if_neg htab, if_neg hv]
      rw [Function.update_comm (by omega)]
      exact ih ht' _ (by omega)

/-- **A frame over another one.** -/
theorem paint_overlay {f g : Text} (hf : 13 ∉ f) (hg : 13 ∉ g) (h : Agree g f) (cells : ℕ → UInt16) (column : ℕ) :
    (type ⟨(type ⟨cells, column⟩ g).cells, column⟩ f).cells = (type ⟨cells, column⟩ (f ++ g.drop f.length)).cells := by
  induction f generalizing g cells column with
  | nil => rfl
  | cons u f ih =>
    cases g with
    | nil => simp
    | cons v g =>
      have hf' : 13 ∉ f := fun h => hf (List.mem_cons_of_mem _ h)
      have hg' : 13 ∉ g := fun h => hg (List.mem_cons_of_mem _ h)
      have hu : u ≠ 13 := fun h => hf (h ▸ List.mem_cons_self)
      have hv : v ≠ 13 := fun h => hg (h ▸ List.mem_cons_self)
      have huv : v = 9 ↔ u = 9 := h 0 v u rfl rfl
      rw [List.length_cons, List.drop_succ_cons, List.cons_append, type_cons, type_cons, type_cons]
      by_cases htab : u = 9
      · simp only [put, if_pos htab, if_pos (huv.2 htab)]
        exact ih hf' hg' h.tail cells _
      · simp only [put, if_neg htab, if_neg fun h => htab (huv.1 h), if_neg hu, if_neg hv]
        rw [type_update hg' cells (Nat.lt_succ_self column) v, Function.update_idem,
          ← type_update hg' cells (Nat.lt_succ_self column)]
        exact ih hf' hg' h.tail _ _

end Screen

/-- The frames of a text, each written from the start of the line. -/
theorem type_frames {f : Text} {fs : List Text} (s : Screen) :
    (s.type ([13].intercalate (f :: fs))).cells =
      fs.foldl (fun cells g => (Screen.type ⟨cells, 0⟩ g).cells) (s.type f).cells := by
  induction fs generalizing f s with
  | nil => simp
  | cons g fs ih =>
    rw [List.intercalate_cons_cons, Screen.type_append, Screen.type_append, ih]
    rfl

/-- **Frames that agree on their tabs** are overlaid as a terminal overwrites them. -/
theorem type_overlay {fs : List Text} (hfs : ∀ f ∈ fs, 13 ∉ f) (hagree : ∀ f ∈ fs, ∀ g ∈ fs, Agree f g) {g : Text}
    (hg : 13 ∉ g) (hgf : ∀ f ∈ fs, Agree g f) :
    fs.foldl (fun cells f => (Screen.type ⟨cells, 0⟩ f).cells) (Screen.blank.type g).cells =
      (Screen.blank.type (fs.foldl (fun cells f => f ++ cells.drop f.length) g)).cells := by
  induction fs generalizing g with
  | nil => rfl
  | cons f fs ih =>
    have hf := hfs f List.mem_cons_self
    rw [List.foldl_cons, List.foldl_cons, Screen.blank, Screen.paint_overlay hf hg (hgf f List.mem_cons_self)]
    refine ih (fun f' hf' => hfs f' (List.mem_cons_of_mem _ hf'))
      (fun f' hf' g' hg' => hagree f' (List.mem_cons_of_mem _ hf') g' (List.mem_cons_of_mem _ hg')) ?_ fun f' hf' => ?_
    · intro h
      rcases List.mem_append.1 h with h | h
      · exact hf h
      · exact hg (List.drop_subset _ _ h)
    · exact (hagree f List.mem_cons_self f' (List.mem_cons_of_mem _ hf')).over (hgf f' (List.mem_cons_of_mem _ hf'))

theorem length_splitOn (z : UInt16) (s : Text) : (s.splitOn z).length = s.count z + 1 := by
  induction s with
  | nil => simp
  | cons u s ih =>
    rw [List.splitOn_cons_eq_if_modifyHead]
    by_cases hu : u = z
    · simp [hu, ih]
    · simp [hu, ih]

/-! ### What is erased -/

namespace Screen

/-- The line writes something at the column `p`, from `column` on. -/
def writes (p : ℕ) : ℕ → Line → Prop
  | _, [] => False
  | column, .erase _ :: l => writes p column l
  | column, .unit u :: l =>
    if u.1 = 9 then writes p (nextStop column) l
    else if u.1 = 13 then writes p 0 l
    else column = p ∨ writes p (column + 1) l

/-- Behind what has been written, an erasure is of a blank at the column `p`, or of something that is overwritten. -/
def keeps (p : ℕ) : Screen → Line → Prop
  | _, [] => True
  | s, .unit u :: l => keeps p (s.put u.1) l
  | s, .erase digits :: l =>
    (erased (Piece.parameter digits) s.column p → s.cells p ≠ 32 → writes p s.column l) ∧ keeps p s l

def run (s : Screen) (l : Line) : Screen := l.foldl Screen.piece s

theorem column_put {s t : Screen} (h : s.column = t.column) (u : UInt16) : (s.put u).column = (t.put u).column := by
  unfold put
  split
  · exact congrArg nextStop h
  · split
    · rfl
    · exact congrArg (· + 1) h

/-- A terminal that erases, and one that does not. -/
theorem cells_run_iff {p : ℕ} {l : Line} {s t : Screen} (hcolumn : s.column = t.column)
    (hcell : s.cells p = t.cells p ∨ s.cells p = 32) :
    (s.run l).cells p = (t.type (Line.plain l)).cells p ↔
      (s.cells p = t.cells p ∨ writes p t.column l) ∧ keeps p t l := by
  induction l generalizing s t with
  | nil => simp [run, Line.plain, writes, keeps]
  | cons piece l ih =>
    cases piece with
    | unit u =>
      show ((s.put u.1).run l).cells p = ((t.put u.1).type (Line.plain l)).cells p ↔ _
      have hput := column_put hcolumn u.1
      by_cases htab : u.1 = 9
      · have hs : (s.put u.1).cells = s.cells := by simp [put, htab]
        have ht : (t.put u.1).cells = t.cells := by simp [put, htab]
        rw [ih hput (by rw [hs, ht]; exact hcell), hs, ht]
        simp [writes, keeps, put, htab]
      · by_cases hcr : u.1 = 13
        · have hs : (s.put u.1).cells = s.cells := by simp [put, hcr]
          have ht : (t.put u.1).cells = t.cells := by simp [put, hcr]
          rw [ih hput (by rw [hs, ht]; exact hcell), hs, ht]
          simp [writes, keeps, put, hcr]
        · have hs : (s.put u.1).cells = Function.update s.cells t.column u.1 := by simp [put, htab, hcr, hcolumn]
          have ht : (t.put u.1).cells = Function.update t.cells t.column u.1 := by simp [put, htab, hcr]
          have hc : (t.put u.1).column = t.column + 1 := by simp [put, htab, hcr]
          have hkeeps : keeps p t (.unit u :: l) = keeps p (t.put u.1) l := rfl
          have hwrites : writes p t.column (.unit u :: l) = (t.column = p ∨ writes p (t.column + 1) l) := by
            simp [writes, htab, hcr]
          by_cases hp : p = t.column
          · have heq : (s.put u.1).cells p = (t.put u.1).cells p := by rw [hs, ht, hp, Function.update_self, Function.update_self]
            rw [ih hput (.inl heq), hkeeps, hwrites]
            exact and_congr_left fun _ => iff_of_true (.inl heq) (.inr (.inl hp.symm))
          · have hs' : (s.put u.1).cells p = s.cells p := by rw [hs, Function.update_of_ne hp]
            have ht' : (t.put u.1).cells p = t.cells p := by rw [ht, Function.update_of_ne hp]
            rw [ih hput (by rw [hs', ht']; exact hcell), hs', ht', hc, hkeeps, hwrites]
            simp [Ne.symm hp]
    | erase digits =>
      show ((s.erase (Piece.parameter digits)).run l).cells p = (t.type (Line.plain l)).cells p ↔ _
      have hkeeps : keeps p t (.erase digits :: l) =
        ((erased (Piece.parameter digits) t.column p → t.cells p ≠ 32 → writes p t.column l) ∧ keeps p t l) := rfl
      have hwrites : writes p t.column (.erase digits :: l) = writes p t.column l := rfl
      rw [hkeeps, hwrites]
      by_cases he : erased (Piece.parameter digits) t.column p
      · have hs : (s.erase (Piece.parameter digits)).cells p = 32 := if_pos (by rw [hcolumn]; exact he)
        rw [ih (s := s.erase (Piece.parameter digits)) hcolumn (.inr hs), hs]
        constructor
        · rintro ⟨hw, hk⟩
          refine ⟨?_, fun _ hne => hw.resolve_left (Ne.symm hne), hk⟩
          rcases hcell with hcell | hcell
          · exact .inl hcell
          · exact hw.imp (fun h => hcell.trans h) id
        · rintro ⟨hw, hne, hk⟩
          refine ⟨?_, hk⟩
          by_cases hblank : t.cells p = 32
          · exact .inl hblank.symm
          · exact .inr (hne he hblank)
      · have hs : (s.erase (Piece.parameter digits)).cells p = s.cells p := if_neg (by rw [hcolumn]; exact he)
        rw [ih (s := s.erase (Piece.parameter digits)) hcolumn (by rw [hs]; exact hcell), hs]
        simp [he]

end Screen

/-! ### What is collapsed -/

namespace Line

/-- The line that is collapsed: without its erasures and without a carriage return at its end. -/
def body (l : Line) : Text := (splitCrlf (Line.plain l)).1

def frames (l : Line) : List Text := (body l).splitOn 13

/-- A line with inline code, or without an internal carriage return, is not collapsed. -/
def Collapsed (l : Line) : Prop := 13 ∈ body l ∧ 96 ∉ Line.plain l

def Aligned (l : Line) : Prop := ∀ f ∈ frames l, ∀ g ∈ frames l, Agree f g

/-- Every erasure is of blanks or of what is overwritten. -/
def Kept (l : Line) : Prop := ∀ p, Screen.keeps p Screen.blank l

/-- A line that has been collapsed shows what a terminal shows, and its marker counts its carriage returns. -/
def Shows (l : Line) : Prop :=
  ∀ shown marker, splitLines (stripSegment (Line.text l)) = [shown, marker] →
    (Screen.blank.type shown).cells = (Line.screen l).cells ∧ marker = crMarker ((body l).count 13)

theorem newline_notMem_text (l : Line) : 10 ∉ Line.text l := by
  intro h
  obtain ⟨p, -, hp⟩ := List.mem_flatMap.1 h
  cases p with
  | unit u =>
    obtain ⟨u, hu⟩ := u
    obtain rfl : 10 = u := List.mem_singleton.1 hp
    revert hu
    decide
  | erase digits =>
    simp only [Piece.text, List.mem_cons, List.mem_append, List.mem_map, List.not_mem_nil, or_false] at hp
    have hdigit : ∀ d, Piece.digit d ≠ 10 := by decide
    rcases hp with hp | hp | ⟨d, -, hd⟩ | hp
    · cases hp
    · cases hp
    · exact hdigit d hd
    · cases hp

theorem emitted (l : Line) : splitLines (stripSegment (Line.text l)) = emit (Line.plain l) := by
  rw [splitLines_stripSegment (introduces_text l) (newline_notMem_text l), stripEscapes_text]

theorem isSingleColumnAsciiFrame_body (l : Line) : isSingleColumnAsciiFrame (body l) = true := by
  refine List.all_eq_true.2 fun u hu => ?_
  have hmem : u ∈ Line.plain l := by
    rw [← splitCrlf_append (Line.plain l)]
    exact List.mem_append_left _ hu
  simpa [or_assoc] using mem_plain hmem

/-- The two lines that a collapsed line becomes. -/
theorem emit_plain (l : Line) :
    emit (Line.plain l) =
      if 13 ∈ body l ∧ 96 ∉ Line.plain l then
        [overlayFrames (frames l) ++ (splitCrlf (Line.plain l)).2, crMarker ((body l).count 13)]
      else [Line.plain l] := by
  have hover : overwritten (Line.plain l) =
      if 13 ∈ body l then
        some (overlayFrames (frames l) ++ (splitCrlf (Line.plain l)).2, crMarker ((body l).count 13))
      else none := by
    have hlength : (frames l).length - 1 = (body l).count 13 := by
      rw [frames, length_splitOn]
      rfl
    show (if (body l).contains 13 && isSingleColumnAsciiFrame (body l) then
      some (overlayFrames (frames l) ++ (splitCrlf (Line.plain l)).2, crMarker ((frames l).length - 1)) else none) = _
    rw [isSingleColumnAsciiFrame_body, Bool.and_true, hlength]
    simp only [List.contains_iff_mem]
  unfold emit keepsFrames collapseLine
  rw [hover]
  by_cases hcode : 96 ∈ Line.plain l
  · simp [hcode]
  · by_cases hcr : 13 ∈ body l
    · simp [hcode, hcr]
    · simp [hcode, hcr]

/-- What a text shows does not depend on a carriage return at its end. -/
theorem cells_splitCrlf (t : Text) (l : Line) :
    (Screen.blank.type (t ++ (splitCrlf (Line.plain l)).2)).cells = (Screen.blank.type t).cells := by
  rw [Screen.type_append]
  unfold splitCrlf
  split
  · rfl
  · rfl

theorem cells_body (l : Line) : (Screen.blank.type (body l)).cells = (Screen.blank.type (Line.plain l)).cells := by
  conv_rhs => rw [← splitCrlf_append (Line.plain l)]
  exact (cells_splitCrlf (body l) l).symm

theorem cells_overlay (l : Line) (h : Aligned l) :
    (Screen.blank.type (overlayFrames (frames l))).cells = (Screen.blank.type (Line.plain l)).cells := by
  have hbody : [13].intercalate (frames l) = body l := List.intercalate_splitOn 13
  have hcr : ∀ f ∈ frames l, 13 ∉ f := fun f hf => (mem_splitOn hf).1
  unfold Aligned at h
  rw [← cells_body, ← hbody]
  obtain ⟨f, fs, hf⟩ := List.exists_cons_of_ne_nil (List.splitOn_ne_nil 13 (body l))
  rw [show frames l = f :: fs from hf] at h hcr ⊢
  rw [type_frames, type_overlay (fun g hg => hcr g (List.mem_cons_of_mem _ hg))
    (fun g hg g' hg' => h g (List.mem_cons_of_mem _ hg) g' (List.mem_cons_of_mem _ hg')) (hcr f List.mem_cons_self)
    fun g hg => h f List.mem_cons_self g (List.mem_cons_of_mem _ hg)]
  simp [overlayFrames]

theorem kept_iff (l : Line) : (Line.screen l).cells = (Screen.blank.type (Line.plain l)).cells ↔ Kept l := by
  rw [funext_iff]
  refine forall_congr' fun p => ?_
  have h := Screen.cells_run_iff (p := p) (l := l) (s := Screen.blank) (t := Screen.blank) rfl (.inl rfl)
  exact h.trans (and_iff_right (.inl rfl))

/-- **Collapsing shows what a terminal shows** of a line whose frames agree on their tabs, exactly if no erasure is of something
that is not overwritten. -/
theorem shows_iff_of_aligned {l : Line} (h : Collapsed l → Aligned l) : Shows l ↔ (Collapsed l → Kept l) := by
  unfold Shows
  rw [emitted]
  by_cases hc : Collapsed l
  · rw [(emit_plain l).trans (if_pos hc)]
    constructor
    · intro hshows _
      have hcells := (hshows _ _ rfl).1
      rw [cells_splitCrlf, cells_overlay l (h hc)] at hcells
      exact (kept_iff l).1 hcells.symm
    · rintro hkept shown marker hlines
      obtain ⟨rfl, hmarker⟩ := List.cons.inj hlines
      rw [cells_splitCrlf, cells_overlay l (h hc), (kept_iff l).2 (hkept hc)]
      exact ⟨rfl, (List.cons.inj hmarker).1.symm⟩
  · rw [(emit_plain l).trans (if_neg hc)]
    exact iff_of_true (fun _ _ hlines => by cases hlines) fun hcollapsed => absurd hcollapsed hc

theorem aligned_of_notMem {l : Line} (h : 9 ∉ body l) : Aligned l := by
  have hne : ∀ f ∈ frames l, ∀ (k : ℕ) u, f[k]? = some u → u ≠ 9 := by
    rintro f hf k u hk rfl
    exact h ((mem_splitOn hf).2 9 (List.mem_of_getElem? hk))
  intro f hf g hg k u v hu hv
  exact iff_of_false (hne f hf k u hu) (hne g hg k v hv)

end Line

/-- **Carriage returns are collapsed to what a terminal shows.**  The lines of a text that introduce no control string are
stripped one by one, and such a line of a terminal shows what it shows there, if it is not collapsed, or its frames agree on their
tabs and no erasure is of something that is not overwritten; where the frames agree, only then. -/
theorem stripAnsi_shows (s : Text) (l : Line) :
    (hasDangerousSequences s = false →
      (∀ seg ∈ segments (splitLines s), seg.fenced = false → ∀ t ∈ seg.lines, introduces t = false) →
        splitLines (stripAnsi s).1 = mapLines (fun lines => lines.flatMap fun t => splitLines (stripSegment t)) (splitLines s)) ∧
      introduces (Line.text l) = false ∧
      ((Line.Collapsed l → Line.Aligned l ∧ Line.Kept l) → Line.Shows l) ∧
      (Line.Aligned l → Line.Shows l → Line.Collapsed l → Line.Kept l) := by
  refine ⟨splitLines_stripAnsi, Line.introduces_text l, fun h => ?_, fun h => ?_⟩
  · exact (Line.shows_iff_of_aligned fun hc => (h hc).1).2 fun hc => (h hc).2
  · exact (Line.shows_iff_of_aligned fun _ => h).1

/-- A tab and `a`; then, behind a carriage return and an erasure, a tab and `b`. -/
def tabbed : Line :=
  [.unit ⟨9, by decide⟩, .unit ⟨97, by decide⟩, .unit ⟨13, by decide⟩, .erase [], .unit ⟨9, by decide⟩, .unit ⟨98, by decide⟩]

/-- What is erased is written again. -/
theorem stripAnsi_shows_overwritten : Line.Shows tabbed := by
  refine (stripAnsi_shows [] tabbed).2.2.1 fun _ => ⟨?_, fun p => ⟨fun _ hcell => ?_, trivial⟩⟩
  · have hframes : Line.frames tabbed = [[9, 97], [9, 98]] := by decide +kernel
    have hagree (x y : UInt16) (hx : x ≠ 9) (hy : y ≠ 9) : Agree [9, x] [9, y] := by
      intro k u v hu hv
      rcases k with _ | _ | k
      · exact iff_of_true (Option.some.inj hu).symm (Option.some.inj hv).symm
      · rw [← Option.some.inj hu, ← Option.some.inj hv]
        exact iff_of_false hx hy
      · cases hu
    intro f hf g hg
    rw [hframes] at hf hg
    rcases List.mem_pair.1 hf with rfl | rfl <;> rcases List.mem_pair.1 hg with rfl | rfl <;> exact hagree _ _ (by decide) (by decide)
  · left
    by_contra hp
    exact hcell (Function.update_of_ne (Ne.symm hp) _ _)

/-- `abcdef`, an erasure behind a carriage return, and `XY`. -/
def rewritten : Line :=
  (text "abcdef").filterMap (fun u => if h : u = 9 ∨ u = 13 ∨ 32 ≤ u ∧ u ≤ 126 then some (.unit ⟨u, h⟩) else none) ++
    [.unit ⟨13, by decide⟩, .erase [], .unit ⟨88, by decide⟩, .unit ⟨89, by decide⟩]

/-- The erasure is dropped, and the end of the first frame is shown. -/
theorem not_shows_rewritten :
    (stripAnsi (Line.text rewritten)).1 = text "XYcdef\n[[gateway-cr:v1 frames=1]]" ∧ ¬Line.Shows rewritten := by
  refine ⟨by decide +kernel, fun h => ?_⟩
  have hcells := (h (text "XYcdef") (text "[[gateway-cr:v1 frames=1]]") (by decide +kernel)).1
  exact absurd (congrFun hcells 2) (by decide +kernel)

end LlmGateway.Compressor
