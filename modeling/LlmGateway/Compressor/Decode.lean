import Mathlib.Data.List.Forall2
import LlmGateway.Compressor.Lines

/-!
# Decoding what the compressor wrote

* `decode` — the note is dropped, a repeat marker becomes copies of the line before it, an escaped line loses its prefix;
* `decode_normalizeLines` — decoding undoes escaping and folding, behind the white space transform;
* `compact_decodable` — every text on the log and plain routes.
-/

namespace LlmGateway.Compressor

open LlmGateway.Lib.Utf16

/-! ### The decoder -/

/-- What stands between two texts. -/
def between (front back s : Text) : Option Text :=
  if front.isPrefixOf s && back.isSuffixOf (s.drop front.length) then
    some ((s.drop front.length).take (s.length - front.length - back.length))
  else none

/-- A number as `decimal` writes it. -/
def readDecimal (s : Text) : Option ℕ :=
  let n := Nat.ofDigitChars 10 (s.map fun u => Char.ofNat u.toNat) 0
  if decimal n = s then some n else none

/-- `[[gateway-repeat:v1 lines=1 count=n]]` -/
def readRepeat (line : Text) : Option ℕ :=
  (between (text "[[gateway-repeat:v1 lines=1 count=") (text "]]") line).bind readDecimal

def isNote (line : Text) : Bool :=
  match between (text "[[gateway-note:v1 folded=") noteText line with
  | some counts =>
    (readDecimal (counts.takeWhile isDigit)).isSome &&
      ((between (text " escaped=") [] (counts.dropWhile isDigit)).bind readDecimal).isSome
  | none => false

def stripLit (line : Text) : Text := if LIT_MARKER.isPrefixOf line then line.drop LIT_MARKER.length else line

/-- The lines of an unfenced segment, behind a line `before`. -/
def decodeFrom : Option Text → List Text → List Text
  | _, [] => []
  | before, line :: lines =>
    match readRepeat line with
    | some n => before.toList.flatMap (List.replicate (n - 1)) ++ decodeFrom before lines
    | none => stripLit line :: decodeFrom (some (stripLit line)) lines

def dropNote : List Text → List Text
  | line :: lines => if isNote line then lines else line :: lines
  | [] => []

def decode (s : Text) : Text := joinLines (mapLines (decodeFrom none) (dropNote (splitLines s)))

/-! ### The same lines, tidied -/

/-- The lines of one text in another: trimmed, and of at least three blank lines in a row the first. -/
inductive Tidied : List Text → List Text → Prop
  | nil : Tidied [] []
  | line {l m : Text} {ls ms : List Text} (h : Trimmed l m) (hrest : Tidied ls ms) : Tidied (l :: ls) (m :: ms)
  | blanks {l m : Text} {run ls ms : List Text} (h : Trimmed l m) (hm : isBlank m) (hlong : 2 ≤ run.length)
    (hrun : ∀ b ∈ run, ∃ b', Trimmed b b' ∧ isBlank b') (hrest : Tidied ls ms) : Tidied (l :: (run ++ ls)) (m :: ms)

/-- A segment of one text in another: byte for byte when it is fenced, else tidied. -/
def SameSegment (a b : Segment) : Prop :=
  a.fenced = b.fenced ∧ (a.fenced = true → a.lines = b.lines) ∧ (a.fenced = false → Tidied a.lines b.lines)

/-! ### Numbers -/

@[simp] theorem readDecimal_decimal (n : ℕ) : readDecimal (decimal n) = some n := by
  have hvalue : Nat.ofDigitChars 10 ((decimal n).map fun u => Char.ofNat u.toNat) 0 = n := by
    rw [decimal_eq, List.map_map]
    have hid : (Nat.toDigits 10 n).map ((fun u : UInt16 => Char.ofNat u.toNat) ∘ fun c => c.toNat.toUInt16) =
        (Nat.toDigits 10 n).map id := by
      refine List.map_congr_left ?_
      intro c hc
      have hd := toNat_of_isDigit (Nat.isDigit_of_mem_toDigits (by omega) (by omega) hc)
      simp [Nat.toUInt16, Nat.mod_eq_of_lt (show c.toNat < 65536 by omega)]
    rw [hid, List.map_id, Nat.ofDigitChars_ten_toDigits]
  simp only [readDecimal, hvalue, if_true]

theorem between_append (front mid back : Text) : between front back (front ++ mid ++ back) = some mid := by
  have hfront : front.isPrefixOf (front ++ mid ++ back) := by simp [List.isPrefixOf_iff_prefix, List.append_assoc]
  have hdrop : (front ++ mid ++ back).drop front.length = mid ++ back := by simp [List.append_assoc]
  have hlength : (front ++ mid ++ back).length - front.length - back.length = mid.length := by
    simp only [List.length_append]
    omega
  unfold between
  rw [hdrop, hfront, hlength]
  simp

theorem between_isPrefix {front back s mid : Text} (h : between front back s = some mid) : front <+: s := by
  unfold between at h
  split at h
  · rename_i hp
    rw [Bool.and_eq_true] at hp
    exact List.isPrefixOf_iff_prefix.1 hp.1
  · cases h

@[simp] theorem readRepeat_repeatMarker (n : ℕ) : readRepeat (repeatMarker 1 n) = some n := by
  have hfront : text "[[gateway-repeat:v1 lines=" ++ decimal 1 ++ text " count=" = text "[[gateway-repeat:v1 lines=1 count=" := by
    decide +kernel
  unfold readRepeat repeatMarker
  rw [hfront, between_append]
  simp

/-! ### Lines that look like a marker -/

/-- A line that does not look like a marker is none. -/
theorem readRepeat_eq_none {line : Text} (h : ¬text "[[gateway-repeat:v1 lines=1 count=" <+: line) : readRepeat line = none := by
  cases hb : between (text "[[gateway-repeat:v1 lines=1 count=") (text "]]") line with
  | none => simp [readRepeat, hb]
  | some mid => exact absurd (between_isPrefix hb) h

/-- **A line is read back** from what escaping and trimming make of it. -/
theorem coded_line (line : Text) : readRepeat (stripLine (escapeLine line)) = none ∧
    stripLit (stripLine (escapeLine line)) = stripLine line ∧ isBlank (stripLine (escapeLine line)) = isBlank (stripLine line) := by
  unfold escapeLine
  split
  · rename_i h
    rw [stripLine_lit h]
    refine ⟨readRepeat_eq_none ?_, ?_, ?_⟩
    · intro hp
      have hlit := (List.prefix_append LIT_MARKER (stripLine line))
      rcases List.prefix_or_prefix_of_prefix hp hlit with hp | hp
      · exact absurd hp (by decide)
      · exact absurd hp (by decide)
    · simp [stripLit, List.isPrefixOf_iff_prefix]
    · have hblank : isBlank (stripLine line) = false := by
        by_contra hblank
        have hspace := (trimmed_stripLine line).isBlankLine (by simpa using hblank)
        exact absurd (List.all_eq_true.1 hspace 91 (bracket_mem h)) (by decide)
      rw [hblank]
      rfl
  · rename_i h
    have hnot := not_sentinel_stripLine (by simpa using h)
    refine ⟨readRepeat_eq_none ?_, ?_, rfl⟩
    · exact fun hp => hnot (List.IsPrefix.trans (by decide) hp)
    · rw [stripLit, if_neg]
      rw [List.isPrefixOf_iff_prefix]
      exact fun hp => hnot (SENTINEL_prefix_lit.trans hp)

/-! ### Lists of coded lines -/

/-- Lines with markers, and what they stand for. -/
inductive Coded : List Text → List Text → Prop
  | nil : Coded [] []
  | line {x y : Text} {xs ys : List Text} (hread : readRepeat x = none) (hlit : stripLit x = y) (hblank : isBlank x = isBlank y)
    (hrest : Coded xs ys) : Coded (x :: xs) (y :: ys)
  | fold {x y m : Text} {n : ℕ} {xs ys : List Text} (hread : readRepeat x = none) (hlit : stripLit x = y)
    (hx : isBlank x = false) (hy : isBlank y = false) (hmarker : readRepeat m = some (n + 1)) (hm : isBlank m = false)
    (hrest : Coded xs ys) : Coded (x :: m :: xs) (List.replicate (n + 1) y ++ ys)

theorem Coded.replicate {x y : Text} {xs ys : List Text} (hread : readRepeat x = none) (hlit : stripLit x = y)
    (hblank : isBlank x = isBlank y) (h : Coded xs ys) (n : ℕ) : Coded (List.replicate n x ++ xs) (List.replicate n y ++ ys) := by
  induction n with
  | zero => exact h
  | succ n ih => exact .line hread hlit hblank ih

theorem isBlank_iff {line : Text} : isBlank line = true ↔ line = [] ∨ line = [13] := by
  simp [isBlank]

theorem decodeFrom_blanks {run : List Text} (hrun : ∀ b ∈ run, isBlank b = true) (before : Option Text) (xs : List Text) :
    ∃ before', decodeFrom before (run ++ xs) = run ++ decodeFrom before' xs := by
  induction run generalizing before with
  | nil => exact ⟨before, rfl⟩
  | cons b run ih =>
    have hb : readRepeat b = none ∧ stripLit b = b := by
      rcases isBlank_iff.1 (hrun b List.mem_cons_self) with rfl | rfl
      · exact ⟨readRepeat_eq_none (by decide), rfl⟩
      · exact ⟨readRepeat_eq_none (by decide), rfl⟩
    obtain ⟨before', h⟩ := ih (fun b hb => hrun b (List.mem_cons_of_mem _ hb)) (some b)
    refine ⟨before', ?_⟩
    rw [List.cons_append, decodeFrom, hb.1, hb.2]
    simp only
    rw [h]
    rfl

theorem closeRun_blank {run : List Text} (hrun : ∀ b ∈ run, isBlank b = true) : ∀ b ∈ closeRun run, isBlank b = true := by
  unfold closeRun
  split
  · exact hrun
  · exact fun b hb => hrun b (List.mem_of_mem_take hb)

theorem collapseFrom_lines {zs : List Text} (hzs : ∀ z ∈ zs, isBlank z = false) (ys : List Text) :
    collapseFrom [] (zs ++ ys) = zs ++ collapseFrom [] ys := by
  induction zs with
  | nil => rfl
  | cons z zs ih =>
    have hz := hzs z List.mem_cons_self
    rw [List.cons_append, collapseFrom, hz]
    simp [closeRun, ih fun z hz => hzs z (List.mem_cons_of_mem _ hz)]

/-- **Decoding and collapsing commute.** -/
theorem Coded.decodeFrom_collapseFrom {xs ys : List Text} (h : Coded xs ys) :
    ∀ run, (∀ b ∈ run, isBlank b = true) → ∀ before, decodeFrom before (collapseFrom run xs) = collapseFrom run ys := by
  induction h with
  | nil =>
    intro run hrun before
    obtain ⟨before', h⟩ := decodeFrom_blanks (closeRun_blank hrun) before []
    simpa [collapseFrom, decodeFrom] using h
  | @line x y xs ys hread hlit hblank hrest ih =>
    intro run hrun before
    rw [collapseFrom, collapseFrom]
    split
    · rename_i hx
      obtain rfl : x = y := by
        rw [← hlit]
        rcases isBlank_iff.1 hx with rfl | rfl
        · rfl
        · rfl
      rw [if_pos hx]
      refine ih (run ++ [x]) ?_ before
      intro b hb
      rcases List.mem_append.1 hb with hb | hb
      · exact hrun b hb
      · rw [List.mem_singleton.1 hb, hx]
    · rename_i hx
      rw [if_neg (hblank ▸ hx)]
      obtain ⟨before', h⟩ := decodeFrom_blanks (closeRun_blank hrun) before (x :: collapseFrom [] xs)
      rw [h, decodeFrom, hread]
      simp only
      rw [hlit, ih [] (by simp)]
  | @fold x y m n xs ys hread hlit hx hy hmarker hm hrest ih =>
    intro run hrun before
    have hcopies : ∀ z ∈ List.replicate n y, isBlank z = false := by
      intro z hz
      rw [List.eq_of_mem_replicate hz, hy]
    have hcoded : collapseFrom run (x :: m :: xs) = closeRun run ++ x :: m :: collapseFrom [] xs := by
      simp [collapseFrom, hx, hm, closeRun]
    have hdecoded : collapseFrom run (y :: (List.replicate n y ++ ys)) =
        closeRun run ++ y :: (List.replicate n y ++ collapseFrom [] ys) := by
      rw [collapseFrom, if_neg (by simp [hy]), collapseFrom_lines hcopies]
    rw [List.replicate_succ, List.cons_append, hcoded, hdecoded]
    obtain ⟨before', h⟩ := decodeFrom_blanks (closeRun_blank hrun) before (x :: m :: collapseFrom [] xs)
    rw [h, decodeFrom, hread]
    simp only
    rw [hlit, decodeFrom, hmarker]
    simp only
    rw [ih [] (by simp)]
    simp

/-! ### The transforms of the routes -/

theorem coded_emitRun (l : Text) {n : ℕ} (hn : 2 ≤ n → isBlankLine (escapeLine l) = false) {xs ys : List Text} (h : Coded xs ys) :
    Coded ((emitRun (escapeLine l) n).map stripLine ++ xs) (List.replicate n (stripLine l) ++ ys) := by
  obtain ⟨hread, hlit, hblank⟩ := coded_line l
  unfold emitRun
  split
  · rename_i hrun
    obtain ⟨k, rfl⟩ : ∃ k, n = k + 1 := ⟨n - 1, by simp only [MIN_RUN] at hrun; omega⟩
    have hx : isBlank (stripLine (escapeLine l)) = false := by
      by_contra hb
      have := (trimmed_stripLine (escapeLine l)).isBlankLine (by simpa using hb)
      rw [hn (by simp only [MIN_RUN] at hrun; omega)] at this
      cases this
    simp only [List.map_cons, List.map_nil, List.cons_append, List.nil_append, stripLine_repeatMarker]
    exact .fold hread hlit hx (hblank ▸ hx) (readRepeat_repeatMarker _) (isBlank_repeatMarker _) h
  · rw [List.map_replicate]
    exact h.replicate hread hlit hblank n

theorem coded_dedupFrom (l : Text) (n : ℕ) (hn : 2 ≤ n → isBlankLine (escapeLine l) = false) (rest : List Text) :
    Coded ((dedupFrom (escapeLine l) n (rest.map escapeLine)).1.map stripLine)
      (List.replicate n (stripLine l) ++ rest.map stripLine) := by
  induction rest generalizing l n with
  | nil => simpa [dedupFrom] using coded_emitRun l hn .nil
  | cons next rest ih =>
    rw [List.map_cons, dedupFrom]
    split
    · rename_i h
      obtain ⟨hsame, hblank⟩ := h
      have hstrip : stripLine next = stripLine l := by
        rw [← (coded_line next).2.1, hsame, (coded_line l).2.1]
      have := ih l (n + 1) (fun _ => hblank)
      rw [List.replicate_succ', List.append_assoc] at this
      rw [List.map_cons, hstrip]
      exact this
    · have hnext := ih next 1 (by omega)
      rw [List.map_append]
      exact coded_emitRun l hn hnext

theorem coded_dedupLines (ls : List Text) :
    Coded ((dedupLines (ls.map escapeLine)).1.map stripLine) (ls.map stripLine) := by
  cases ls with
  | nil => exact .nil
  | cons l ls => exact coded_dedupFrom l 1 (by omega) ls

theorem coded_map (ls : List Text) : Coded ((ls.map escapeLine).map stripLine) (ls.map stripLine) := by
  induction ls with
  | nil => exact .nil
  | cons l ls ih =>
    obtain ⟨hread, hlit, hblank⟩ := coded_line l
    exact .line hread hlit hblank ih

/-- **Decoding undoes escaping and folding**, behind the white space transform. -/
theorem decode_normalizeLines (route : ContentRoute) (ls : List Text) :
    decodeFrom none (normalizeLines (routeLines route ls)) = normalizeLines ls := by
  have hcoded : Coded ((routeLines route ls).map stripLine) (ls.map stripLine) := by
    unfold routeLines
    split
    · exact coded_dedupLines ls
    · exact coded_map ls
  exact hcoded.decodeFrom_collapseFrom [] (by simp) none

/-! ### Tidied lines -/

theorem tidied_closeRun {pending ls ms : List Text} (hpending : ∀ l ∈ pending, isBlank (stripLine l) = true)
    (h : Tidied ls ms) : Tidied (pending ++ ls) (closeRun (pending.map stripLine) ++ ms) := by
  unfold closeRun
  split
  · clear hpending
    induction pending with
    | nil => exact h
    | cons l pending ih =>
      refine .line (trimmed_stripLine l) (ih ?_)
      simp only [List.map_cons, List.length_cons] at *
      omega
  · rename_i hlong
    cases pending with
    | nil => simp at hlong
    | cons l pending =>
      simp only [List.map_cons, List.length_cons, List.length_map] at hlong
      refine .blanks (trimmed_stripLine l) (hpending l List.mem_cons_self) (by omega) ?_ h
      exact fun b hb => ⟨stripLine b, trimmed_stripLine b, hpending b (List.mem_cons_of_mem _ hb)⟩

theorem tidied_collapseFrom (pending ls : List Text) (hpending : ∀ l ∈ pending, isBlank (stripLine l) = true) :
    Tidied (pending ++ ls) (collapseFrom (pending.map stripLine) (ls.map stripLine)) := by
  induction ls generalizing pending with
  | nil => simpa [collapseFrom] using tidied_closeRun hpending .nil
  | cons line ls ih =>
    rw [List.map_cons, collapseFrom]
    split
    · rename_i hblank
      have := ih (pending ++ [line]) ?_
      · simpa using this
      · intro l hl
        rcases List.mem_append.1 hl with hl | hl
        · exact hpending l hl
        · rw [List.mem_singleton.1 hl, hblank]
    · exact tidied_closeRun hpending (.line (trimmed_stripLine line) (ih [] (by simp)))

theorem tidied_normalizeLines (ls : List Text) : Tidied ls (normalizeLines ls) := tidied_collapseFrom [] ls (by simp)

/-- A line with a backtick is trimmed to itself, and no other is trimmed to it. -/
theorem Trimmed.code {l m : Text} (h : Trimmed l m) : (l.contains 96 = true → m = l) ∧ l.contains 96 = m.contains 96 := by
  cases h with
  | same => exact ⟨fun _ => rfl, rfl⟩
  | @trim body white eol hcode hwhite heol =>
    have hnone : ∀ front : Text, 96 ∉ front → (front ++ eol).contains 96 = false := by
      intro front hfront
      rw [List.contains_append]
      rcases heol with rfl | rfl
      · simp [hfront]
      · simp [hfront]
    have hwhite' : 96 ∉ white := by
      intro hmem
      rcases hwhite 96 hmem with h | h
      · cases h
      · cases h
    have hl := hnone (body ++ white) (by simp [hcode, hwhite'])
    refine ⟨fun h => ?_, ?_⟩
    · rw [hl] at h
      cases h
    · rw [hl, hnone body hcode]

theorem Tidied.head {ls ms : List Text} (h : Tidied ls ms) : ∀ m, ms.head? = some m → ∃ l, ls.head? = some l ∧ Trimmed l m := by
  intro m hm
  cases h with
  | nil => cases hm
  | line h _ =>
    cases hm
    exact ⟨_, rfl, h⟩
  | blanks h _ _ _ _ =>
    cases hm
    exact ⟨_, rfl, h⟩

/-- **Lines with inline code are kept**, one for one. -/
theorem Tidied.code {ls ms : List Text} (h : Tidied ls ms) :
    ms.filter (·.contains 96) = ls.filter (·.contains 96) := by
  have hblank : ∀ {l m : Text}, Trimmed l m → isBlank m = true → l.contains 96 = false := by
    intro l m h hm
    rw [h.code.2]
    rcases isBlank_iff.1 hm with rfl | rfl
    · rfl
    · rfl
  induction h with
  | nil => rfl
  | @line l m ls ms h _ ih =>
    rw [List.filter_cons, List.filter_cons, ← h.code.2, ih]
    split
    · rename_i hcode
      rw [h.code.1 hcode]
    · rfl
  | @blanks l m run ls ms h hm _ hrun _ ih =>
    have hrun' : run.filter (·.contains 96) = [] := by
      refine List.filter_eq_nil_iff.2 ?_
      intro b hb
      obtain ⟨b', htrim, hb'⟩ := hrun b hb
      rw [hblank htrim hb']
      exact Bool.false_ne_true
    have hl : ¬l.contains 96 = true := by
      rw [hblank h hm]
      exact Bool.false_ne_true
    have hm' : ¬m.contains 96 = true := h.code.2 ▸ hl
    rw [List.filter_cons, List.filter_cons, if_neg hm', if_neg hl, List.filter_append, hrun', ih]
    rfl

/-! ### The note -/

theorem isNote_noteLine (folded escaped : ℕ) : isNote (noteLine folded escaped) = true := by
  have hcounts : between (text "[[gateway-note:v1 folded=") noteText (noteLine folded escaped) =
      some (decimal folded ++ text " escaped=" ++ decimal escaped) := by
    have := between_append (text "[[gateway-note:v1 folded=") (decimal folded ++ text " escaped=" ++ decimal escaped) noteText
    simpa only [noteLine, List.append_assoc] using this
  have hdigits : ∀ u ∈ decimal folded, isDigit u = true := by
    intro u hu
    simpa [isDigit] using isDigit_of_mem_decimal hu
  have hspace : ∃ s, text " escaped=" ++ decimal escaped = 32 :: s := ⟨_, rfl⟩
  obtain ⟨s, hs⟩ := hspace
  have htake : (decimal folded ++ text " escaped=" ++ decimal escaped).takeWhile isDigit = decimal folded := by
    rw [List.append_assoc, hs, List.takeWhile_append_of_pos hdigits]
    simp [isDigit]
  have hdrop : (decimal folded ++ text " escaped=" ++ decimal escaped).dropWhile isDigit = text " escaped=" ++ decimal escaped := by
    rw [List.append_assoc, hs, List.dropWhile_append_of_pos hdigits]
    simp [isDigit]
  have hescaped := between_append (text " escaped=") (decimal escaped) []
  rw [List.append_nil] at hescaped
  unfold isNote
  rw [hcounts]
  simp only
  rw [htake, hdrop, hescaped]
  simp

theorem isNote_sentinel {line : Text} (h : isNote line = true) : SENTINEL_PREFIX <+: line := by
  unfold isNote at h
  split at h
  · rename_i counts hcounts
    exact List.IsPrefix.trans (by decide) (between_isPrefix hcounts)
  · cases h

/-! ### The log and plain routes -/

section Routes

variable {route : ContentRoute} {s : Text}

/-- Without a marker, no line of an unfenced segment looks like one. -/
theorem unmarked (hroute : route ≠ .ansiText)
    (hzero : (transform route s).counts.folded + (transform route s).counts.escaped = 0) {seg : Segment}
    (hseg : seg ∈ segments (splitLines s)) (hf : seg.fenced = false) :
    ∀ x ∈ editLines route seg.lines, ¬SENTINEL_PREFIX <+: x := by
  have hlines : ∀ l ∈ splitLines s, 10 ∉ l := fun l hl => newline_not_mem hl
  have hescaped : ∀ l ∈ seg.lines, opensSentinel l = false := by
    have hcount : countUnfenced s (fun t => ((splitLines t).filter opensSentinel).length) = 0 := by
      have : (transform route s).counts.escaped = countUnfenced s fun t => ((splitLines t).filter opensSentinel).length := by
        by_cases hlog : route = .log
        · simp [transform, hlog, Work.apply, escapeSentinelLikeLines, dedupAdjacentLines]
        · simp [transform, hroute, hlog, Work.apply, escapeSentinelLikeLines]
      omega
    have := @countUnfenced_eq_zero s (fun ls => (ls.filter opensSentinel).length) hcount seg hseg hf
    rw [List.length_eq_zero_iff, List.filter_eq_nil_iff] at this
    exact fun l hl => by simpa using this l hl
  have hsame : seg.lines.map escapeLine = seg.lines := by
    have : seg.lines.map escapeLine = seg.lines.map id := by
      refine List.map_congr_left ?_
      intro l hl
      simp [escapeLine, hescaped l hl]
    rw [this, List.map_id]
  have hroutes : routeLines route seg.lines = seg.lines := by
    unfold routeLines
    split
    · rename_i hlog
      subst hlog
      have hcount : countUnfenced (escapeSentinelLikeLines s).1 (fun t => (dedupLines (splitLines t)).2) = 0 := by
        have : (transform .log s).counts.folded =
            countUnfenced (escapeSentinelLikeLines s).1 fun t => (dedupLines (splitLines t)).2 := by
          simp [transform, Work.apply, escapeSentinelLikeLines, dedupAdjacentLines]
        omega
      have hmem : seg.edit (List.map escapeLine) ∈ segments (splitLines (escapeSentinelLikeLines s).1) := by
        rw [splitLines_escape, unfencing_escape.segments hlines]
        exact List.mem_map_of_mem hseg
      have hdedup := @countUnfenced_eq_zero _ (fun ls => (dedupLines ls).2) hcount _ hmem (by simp [Segment.edit, hf])
      simp only [Segment.edit, hf, Bool.false_eq_true, if_false, hsame] at hdedup
      rw [hsame]
      cases hl : seg.lines with
      | nil => rfl
      | cons line ls =>
        rw [hl] at hdedup
        exact dedupFrom_zero hdedup
    · exact hsame
  intro x hx hp
  rw [editLines, hroutes] at hx
  obtain ⟨l, hl, rfl⟩ := mem_normalizeLines hx
  exact not_sentinel_stripLine (hescaped l hl) hp

/-- The decoder finds the note where there is one, and none where there is not. -/
theorem dropNote_transform (hroute : route ≠ .ansiText) :
    dropNote (splitLines (transform route s).note.current) = splitLines (transform route s).current := by
  by_cases hmarked : 0 < (transform route s).counts.folded + (transform route s).counts.escaped
  · rw [Work.note, if_pos hmarked]
    simp only
    rw [splitLines_note, dropNote, if_pos (isNote_noteLine _ _)]
  · rw [Work.note, if_neg hmarked]
    cases hcurrent : splitLines (transform route s).current with
    | nil => rfl
    | cons line lines =>
      rw [dropNote, if_neg]
      intro hnote
      have hp := isNote_sentinel hnote
      obtain ⟨rest, hrest⟩ := hp
      have hopen : fenceOpen line = none := by
        rw [← hrest]
        exact fenceOpen_bracket _
      obtain ⟨seg, hseg, hf, hmem⟩ := mem_precede [line] (segments lines)
      rw [← segments_cons hopen, ← hcurrent, segments_transform hroute] at hseg
      obtain ⟨seg, horigin, rfl⟩ := List.mem_map.1 hseg
      have hf' : seg.fenced = false := by rwa [Segment.fenced_edit] at hf
      have hline := hmem line (by simp)
      simp only [Segment.edit, hf', Bool.false_eq_true, if_false] at hline
      exact unmarked (s := s) hroute (by omega) horigin hf' line hline (isNote_sentinel hnote)

/-- **Decoding** what a route has made of a text gives the text back, tidied. -/
theorem decode_transform (hroute : route ≠ .ansiText) : decode (transform route s).note.current = normalizeWhitespace s := by
  have hlines : ∀ l ∈ splitLines s, 10 ∉ l := fun l hl => newline_not_mem hl
  have hdecode : mapLines (fun ls => decodeFrom none (editLines route ls)) (splitLines s) = mapLines normalizeLines (splitLines s) :=
    mapLines_congr hlines fun ls _ _ => decode_normalizeLines route ls
  rw [decode, dropNote_transform hroute, splitLines_transform hroute, (unfencing_edit route).mapLines_comp hlines, hdecode,
    ← splitLines_normalize, joinLines_splitLines]

theorem sameSegments_normalize (s : Text) :
    List.Forall₂ SameSegment (segments (splitLines s)) (segments (splitLines (normalizeWhitespace s))) := by
  rw [splitLines_normalize, unfencing_normalize.segments fun l hl => newline_not_mem hl, List.forall₂_map_right_iff,
    List.forall₂_same]
  intro seg _
  unfold Segment.edit
  cases hf : seg.fenced with
  | true => exact ⟨by simp [hf], fun _ => by simp, fun h => by rw [hf] at h; cases h⟩
  | false => exact ⟨by simp [hf], fun h => (by rw [hf] at h; cases h), fun _ => by simpa using tidied_normalizeLines seg.lines⟩

end Routes

/-- The lines with inline code are the same, one for one. -/
theorem code_of_sameSegments {as bs : List Segment} (h : List.Forall₂ SameSegment as bs) :
    (bs.flatMap Segment.lines).filter (·.contains 96) = (as.flatMap Segment.lines).filter (·.contains 96) := by
  induction h with
  | nil => rfl
  | @cons a b as bs hab _ ih =>
    have hlines : b.lines.filter (·.contains 96) = a.lines.filter (·.contains 96) := by
      cases hf : a.fenced with
      | true => rw [hab.2.1 hf]
      | false => exact (hab.2.2 hf).code
    rw [List.flatMap_cons, List.flatMap_cons, List.filter_append, List.filter_append, hlines, ih]

/-- **The log and plain routes keep their content.**  A text that `compact` changes is decoded to itself, tidied, with every line
of inline code as it was; its fences are byte for byte those of the text, and it is not longer. -/
theorem compact_decodable (estimateTokensSaved : Text → Text → ContentRoute → ℕ) (s : Text) (ctx : CompressCtx)
    (hroute : classify s = .log ∨ classify s = .plain) :
    let out := (compact estimateTokensSaved s ctx).text
    (out ≠ s →
      List.Forall₂ SameSegment (segments (splitLines s)) (segments (splitLines (decode out))) ∧
        (splitLines (decode out)).filter (·.contains 96) = (splitLines s).filter (·.contains 96)) ∧
      (splitFences out).filter (·.fenced) = (splitFences s).filter (·.fenced) ∧ out.length ≤ s.length := by
  have hansi : classify s ≠ .ansiText := by
    rcases hroute with h | h
    · simp [h]
    · simp [h]
  intro out
  have hsame := sameSegments_normalize s
  have hcode := code_of_sameSegments hsame
  rw [segments_flatMap, segments_flatMap] at hcode
  rcases @compact_text estimateTokensSaved s ctx hroute with h | ⟨h, hlt⟩
  · exact ⟨fun hne => absurd h hne, by rw [show out = s from h], by rw [show out = s from h]⟩
  · have hout : out = (transform (classify s) s).note.current := h
    refine ⟨fun _ => ?_, ?_, ?_⟩
    · rw [hout, decode_transform hansi]
      exact ⟨hsame, hcode⟩
    · rw [hout, fenced_note hansi]
    · rw [hout]
      omega

/-- A line whose white space goes. -/
def spacedText : Text := text "a   \n\n\n\nb"

theorem compact_decodable_spaced :
    let out := (compact (fun _ _ _ => 0) spacedText ⟨none, false⟩).text
    (out ≠ spacedText →
      List.Forall₂ SameSegment (segments (splitLines spacedText)) (segments (splitLines (decode out))) ∧
        (splitLines (decode out)).filter (·.contains 96) = (splitLines spacedText).filter (·.contains 96)) ∧
      (splitFences out).filter (·.fenced) = (splitFences spacedText).filter (·.fenced) ∧ out.length ≤ spacedText.length :=
  compact_decodable (fun _ _ _ => 0) spacedText ⟨none, false⟩ (.inr (by decide +kernel))

/-- A text on which nothing can be saved is returned as it is, and the decoder takes its first words for a marker. -/
theorem compact_not_decodable :
    classify (text "[[gateway-lit:v1]] done") = .plain ∧
      ¬List.Forall₂ SameSegment (segments (splitLines (text "[[gateway-lit:v1]] done")))
        (segments (splitLines (decode (compact (fun _ _ _ => 0) (text "[[gateway-lit:v1]] done") ⟨none, false⟩).text))) := by
  refine ⟨by decide +kernel, ?_⟩
  have horigin : segments (splitLines (text "[[gateway-lit:v1]] done")) = [⟨[text "[[gateway-lit:v1]] done"], false⟩] := by
    decide +kernel
  have hdecoded : segments (splitLines (decode (compact (fun _ _ _ => 0) (text "[[gateway-lit:v1]] done") ⟨none, false⟩).text)) =
      [⟨[text "done"], false⟩] := by decide +kernel
  rw [horigin, hdecoded]
  intro h
  cases h with
  | cons hsame _ =>
    have htidied := hsame.2.2 rfl
    obtain ⟨l, hl, htrim⟩ := htidied.head (text "done") rfl
    cases hl
    exact absurd (htrim.kept (by decide) (by decide)) (show (91 : UInt16) ∉ text "done" by decide)

end LlmGateway.Compressor
