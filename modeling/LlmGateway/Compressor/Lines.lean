import LlmGateway.Lib.Numeral
import LlmGateway.Compressor.Compact

/-!
# The lines of a compressed text

* `Trimmed` — what the white space transform does with a line;
* `segments_transform` — the segments of what a route makes of a text, without the leading note.
-/

namespace LlmGateway.Compressor

open LlmGateway.Lib.Utf16

/-! ### Lines of an unfenced segment -/

/-- A line of an unfenced segment. -/
def Plain (line : Text) : Prop := 10 ∉ line ∧ fenceOpen line = none

/-- An edit of unfenced segments. -/
def Unfencing (g : List Text → List Text) : Prop :=
  ∀ ls, ls ≠ [] → (∀ l ∈ ls, Plain l) → g ls ≠ [] ∧ ∀ l ∈ g ls, Plain l

theorem Unfencing.comp {f g : List Text → List Text} (hg : Unfencing g) (hf : Unfencing f) : Unfencing fun ls => g (f ls) := by
  intro ls hne hls
  obtain ⟨hne', hls'⟩ := hf ls hne hls
  exact hg _ hne' hls'

section Segments

variable {lines : List Text} {g : List Text → List Text}

theorem plain_of_unfenced (hlines : ∀ l ∈ lines, 10 ∉ l) {seg : Segment} (hseg : seg ∈ segments lines)
    (hf : seg.fenced = false) : seg.lines ≠ [] ∧ ∀ l ∈ seg.lines, Plain l := by
  have hof := segments_of seg hseg
  exact ⟨hof.ne_nil, fun l hl => ⟨hlines l (hof.mem l hl), hof.unopened hf l hl⟩⟩

theorem Unfencing.segments (hg : Unfencing g) (hlines : ∀ l ∈ lines, 10 ∉ l) :
    segments (mapLines g lines) = (segments lines).map (Segment.edit g) := by
  refine segments_mapLines ?_
  intro seg hseg hf
  obtain ⟨hne, hplain⟩ := plain_of_unfenced hlines hseg hf
  obtain ⟨hne', hplain'⟩ := hg _ hne hplain
  exact ⟨hne', fun l hl => (hplain' l hl).2⟩

theorem Unfencing.splitLines (hg : Unfencing g) (s : Text) :
    splitLines (mapUnfenced s fun t => joinLines (g (splitLines t))) = mapLines g (splitLines s) := by
  refine splitLines_mapUnfenced ?_
  intro seg hseg hf
  obtain ⟨hne, hplain⟩ := plain_of_unfenced (fun l hl => newline_not_mem hl) hseg hf
  obtain ⟨hne', hplain'⟩ := hg _ hne hplain
  exact ⟨hne', fun l hl => (hplain' l hl).1⟩

/-- Two edits, one after the other. -/
theorem Unfencing.mapLines_comp (hg : Unfencing g) (hlines : ∀ l ∈ lines, 10 ∉ l) (f : List Text → List Text) :
    mapLines f (mapLines g lines) = mapLines (fun ls => f (g ls)) lines := by
  rw [mapLines, hg.segments hlines, List.flatMap_map]
  unfold mapLines
  refine List.flatMap_congr ?_
  intro seg _
  cases hf : seg.fenced with
  | true => simp [Segment.edit, hf]
  | false => simp [Segment.edit, hf]

theorem mapLines_congr {f : List Text → List Text} (hlines : ∀ l ∈ lines, 10 ∉ l)
    (h : ∀ ls, ls ≠ [] → (∀ l ∈ ls, Plain l) → f ls = g ls) : mapLines f lines = mapLines g lines := by
  unfold mapLines
  refine List.flatMap_congr ?_
  intro seg hseg
  cases hf : seg.fenced with
  | true => simp [Segment.edit, hf]
  | false =>
    obtain ⟨hne, hplain⟩ := plain_of_unfenced hlines hseg hf
    simp [Segment.edit, hf, h _ hne hplain]

end Segments

/-! ### Trimming a line -/

/-- A line without spaces and tabs at its end, in front of its carriage return; one with a backtick is as it was. -/
inductive Trimmed : Text → Text → Prop
  | same (line : Text) : Trimmed line line
  | trim {body white eol : Text} (hcode : 96 ∉ body) (hwhite : ∀ u ∈ white, u = 32 ∨ u = 9) (heol : eol = [] ∨ eol = [13]) :
    Trimmed (body ++ white ++ eol) (body ++ eol)

theorem splitCrlf_append (line : Text) : (splitCrlf line).1 ++ (splitCrlf line).2 = line := by
  unfold splitCrlf
  split
  · rename_i h
    exact List.dropLast_append_getLast? 13 h
  · simp

theorem splitCrlf_eol (line : Text) : (splitCrlf line).2 = [] ∨ (splitCrlf line).2 = [13] := by
  unfold splitCrlf
  split
  · exact .inr rfl
  · exact .inl rfl

theorem mem_splitCrlf {line : Text} {u : UInt16} (h : u ∈ line) (hu : u ≠ 13) : u ∈ (splitCrlf line).1 := by
  rw [← splitCrlf_append line] at h
  rcases List.mem_append.1 h with h | h
  · exact h
  · rcases splitCrlf_eol line with heol | heol
    · simp [heol] at h
    · simp [heol, hu] at h

theorem trimmed_stripLine (line : Text) : Trimmed line (stripLine line) := by
  by_cases hcode : line.contains 96
  · rw [stripLine, if_pos hcode]
    exact .same line
  · have hline := splitCrlf_append line
    have hbody : (splitCrlf line).1.rdropWhile (fun u => u == 32 || u == 9) ++
        (splitCrlf line).1.rtakeWhile (fun u => u == 32 || u == 9) = (splitCrlf line).1 := List.rdropWhile_append_rtakeWhile ..
    rw [stripLine, if_neg hcode]
    rw [← hbody] at hline
    conv_lhs => rw [← hline]
    refine .trim ?_ ?_ (splitCrlf_eol line)
    · intro hmem
      refine hcode (List.contains_iff_mem.2 ?_)
      rw [← hline]
      exact List.mem_append_left _ (List.mem_append_left _ hmem)
    · intro u hu
      simpa using List.mem_rtakeWhile_imp hu

section Trim

variable {l m : Text}

theorem Trimmed.mem (h : Trimmed l m) {u : UInt16} (hu : u ∈ m) : u ∈ l := by
  cases h with
  | same => exact hu
  | trim hcode hwhite heol =>
    rcases List.mem_append.1 hu with hu | hu
    · exact List.mem_append_left _ (List.mem_append_left _ hu)
    · exact List.mem_append_right _ hu

/-- Only spaces and tabs go. -/
theorem Trimmed.kept (h : Trimmed l m) {u : UInt16} (hu : u ∈ l) (hwhite : ¬(u = 32 ∨ u = 9)) : u ∈ m := by
  cases h with
  | same => exact hu
  | trim hcode hall heol =>
    rcases List.mem_append.1 hu with hu | hu
    · rcases List.mem_append.1 hu with hu | hu
      · exact List.mem_append_left _ hu
      · exact absurd (hall u hu) hwhite
    · exact List.mem_append_right _ hu

/-- What a line without a carriage return begins with is not its end. -/
theorem isPrefix_append_eol {p body eol : Text} (hp : 13 ∉ p) (heol : eol = [] ∨ eol = [13]) (h : p <+: body ++ eol) :
    p <+: body := by
  rcases List.prefix_or_prefix_of_prefix h (List.prefix_append body eol) with hbody | ⟨t, rfl⟩
  · exact hbody
  · have ht : t <+: eol := (List.prefix_append_right_inj body).1 h
    rcases heol with rfl | rfl
    · obtain rfl := List.prefix_nil.1 ht
      simp
    · rcases List.prefix_cons_iff.1 ht with rfl | ⟨t', rfl, -⟩
      · simp
      · exact absurd (by simp) hp

/-- What a trimmed line begins with, the line begins with. -/
theorem Trimmed.isPrefix (h : Trimmed l m) {p : Text} (hp : 13 ∉ p) (hm : p <+: m) : p <+: l := by
  cases h with
  | same => exact hm
  | @trim body white eol hcode hwhite heol =>
    rw [List.append_assoc]
    exact (isPrefix_append_eol hp heol hm).trans (List.prefix_append _ _)

theorem Trimmed.plain (h : Trimmed l m) (hl : Plain l) : Plain m := by
  refine ⟨fun hmem => hl.1 (h.mem hmem), ?_⟩
  by_contra hopen
  obtain ⟨k, hk, u, hu, hp⟩ := (opens_iff m).1 hopen
  refine (opens_iff l).2 ⟨k, hk, u, hu, h.isPrefix ?_ hp⟩ hl.2
  rcases hu with rfl | rfl
  · simp
  · simp

/-- Only a blank line is trimmed to one. -/
theorem Trimmed.isBlankLine (h : Trimmed l m) (hm : isBlank m = true) : isBlankLine l = true := by
  have hchars : ∀ u ∈ m, u = 13 := by
    simp only [isBlank, Bool.or_eq_true, beq_iff_eq] at hm
    rcases hm with rfl | rfl
    · simp
    · simp
  have hspace : ∀ u ∈ l, u = 13 ∨ u = 32 ∨ u = 9 := by
    intro u hu
    cases h with
    | same => exact .inl (hchars u hu)
    | trim hcode hwhite heol =>
      rcases List.mem_append.1 hu with hu | hu
      · rcases List.mem_append.1 hu with hu | hu
        · exact .inl (hchars u (List.mem_append_left _ hu))
        · exact .inr (hwhite u hu)
      · exact .inl (hchars u (List.mem_append_right _ hu))
  refine List.all_eq_true.2 ?_
  intro u hu
  rcases hspace u hu with rfl | rfl | rfl
  · decide
  · decide
  · decide

end Trim

/-! ### Lines that look like a marker -/

theorem opensSentinel_iff {line : Text} : opensSentinel line = true ↔ SENTINEL_PREFIX <+: line.dropWhile isSpace :=
  List.isPrefixOf_iff_prefix

theorem opensSentinel_of_start {line : Text} (h : SENTINEL_PREFIX <+: line) : opensSentinel line = true := by
  obtain ⟨rest, rfl⟩ := h
  rw [opensSentinel_iff]
  exact List.prefix_append _ _

theorem bracket_mem {line : Text} (h : opensSentinel line = true) : 91 ∈ line := by
  obtain ⟨rest, hrest⟩ := opensSentinel_iff.1 h
  refine (List.dropWhile_suffix isSpace).subset ?_
  rw [← hrest]
  exact List.mem_append_left _ (by decide)

/-- A line that begins with a bracket opens no fence. -/
theorem fenceOpen_bracket (s : Text) : fenceOpen (91 :: s) = none := by
  by_contra h
  obtain ⟨k, -, u, hu, hp⟩ := (opens_iff _).1 h
  cases k with
  | zero =>
    obtain ⟨rfl, -⟩ := List.cons_prefix_cons.1 hp
    rcases hu with h | h <;> cases h
  | succ k => cases (List.cons_prefix_cons.1 hp).1

theorem plain_escapeLine {line : Text} (h : Plain line) : Plain (escapeLine line) := by
  unfold escapeLine
  split
  · refine ⟨?_, fenceOpen_bracket _⟩
    intro hmem
    rcases List.mem_append.1 hmem with hmem | hmem
    · exact absurd hmem (by decide)
    · exact h.1 hmem
  · exact h

theorem rdropWhile_append {p : UInt16 → Bool} {front back : Text} (h : ∃ u ∈ back, p u = false) :
    (front ++ back).rdropWhile p = front ++ back.rdropWhile p := by
  have hne : ¬(back.reverse.dropWhile p).isEmpty := by
    obtain ⟨u, hu, hp⟩ := h
    simpa using ⟨u, hu, hp⟩
  rw [List.rdropWhile, List.reverse_append, List.dropWhile_append, if_neg hne, List.reverse_append, List.reverse_reverse]
  rfl

/-- Trimming leaves the prefix of an escaped line alone. -/
theorem stripLine_lit {line : Text} (h : opensSentinel line = true) : stripLine (LIT_MARKER ++ line) = LIT_MARKER ++ stripLine line := by
  have hne : line ≠ [] := by
    rintro rfl
    cases bracket_mem h
  have hcode : (LIT_MARKER ++ line).contains 96 = line.contains 96 := by
    rw [List.contains_append, show LIT_MARKER.contains 96 = false by decide, Bool.false_or]
  have hcrlf : splitCrlf (LIT_MARKER ++ line) = (LIT_MARKER ++ (splitCrlf line).1, (splitCrlf line).2) := by
    unfold splitCrlf
    rw [List.getLast?_append_of_ne_nil _ hne]
    split
    · rw [List.dropLast_append_of_ne_nil hne]
    · rfl
  have hbody : ∃ u ∈ (splitCrlf line).1, (u == 32 || u == 9) = false := ⟨91, mem_splitCrlf (bracket_mem h) (by decide), by decide⟩
  unfold stripLine
  rw [hcode, hcrlf]
  split
  · rfl
  · simp only
    rw [rdropWhile_append hbody, List.append_assoc]

theorem SENTINEL_prefix_lit : SENTINEL_PREFIX <+: LIT_MARKER := by decide

theorem not_sentinel_stripLine {line : Text} (h : opensSentinel line = false) : ¬SENTINEL_PREFIX <+: stripLine line := by
  intro hp
  have := opensSentinel_of_start ((trimmed_stripLine line).isPrefix (by decide) hp)
  rw [h] at this
  cases this

/-! ### Markers -/

theorem decimal_eq (n : ℕ) : decimal n = (Nat.toDigits 10 n).map fun c => c.toNat.toUInt16 := numeral_eq n

theorem toNat_of_isDigit {c : Char} (h : c.isDigit) : 48 ≤ c.toNat ∧ c.toNat ≤ 57 := by
  simp only [Char.isDigit, Bool.and_eq_true, decide_eq_true_eq] at h
  exact ⟨h.1, h.2⟩

theorem isDigit_of_mem_decimal {n : ℕ} {u : UInt16} (h : u ∈ decimal n) : 48 ≤ u ∧ u ≤ 57 := digit_of_mem_numeral h

theorem repeatMarker_eq (n : ℕ) : ∃ s, repeatMarker 1 n = 91 :: s ∧ 13 ∉ s ∧ 10 ∉ s ∧ 96 ∉ s ∧ s.getLast? = some 93 := by
  have hdigit : ∀ u, u < 48 ∨ 57 < u → u ∉ decimal n := by
    intro u hu hmem
    obtain ⟨h48, h57⟩ := isDigit_of_mem_decimal hmem
    rcases hu with hu | hu
    · exact absurd hu (UInt16.not_lt.2 h48)
    · exact absurd hu (UInt16.not_lt.2 h57)
  have hfront : text "[[gateway-repeat:v1 lines=" ++ decimal 1 ++ text " count=" =
      91 :: text "[gateway-repeat:v1 lines=1 count=" := by decide +kernel
  refine ⟨text "[gateway-repeat:v1 lines=1 count=" ++ decimal n ++ text "]]", ?_, ?_, ?_, ?_, ?_⟩
  · unfold repeatMarker
    rw [hfront]
    rfl
  · simp only [List.mem_append, not_or]
    exact ⟨⟨by decide, hdigit 13 (by decide)⟩, by decide⟩
  · simp only [List.mem_append, not_or]
    exact ⟨⟨by decide, hdigit 10 (by decide)⟩, by decide⟩
  · simp only [List.mem_append, not_or]
    exact ⟨⟨by decide, hdigit 96 (by decide)⟩, by decide⟩
  · rw [List.getLast?_append_of_ne_nil _ (by decide)]
    rfl

theorem plain_repeatMarker (n : ℕ) : Plain (repeatMarker 1 n) := by
  obtain ⟨s, hs, -, hnewline, -⟩ := repeatMarker_eq n
  rw [hs]
  refine ⟨?_, fenceOpen_bracket s⟩
  simp [hnewline]

@[simp] theorem stripLine_repeatMarker (n : ℕ) : stripLine (repeatMarker 1 n) = repeatMarker 1 n := by
  obtain ⟨s, hs, hreturn, -, hcode, hlast⟩ := repeatMarker_eq n
  have hne : s ≠ [] := by
    rintro rfl
    cases hlast
  have hgetLast : (91 :: s).getLast? = some 93 := by rw [List.getLast?_cons_of_ne_nil hne, hlast]
  rw [hs, stripLine, if_neg (by simpa using hcode)]
  have hcrlf : splitCrlf (91 :: s) = (91 :: s, []) := by
    rw [splitCrlf, hgetLast]
    rfl
  rw [hcrlf]
  simp only [List.append_nil]
  rw [List.rdropWhile_eq_self_iff]
  intro h
  have hlast' : (91 :: s).getLast h = 93 := Option.some_inj.1 ((List.getLast?_eq_some_getLast h).symm.trans hgetLast)
  rw [hlast']
  decide

theorem isBlank_repeatMarker (n : ℕ) : isBlank (repeatMarker 1 n) = false := by
  obtain ⟨s, hs, -⟩ := repeatMarker_eq n
  rw [hs]
  rfl

theorem newline_not_mem_decimal (n : ℕ) : 10 ∉ decimal n := by
  intro hmem
  exact absurd (isDigit_of_mem_decimal hmem).1 (by decide)

theorem newline_not_mem_noteLine (folded escaped : ℕ) : 10 ∉ noteLine folded escaped := by
  have hnote : 10 ∉ noteText := by decide +kernel
  have hfront : 10 ∉ text "[[gateway-note:v1 folded=" := by decide
  have hmid : 10 ∉ text " escaped=" := by decide
  simp only [noteLine, List.mem_append, not_or]
  exact ⟨⟨⟨⟨hfront, newline_not_mem_decimal _⟩, hmid⟩, newline_not_mem_decimal _⟩, hnote⟩

theorem fenceOpen_noteLine (folded escaped : ℕ) : fenceOpen (noteLine folded escaped) = none := fenceOpen_bracket _

theorem splitLines_note (folded escaped : ℕ) (s : Text) :
    splitLines (noteLine folded escaped ++ 10 :: s) = noteLine folded escaped :: splitLines s :=
  List.splitOn_append_cons_self_of_not_mem (newline_not_mem_noteLine folded escaped) s

/-! ### Unfenced segments stay what they are -/

/-- What the transforms of a route do with the lines of an unfenced segment, in front of the white space transform. -/
def routeLines (route : ContentRoute) (ls : List Text) : List Text :=
  if route = .log then (dedupLines (ls.map escapeLine)).1 else ls.map escapeLine

theorem unfencing_escape : Unfencing (List.map escapeLine) := by
  intro ls hne hls
  refine ⟨by simpa using hne, ?_⟩
  intro l hl
  obtain ⟨l', hl', rfl⟩ := List.mem_map.1 hl
  exact plain_escapeLine (hls l' hl')

theorem mem_emitRun {line x : Text} {n : ℕ} (h : x ∈ emitRun line n) : x = line ∨ MIN_RUN ≤ n ∧ x = repeatMarker 1 n := by
  unfold emitRun at h
  split at h
  · rename_i hn
    rcases List.mem_cons.1 h with rfl | h
    · exact .inl rfl
    · exact .inr ⟨hn, List.mem_singleton.1 h⟩
  · exact .inl (List.eq_of_mem_replicate h)

theorem mem_dedupFrom {x : Text} (line : Text) (n : ℕ) (ls : List Text) (h : x ∈ (dedupFrom line n ls).1) :
    x = line ∨ x ∈ ls ∨ ∃ k, x = repeatMarker 1 k := by
  induction ls generalizing line n with
  | nil =>
    rcases mem_emitRun h with rfl | ⟨-, rfl⟩
    · exact .inl rfl
    · exact .inr (.inr ⟨n, rfl⟩)
  | cons next ls ih =>
    rw [dedupFrom] at h
    split at h
    · rcases ih line (n + 1) h with rfl | h | h
      · exact .inl rfl
      · exact .inr (.inl (List.mem_cons_of_mem _ h))
      · exact .inr (.inr h)
    · rcases List.mem_append.1 h with h | h
      · rcases mem_emitRun h with rfl | ⟨-, rfl⟩
        · exact .inl rfl
        · exact .inr (.inr ⟨n, rfl⟩)
      · rcases ih next 1 h with rfl | h | h
        · exact .inr (.inl List.mem_cons_self)
        · exact .inr (.inl (List.mem_cons_of_mem _ h))
        · exact .inr (.inr h)

theorem dedupFrom_ne_nil (line : Text) {n : ℕ} (hn : 1 ≤ n) (ls : List Text) : (dedupFrom line n ls).1 ≠ [] := by
  have hemit : ∀ n, 1 ≤ n → emitRun line n ≠ [] := by
    intro n hn
    unfold emitRun
    split
    · simp
    · simp
      omega
  induction ls generalizing n with
  | nil => exact hemit n hn
  | cons next ls ih =>
    rw [dedupFrom]
    split
    · exact ih (by omega)
    · simp [hemit n hn]

theorem unfencing_dedup : Unfencing fun ls => (dedupLines ls).1 := by
  intro ls hne hls
  cases ls with
  | nil => exact absurd rfl hne
  | cons line ls =>
    refine ⟨dedupFrom_ne_nil line (Nat.le_refl 1) ls, ?_⟩
    intro x hx
    rcases mem_dedupFrom line 1 ls hx with rfl | hx | ⟨k, rfl⟩
    · exact hls x List.mem_cons_self
    · exact hls x (List.mem_cons_of_mem _ hx)
    · exact plain_repeatMarker k

theorem closeRun_sublist (run : List Text) : (closeRun run).Sublist run := by
  unfold closeRun
  split
  · exact List.Sublist.refl run
  · exact List.take_sublist 1 run

theorem collapseFrom_sublist (run ls : List Text) : (collapseFrom run ls).Sublist (run ++ ls) := by
  induction ls generalizing run with
  | nil => simpa [collapseFrom] using closeRun_sublist run
  | cons line ls ih =>
    rw [collapseFrom]
    split
    · simpa using ih (run ++ [line])
    · exact (closeRun_sublist run).append ((ih []).cons_cons line)

theorem mem_normalizeLines {ls : List Text} {x : Text} (h : x ∈ normalizeLines ls) : ∃ l ∈ ls, x = stripLine l := by
  obtain ⟨l, hl, rfl⟩ := List.mem_map.1 ((collapseFrom_sublist [] (ls.map stripLine)).subset h)
  exact ⟨l, hl, rfl⟩

theorem collapseFrom_ne_nil {run ls : List Text} (h : run ≠ [] ∨ ls ≠ []) : collapseFrom run ls ≠ [] := by
  have hclose : ∀ run : List Text, run ≠ [] → closeRun run ≠ [] := by
    intro run hrun
    unfold closeRun
    split
    · exact hrun
    · simpa using hrun
  induction ls generalizing run with
  | nil => exact hclose run (h.resolve_right (by simp))
  | cons line ls ih =>
    rw [collapseFrom]
    split
    · exact ih (.inl (by simp))
    · simp

theorem unfencing_normalize : Unfencing normalizeLines := by
  intro ls hne hls
  refine ⟨collapseFrom_ne_nil (.inr (by simpa using hne)), ?_⟩
  intro x hx
  obtain ⟨l, hl, rfl⟩ := mem_normalizeLines hx
  exact (trimmed_stripLine l).plain (hls l hl)

theorem unfencing_route (route : ContentRoute) : Unfencing (routeLines route) := by
  unfold routeLines
  by_cases h : route = .log
  · simp only [h, if_true]
    exact unfencing_dedup.comp unfencing_escape
  · simp only [h, if_false]
    exact unfencing_escape

/-! ### Texts without markers -/

theorem countUnfenced_eq_zero {s : Text} {count : List Text → ℕ} (h : countUnfenced s (fun t => count (splitLines t)) = 0) :
    ∀ seg ∈ segments (splitLines s), seg.fenced = false → count seg.lines = 0 := by
  intro seg hseg hf
  have hof := segments_of seg hseg
  have hmem : (if seg.fenced then 0 else count (splitLines (joinLines seg.lines))) ∈
      (splitFences s).map fun seg => if seg.fenced then 0 else count (splitLines seg.text) := by
    refine List.mem_map.2 ⟨⟨joinLines seg.lines, seg.fenced⟩, List.mem_map.2 ⟨seg, hseg, rfl⟩, rfl⟩
  have hzero := List.sum_eq_zero_iff_forall_eq_nat.1 h _ hmem
  rw [hf, splitLines_joinLines (fun l hl => newline_not_mem (hof.mem l hl)) hof.ne_nil] at hzero
  simpa using hzero

theorem dedupFrom_zero {line : Text} {n : ℕ} {ls : List Text} (h : (dedupFrom line n ls).2 = 0) :
    (dedupFrom line n ls).1 = List.replicate n line ++ ls := by
  have hemit : ∀ {line : Text} {n : ℕ}, (if MIN_RUN ≤ n then 1 else 0) = 0 → emitRun line n = List.replicate n line := by
    intro line n hn
    rw [emitRun, if_neg]
    intro hrun
    simp [hrun] at hn
  induction ls generalizing line n with
  | nil =>
    rw [dedupFrom] at h ⊢
    simpa using hemit h
  | cons next ls ih =>
    rw [dedupFrom] at h ⊢
    split at h
    · rename_i hsame
      rw [if_pos hsame, ih h, hsame.1, List.replicate_succ', List.append_assoc]
      rfl
    · rename_i hsame
      simp only [Nat.add_eq_zero_iff] at h
      rw [if_neg hsame]
      simp only
      rw [hemit h.1, ih h.2]
      rfl

/-! ### The log and plain routes -/

section Routes

variable {route : ContentRoute} {s : Text}

/-- What the transforms of the route do with an unfenced segment. -/
def editLines (route : ContentRoute) (ls : List Text) : List Text := normalizeLines (routeLines route ls)

theorem unfencing_edit (route : ContentRoute) : Unfencing (editLines route) := unfencing_normalize.comp (unfencing_route route)

theorem splitLines_escape (s : Text) :
    splitLines (escapeSentinelLikeLines s).1 = mapLines (List.map escapeLine) (splitLines s) := unfencing_escape.splitLines s

theorem splitLines_dedup (s : Text) :
    splitLines (dedupAdjacentLines s).1 = mapLines (fun ls => (dedupLines ls).1) (splitLines s) := unfencing_dedup.splitLines s

theorem splitLines_normalize (s : Text) : splitLines (normalizeWhitespace s) = mapLines normalizeLines (splitLines s) :=
  unfencing_normalize.splitLines s

theorem splitLines_transform (hroute : route ≠ .ansiText) :
    splitLines (transform route s).current = mapLines (editLines route) (splitLines s) := by
  have hlines : ∀ l ∈ splitLines s, 10 ∉ l := fun l hl => newline_not_mem hl
  by_cases hlog : route = .log
  · subst hlog
    have hcurrent : (transform .log s).current =
        normalizeWhitespace (dedupAdjacentLines (escapeSentinelLikeLines s).1).1 := by simp [transform, Work.apply]
    rw [hcurrent, splitLines_normalize, splitLines_dedup, splitLines_escape, unfencing_escape.mapLines_comp hlines,
      (unfencing_dedup.comp unfencing_escape).mapLines_comp hlines]
    rfl
  · have hcurrent : (transform route s).current = normalizeWhitespace (escapeSentinelLikeLines s).1 := by
      simp [transform, hroute, hlog, Work.apply]
    rw [hcurrent, splitLines_normalize, splitLines_escape, unfencing_escape.mapLines_comp hlines]
    refine mapLines_congr hlines ?_
    intro ls _ _
    simp [editLines, routeLines, hlog]

theorem segments_transform (hroute : route ≠ .ansiText) :
    segments (splitLines (transform route s).current) = (segments (splitLines s)).map (Segment.edit (editLines route)) := by
  rw [splitLines_transform hroute]
  exact (unfencing_edit route).segments fun l hl => newline_not_mem hl

theorem mem_precede (new : List Text) (segs : List Segment) :
    ∃ seg ∈ precede new segs, seg.fenced = false ∧ ∀ l ∈ new, l ∈ seg.lines := by
  unfold precede
  split
  · exact ⟨_, List.mem_cons_self, rfl, fun l hl => List.mem_append_left _ hl⟩
  · exact ⟨_, List.mem_cons_self, rfl, fun l hl => hl⟩

/-- The fenced segments are those of the text. -/
theorem fenced_note (hroute : route ≠ .ansiText) :
    (splitFences (transform route s).note.current).filter (·.fenced) = (splitFences s).filter (·.fenced) := by
  have hfences : ∀ t, (splitFences t).filter (·.fenced) =
      ((segments (splitLines t)).filter (·.fenced)).map fun seg => ⟨joinLines seg.lines, seg.fenced⟩ := by
    intro t
    rw [splitFences, List.filter_map]
    rfl
  have hprecede : ∀ new segs, (precede new segs).filter (·.fenced) = segs.filter (·.fenced) := by
    intro new segs
    unfold precede
    split
    · simp
    · simp
  have hedit : (segments (splitLines (transform route s).current)).filter (·.fenced) =
      (segments (splitLines s)).filter (·.fenced) := by
    rw [segments_transform hroute, List.filter_map]
    have hcomp : ((fun seg : Segment => seg.fenced) ∘ Segment.edit (editLines route)) = fun seg => seg.fenced := by
      funext seg
      exact Segment.fenced_edit _ seg
    rw [hcomp]
    refine (List.map_congr_left ?_).trans (List.map_id _)
    intro seg hseg
    simp [Segment.edit, (List.mem_filter.1 hseg).2]
  rw [hfences, hfences s]
  congr 1
  rw [Work.note]
  split
  · simp only
    rw [splitLines_note, segments_cons (fenceOpen_noteLine _ _), hprecede, hedit]
  · exact hedit

end Routes

/-- What `compact` answers on the log and plain routes. -/
theorem compact_text {estimateTokensSaved : Text → Text → ContentRoute → ℕ} {s : Text} {ctx : CompressCtx}
    (hroute : classify s = .log ∨ classify s = .plain) :
    (compact estimateTokensSaved s ctx).text = s ∨
      (compact estimateTokensSaved s ctx).text = (transform (classify s) s).note.current ∧
        (transform (classify s) s).note.current.length < s.length := by
  unfold compact
  split
  · exact .inl rfl
  · have hcompact : ∀ w : Work, (if s.length ≤ w.current.length then identityResult s (classify s)
        else ⟨w.current, s.length, w.current.length, classify s, w.transforms,
          estimateTokensSaved s w.current (classify s)⟩ : CompressResult).text = s ∨
        (if s.length ≤ w.current.length then identityResult s (classify s)
        else ⟨w.current, s.length, w.current.length, classify s, w.transforms,
          estimateTokensSaved s w.current (classify s)⟩ : CompressResult).text = w.current ∧ w.current.length < s.length := by
      intro w
      split
      · exact .inl rfl
      · exact .inr ⟨rfl, by omega⟩
    rcases hroute with h | h
    · rw [h] at hcompact ⊢
      exact hcompact _
    · rw [h] at hcompact ⊢
      exact hcompact _

end LlmGateway.Compressor
