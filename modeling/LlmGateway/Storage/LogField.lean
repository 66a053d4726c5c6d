import LlmGateway.Lib.CodePoint
import LlmGateway.Lib.JsString

/-!
# Values in log lines

`showLogField` (storage/log-field.ts).

* `Classes` — the classes of code points that are not told by their numbers; `unicode` — those of Unicode 15;
* `showLogField` — the value bare, or quoted with what would break the line escaped;
* `showLogField_injective`, `not_hidden_showLogField`, `showLogField_unambiguous` — short values are told apart, nothing in the
  output is hidden, and a bare output is neither a keyword, in lower case, nor a URL.
-/

namespace LlmGateway.Storage

open LlmGateway.Lib.Utf16

/-! ## The classes of code points -/

/-- `\p{Cf}`, `\p{Default_Ignorable_Code_Point}` and `\p{Bidi_Control}`. -/
structure Classes where
  format : ℕ → Bool
  defaultIgnorable : ℕ → Bool
  bidiControl : ℕ → Bool
  ascii : ∀ n, n ≤ 126 → format n = false ∧ defaultIgnorable n = false
  bidi_format : ∀ n, bidiControl n = true → format n = true

def inRanges (ranges : List (ℕ × ℕ)) (n : ℕ) : Bool := ranges.any fun r => r.1 ≤ n && n ≤ r.2

def formatRanges : List (ℕ × ℕ) :=
  [(0xAD, 0xAD), (0x600, 0x605), (0x61C, 0x61C), (0x6DD, 0x6DD), (0x70F, 0x70F), (0x890, 0x891), (0x8E2, 0x8E2),
    (0x180E, 0x180E), (0x200B, 0x200F), (0x202A, 0x202E), (0x2060, 0x2064), (0x2066, 0x206F), (0xFEFF, 0xFEFF),
    (0xFFF9, 0xFFFB), (0x110BD, 0x110BD), (0x110CD, 0x110CD), (0x13430, 0x1343F), (0x1BCA0, 0x1BCA3),
    (0x1D173, 0x1D17A), (0xE0001, 0xE0001), (0xE0020, 0xE007F)]

def defaultIgnorableRanges : List (ℕ × ℕ) :=
  [(0xAD, 0xAD), (0x34F, 0x34F), (0x61C, 0x61C), (0x115F, 0x1160), (0x17B4, 0x17B5), (0x180B, 0x180F), (0x200B, 0x200F),
    (0x202A, 0x202E), (0x2060, 0x206F), (0x3164, 0x3164), (0xFE00, 0xFE0F), (0xFEFF, 0xFEFF), (0xFFA0, 0xFFA0),
    (0xFFF0, 0xFFF8), (0x1BCA0, 0x1BCA3), (0x1D173, 0x1D17A), (0xE0000, 0xE0FFF)]

def bidiControlRanges : List (ℕ × ℕ) := [(0x61C, 0x61C), (0x200E, 0x200F), (0x202A, 0x202E), (0x2066, 0x2069)]

theorem inRanges_of_lt {ranges : List (ℕ × ℕ)} {n : ℕ} (h : ∀ r ∈ ranges, n < r.1) : inRanges ranges n = false := by
  rw [inRanges, List.any_eq_false]
  intro r hr
  have := h r hr
  simp
  omega

theorem inRanges_mono {ranges ranges' : List (ℕ × ℕ)} (h : ∀ r ∈ ranges, ∃ r' ∈ ranges', r'.1 ≤ r.1 ∧ r.2 ≤ r'.2) {n : ℕ}
    (hn : inRanges ranges n = true) : inRanges ranges' n = true := by
  obtain ⟨r, hr, hrn⟩ := List.any_eq_true.1 hn
  obtain ⟨r', hr', hle⟩ := h r hr
  refine List.any_eq_true.2 ⟨r', hr', ?_⟩
  simp only [Bool.and_eq_true, decide_eq_true_eq] at hrn ⊢
  omega

def unicode : Classes where
  format := inRanges formatRanges
  defaultIgnorable := inRanges defaultIgnorableRanges
  bidiControl := inRanges bidiControlRanges
  ascii n hn := by
    have hf : ∀ r ∈ formatRanges, 126 < r.1 := by decide
    have hd : ∀ r ∈ defaultIgnorableRanges, 126 < r.1 := by decide
    exact ⟨inRanges_of_lt fun r hr => hn.trans_lt (hf r hr), inRanges_of_lt fun r hr => hn.trans_lt (hd r hr)⟩
  bidi_format _ := inRanges_mono (by decide)

variable (t : Classes)

/-- `UNSAFE_IN_A_LOG_LINE` -/
def unsafeInALogLine (n : ℕ) : Bool :=
  (0x80 ≤ n && n ≤ 0x9F) || n == 0x7F || n == 0x2028 || n == 0x2029 || t.format n || t.defaultIgnorable n

/-! ## The field -/

/-- `\u{XXXXX}` or `\uXXXX` -/
def escapePoint (n : ℕ) : Text :=
  if 0xFFFF < n then [92, 117, 123] ++ padStart 5 48 (hexNumeral n) ++ [125] else [92, 117] ++ padStart 4 48 (hexNumeral n)

def replacePoint (p : Text) : Text := if unsafeInALogLine t (pointValue p) then escapePoint (pointValue p) else p

def replaceUnsafe (s : Text) : Text := (points s).flatMap (replacePoint t)

def MAX_FIELD_CHARS : ℕ := 120

/-- `[A-Za-z0-9._:/[\]-]` -/
def isBareUnit (u : UInt16) : Bool :=
  (65 ≤ u && u ≤ 90) || (97 ≤ u && u ≤ 122) || (48 ≤ u && u ≤ 57) || u == 46 || u == 95 || u == 58 || u == 47 || u == 91 ||
    u == 93 || u == 45

def bounded (value : Text) : Text :=
  if MAX_FIELD_CHARS < (points value).length then
    ((points value).take MAX_FIELD_CHARS).flatten ++ text "... (" ++ numeral (points value).length ++ text " chars)"
  else value

/-- The text may be left bare.  `toLowerCase` is asked for a text in ASCII only. -/
def isBare (keywords : List Text) (s : Text) : Bool :=
  !s.isEmpty && s.all isBareUnit && !decide (text "://" <:+: s) && !keywords.contains (asciiLowerCase.toLowerCase s)

def showLogField (keywords : List Text) (value : Text) : Text :=
  if isBare keywords (bounded value) then bounded value else replaceUnsafe t (quote (bounded value))

/-! ## Code point by code point -/

theorem unsafe_ascii {n : ℕ} (h : n ≤ 126) : unsafeInALogLine t n = false := by
  have hn := t.ascii n h
  simp [unsafeInALogLine, hn]
  omega

theorem toNat_le_of_ascii {u : UInt16} (h : u ≤ 126) : u.toNat ≤ 126 := by
  rw [UInt16.le_iff_toNat_le] at h
  simpa using h

theorem replacePoint_ascii {u : UInt16} (h : u ≤ 126) : replacePoint t [u] = [u] := by
  have hu : unsafeInALogLine t (pointValue [u]) = false := unsafe_ascii t (toNat_le_of_ascii h)
  rw [replacePoint, if_neg (by rw [hu]; exact Bool.false_ne_true)]

theorem replaceUnsafe_ascii {s : Text} (h : ∀ u ∈ s, u ≤ 126) : replaceUnsafe t s = s := by
  rw [replaceUnsafe, points_of_lt]
  · induction s with
    | nil => rfl
    | cons u s ih =>
      rw [List.map_cons, List.flatMap_cons, ih fun v hv => h v (List.mem_cons_of_mem _ hv),
        replacePoint_ascii t (h u List.mem_cons_self)]
      exact List.singleton_append
  · intro u hu
    have hle := toNat_le_of_ascii (h u hu)
    rw [UInt16.lt_iff_toNat_lt]
    simp
    omega

/-- A code point of a quoted value. -/
def shown (p : Text) : Text := replaceUnsafe t (quotePoint p)

/-- What a code point becomes in JSON: an escape in ASCII, or itself. -/
theorem quotePoint_cases {p : Text} (hp : IsPoint p) :
    (∃ s, quotePoint p = 92 :: s ∧ ∀ v ∈ s, 32 ≤ v ∧ v ≤ 126) ∨
      (quotePoint p = p ∧ 32 ≤ pointValue p ∧ ∀ u ∈ p.head?, isTrail u = false ∧ u ≠ 34 ∧ u ≠ 92) := by
  cases hp with
  | unit u =>
    rcases hs : isSurrogate u with _ | _
    · simp only [quotePoint, quoteToken, hs]
      have hcases := quoteUnit_cases u
      rcases hcases with h | ⟨h, h32, hq, hb⟩
      · exact .inl h
      · have htrail : isTrail u = false := by
          rw [isSurrogate, Bool.or_eq_false_iff] at hs
          exact hs.2
        refine .inr ⟨h, UInt16.le_iff_toNat_le.1 h32, ?_⟩
        intro v hv
        obtain rfl := Option.some.inj hv
        exact ⟨htrail, hq, hb⟩
    · simp only [quotePoint, quoteToken, hs]
      exact .inl (escape_ascii u)
  | @pair u v hu hv =>
    refine .inr ⟨rfl, ?_, ?_⟩
    · have := (surrogates_pointValue hu hv).2
      omega
    · intro w hw
      obtain rfl := Option.some.inj hw
      have hu := isLead_iff.1 hu
      refine ⟨not_isTrail_of_lt (UInt16.lt_iff_toNat_lt.2 hu.2), ?_, ?_⟩
      · rintro rfl
        exact absurd hu.1 (by decide)
      · rintro rfl
        exact absurd hu.1 (by decide)

theorem escapePoint_ascii (n : ℕ) : ∃ s, escapePoint n = 92 :: s ∧ ∀ v ∈ s, 32 ≤ v ∧ v ≤ 126 := by
  have hdigits : ∀ w, ∀ v ∈ padStart w 48 (hexNumeral n), 32 ≤ v ∧ v ≤ 126 := by
    intro w v hv
    have h := mem_padStart_hexNumeral hv
    simp only [UInt16.le_iff_toNat_le] at h ⊢
    simp at *
    omega
  unfold escapePoint
  split
  · refine ⟨[117, 123] ++ padStart 5 48 (hexNumeral n) ++ [125], rfl, ?_⟩
    intro v hv
    simp only [List.mem_append, List.mem_cons, List.not_mem_nil, or_false] at hv
    rcases hv with ((rfl | rfl) | hv) | rfl
    · decide
    · decide
    · exact hdigits 5 v hv
    · decide
  · refine ⟨[117] ++ padStart 4 48 (hexNumeral n), rfl, ?_⟩
    intro v hv
    simp only [List.mem_append, List.mem_cons, List.not_mem_nil, or_false] at hv
    rcases hv with rfl | hv
    · decide
    · exact hdigits 4 v hv

/-- The three ways in which a code point is shown: as in JSON, escaped once more, or as it is. -/
theorem shown_cases {p : Text} (hp : IsPoint p) :
    (shown t p = quotePoint p ∧ ∃ s, quotePoint p = 92 :: s ∧ ∀ v ∈ s, 32 ≤ v ∧ v ≤ 126) ∨
      (shown t p = escapePoint (pointValue p) ∧ 32 ≤ pointValue p) ∨
      (shown t p = p ∧ quotePoint p = p ∧ 32 ≤ pointValue p ∧ unsafeInALogLine t (pointValue p) = false ∧
        ∀ u ∈ p.head?, isTrail u = false ∧ u ≠ 34 ∧ u ≠ 92) := by
  rcases quotePoint_cases hp with ⟨s, hs, hascii⟩ | ⟨hself, hvalue, hhead⟩
  · refine .inl ⟨?_, s, hs, hascii⟩
    rw [shown, hs, replaceUnsafe_ascii]
    intro v hv
    rcases List.mem_cons.1 hv with rfl | hv
    · decide
    · exact (hascii v hv).2
  · have hshown : shown t p = replacePoint t p := by rw [shown, hself, replaceUnsafe, hp.points, List.flatMap_singleton]
    rw [hshown]
    unfold replacePoint
    split
    · exact .inr (.inl ⟨rfl, hvalue⟩)
    · next h => exact .inr (.inr ⟨rfl, hself, hvalue, eq_false_of_ne_true h, hhead⟩)

theorem head_shown {p : Text} (hp : IsPoint p) : ∃ u s, shown t p = u :: s ∧ isTrail u = false ∧ u ≠ 34 := by
  rcases shown_cases t hp with ⟨h, s, hs, -⟩ | ⟨h, -⟩ | ⟨h, -, -, -, hhead⟩
  · exact ⟨92, s, h.trans hs, by decide, by decide⟩
  · obtain ⟨s, hs, -⟩ := escapePoint_ascii (pointValue p)
    exact ⟨92, s, h.trans hs, by decide, by decide⟩
  · cases hp with
    | unit u => exact ⟨u, [], h, (hhead u rfl).1, (hhead u rfl).2.1⟩
    | @pair u v hu hv => exact ⟨u, [v], h, (hhead u rfl).1, (hhead u rfl).2.1⟩

theorem head_quotePoint {p : Text} (hp : IsPoint p) : ∀ u ∈ (quotePoint p).head?, isTrail u = false := by
  intro u hu
  rcases quotePoint_cases hp with ⟨s, hs, -⟩ | ⟨hself, -, hhead⟩
  · rw [hs] at hu
    obtain rfl := Option.some.inj hu
    decide
  · rw [hself] at hu
    exact (hhead u hu).1

/-- **A quoted value, code point by code point.** -/
theorem replaceUnsafe_quote (s : Text) : replaceUnsafe t (quote s) = 34 :: ((points s).flatMap (shown t) ++ [34]) := by
  have hquote : replacePoint t [34] = [34] := replacePoint_ascii t (by decide)
  have hhead : ∀ p ∈ points s, ∀ u ∈ (quotePoint p).head?, isTrail u = false :=
    fun p hp => head_quotePoint (isPoint_of_mem hp)
  have hlast : ∀ u ∈ ([34] : Text).head?, isTrail u = false := by
    intro u hu
    obtain rfl := Option.some.inj hu
    decide
  have hsplit : points (quote s) = [34] :: ((points s).flatMap (fun p => points (quotePoint p)) ++ [[34]]) := by
    have hfront := points_append (s := [34]) (head_flatMap hhead hlast)
    rw [points_flatMap hhead hlast] at hfront
    rw [quote_eq]
    exact hfront
  rw [replaceUnsafe, hsplit, List.flatMap_cons, List.flatMap_append, List.flatMap_assoc, hquote,
    List.flatMap_singleton, hquote]
  rfl

/-! ## Reading back -/

/-- The first code point of a quoted value, and what follows it. -/
def readShown : Text → Option (Text × Text)
  | [] => none
  | [u] => some ([u], [])
  | u :: v :: s =>
    if u = 92 then
      if v = 117 then
        if s.head? = some 123 then
          some (surrogates (hexValue (s.tail.takeWhile (· != 125))), (s.tail.dropWhile (· != 125)).tail)
        else some ([(hexValue (s.take 4)).toUInt16], s.drop 4)
      else some ([unescape v], s)
    else if isLead u && isTrail v then some ([u, v], s)
    else some ([u], v :: s)

theorem readShown_four {n : ℕ} {d : Text} (hd : d.length = 4) (hhead : d.head? ≠ some 123) (hn : hexValue d = n) (r : Text) :
    readShown (92 :: 117 :: d ++ r) = some ([n.toUInt16], r) := by
  rw [List.cons_append, List.cons_append, readShown, if_pos rfl, if_pos rfl, if_neg, List.take_left' hd, List.drop_left' hd, hn]
  obtain ⟨a, d, rfl⟩ := List.exists_cons_of_length_eq_add_one hd
  exact hhead

theorem hexDigits_ne_brace {w n : ℕ} : ∀ u ∈ padStart w 48 (hexNumeral n), u ≠ 123 ∧ u ≠ 125 := by
  intro u hu
  have h := mem_padStart_hexNumeral hu
  constructor
  · rintro rfl
    revert h
    decide
  · rintro rfl
    revert h
    decide

theorem readShown_escapePoint_unit {u : UInt16} (hu : u.toNat ≠ 0) (r : Text) :
    readShown (escapePoint u.toNat ++ r) = some ([u], r) := by
  have hlt := u.toNat_lt
  rw [escapePoint, if_neg (by omega)]
  have hlen : (padStart 4 48 (hexNumeral u.toNat)).length = 4 := length_padStart_hexNumeral hu (by omega)
  have hread := readShown_four hlen (fun h => (hexDigits_ne_brace _ (List.mem_of_head? h)).1 rfl)
    ((hexValue_padStart 4 _).trans (hexValue_hexNumeral _)) r
  refine hread.trans ?_
  simp

theorem readShown_escapePoint_pair {n : ℕ} (hn : 0x10000 ≤ n) (r : Text) :
    readShown (escapePoint n ++ r) = some (surrogates n, r) := by
  rw [escapePoint, if_pos (by omega)]
  have hdigits : ∀ d ∈ padStart 5 48 (hexNumeral n), (d != 125) = true := by
    intro d hd
    simpa using (hexDigits_ne_brace d hd).2
  simp only [List.cons_append, List.nil_append, List.append_assoc, readShown, if_true, List.head?_cons, List.tail_cons]
  rw [List.takeWhile_append_of_pos hdigits, List.dropWhile_append_of_pos hdigits]
  simp [hexValue_padStart, hexValue_hexNumeral]

theorem readShown_escapePoint {p : Text} (hp : IsPoint p) (hvalue : 32 ≤ pointValue p) (r : Text) :
    readShown (escapePoint (pointValue p) ++ r) = some (p, r) := by
  cases hp with
  | unit u =>
    rw [show pointValue [u] = u.toNat from rfl] at hvalue ⊢
    exact readShown_escapePoint_unit (by omega) r
  | @pair u v hu hv =>
    obtain ⟨hpair, hge⟩ := surrogates_pointValue hu hv
    rw [readShown_escapePoint_pair hge, hpair]

theorem readShown_self {p : Text} (hp : IsPoint p) (hsurrogate : ∀ u, p = [u] → isLead u = false) (hhead : ∀ u ∈ p.head?, u ≠ 92)
    (r : Text) : readShown (p ++ r) = some (p, r) := by
  cases hp with
  | unit u =>
    cases r with
    | nil => rfl
    | cons v r =>
      have hu := hsurrogate u rfl
      simp [readShown, hhead u rfl, hu]
  | @pair u v hu hv => simp [readShown, hhead u rfl, hu, hv]

theorem readShown_escape (u : UInt16) (r : Text) : readShown (escape u ++ r) = some ([u], r) := by
  have hu := u.toNat_lt
  obtain ⟨hdigits, -⟩ := hexDigits_spec u
  have hvalue : hexValue [hexDigit (u / 4096), hexDigit (u / 256 % 16), hexDigit (u / 16 % 16), hexDigit (u % 16)] = u.toNat := by
    simp only [hexValue, List.foldl_cons, List.foldl_nil, hexVal_hexDigit hdigits.1, hexVal_hexDigit hdigits.2.1,
      hexVal_hexDigit hdigits.2.2.1, hexVal_hexDigit hdigits.2.2.2]
    simp
    omega
  refine (readShown_four rfl ?_ hvalue r).trans ?_
  · intro h
    have := hexDigit_bounds _ hdigits.1
    rw [Option.some.inj h] at this
    revert this
    decide
  · simp

theorem readShown_quotePoint {p : Text} (hp : IsPoint p) {s : Text} (hs : quotePoint p = 92 :: s) (r : Text) :
    readShown (quotePoint p ++ r) = some (p, r) := by
  cases hp with
  | unit u =>
    rcases hu : isSurrogate u with _ | _
    · have hq : quotePoint [u] = quoteUnit u := by rw [quotePoint, hu]; rfl
      rw [hq] at hs ⊢
      unfold quoteUnit at hs ⊢
      split_ifs at hs ⊢ with h1 h2 h3 h4 h5 h6 h7 h8
      · simp [readShown, unescape, h1]
      · simp [readShown, unescape, h2]
      · simp [readShown, unescape, h3]
      · simp [readShown, unescape, h4]
      · simp [readShown, unescape, h5]
      · simp [readShown, unescape, h6]
      · simp [readShown, unescape, h7]
      · exact readShown_escape u r
      · exact absurd (List.cons.inj hs).1 h2
    · have hq : quotePoint [u] = escape u := by rw [quotePoint, hu]; rfl
      rw [hq]
      exact readShown_escape u r
  | @pair u v hu hv =>
    obtain rfl := (List.cons.inj hs).1
    exact absurd hu (by decide)

theorem readShown_shown {p : Text} (hp : IsPoint p) (r : Text) : readShown (shown t p ++ r) = some (p, r) := by
  rcases shown_cases t hp with ⟨h, s, hs, -⟩ | ⟨h, hvalue⟩ | ⟨h, hself, -, -, hhead⟩
  · rw [h]
    exact readShown_quotePoint hp hs r
  · rw [h]
    exact readShown_escapePoint hp hvalue r
  · rw [h]
    refine readShown_self hp ?_ (fun u hu => (hhead u hu).2.2) r
    rintro u rfl
    -- a single surrogate would have been escaped
    by_contra hlead
    have hq : quotePoint [u] = escape u := by
      rw [quotePoint, isSurrogate, Bool.eq_true_of_not_eq_false hlead]
      rfl
    rw [hq] at hself
    exact absurd (congrArg List.length hself) (by simp [escape])

/-- Code points that are shown in front of the last quote can be read back. -/
theorem flatMap_shown_inj {ps qs : List Text} (hps : ∀ p ∈ ps, IsPoint p) (hqs : ∀ q ∈ qs, IsPoint q)
    (h : ps.flatMap (shown t) ++ [34] = qs.flatMap (shown t) ++ [34]) : ps = qs := by
  induction ps generalizing qs with
  | nil =>
    cases qs with
    | nil => rfl
    | cons q qs =>
      obtain ⟨u, s, hs, -, hu⟩ := head_shown t (hqs q List.mem_cons_self)
      rw [List.flatMap_nil, List.flatMap_cons, hs] at h
      exact absurd (List.cons.inj h).1.symm hu
  | cons p ps ih =>
    cases qs with
    | nil =>
      obtain ⟨u, s, hs, -, hu⟩ := head_shown t (hps p List.mem_cons_self)
      rw [List.flatMap_nil, List.flatMap_cons, hs] at h
      exact absurd (List.cons.inj h).1 hu
    | cons q qs =>
      rw [List.flatMap_cons, List.flatMap_cons, List.append_assoc, List.append_assoc] at h
      have hread := readShown_shown t (hps p List.mem_cons_self) (ps.flatMap (shown t) ++ [34])
      rw [h, readShown_shown t (hqs q List.mem_cons_self), Option.some.injEq, Prod.mk.injEq] at hread
      rw [hread.1, ih (fun p hp => hps p (List.mem_cons_of_mem _ hp)) (fun q hq => hqs q (List.mem_cons_of_mem _ hq)) hread.2.symm]

/-! ## What the output says -/

theorem not_head_bare {keywords : List Text} {s : Text} (h : isBare keywords s = true) : s.head? ≠ some 34 := by
  intro h34
  simp only [isBare, Bool.and_eq_true, List.all_eq_true] at h
  exact absurd (h.1.1.2 34 (List.mem_of_head? h34)) (by decide)

theorem showLogField_bare {keywords : List Text} {value : Text} (h : (showLogField t keywords value).head? ≠ some 34) :
    showLogField t keywords value = bounded value ∧ isBare keywords (bounded value) = true := by
  unfold showLogField at h ⊢
  split at h
  · next hbare => exact ⟨if_pos hbare, hbare⟩
  · rw [replaceUnsafe_quote] at h
    exact absurd rfl h

theorem bounded_of_le {value : Text} (h : (points value).length ≤ MAX_FIELD_CHARS) : bounded value = value :=
  if_neg (Nat.not_lt.2 h)

/-- **Two short values are shown in two ways.** -/
theorem showLogField_injective {keywords : List Text} {a b : Text} (ha : (points a).length ≤ MAX_FIELD_CHARS)
    (hb : (points b).length ≤ MAX_FIELD_CHARS) (h : showLogField t keywords a = showLogField t keywords b) : a = b := by
  have hquoted : ∀ s, (replaceUnsafe t (quote s)).head? = some 34 := by
    intro s
    rw [replaceUnsafe_quote]
    rfl
  unfold showLogField at h
  rw [bounded_of_le ha, bounded_of_le hb] at h
  split at h
  · next hbare =>
    split at h
    · exact h
    · exact absurd (h ▸ hquoted b) (not_head_bare hbare)
  · split at h
    · next hbare => exact absurd (h ▸ hquoted a) (not_head_bare hbare)
    · rw [replaceUnsafe_quote, replaceUnsafe_quote] at h
      have hpoints := flatMap_shown_inj t (fun p hp => isPoint_of_mem hp) (fun q hq => isPoint_of_mem hq) (List.cons.inj h).2
      rw [← flatten_points a, hpoints, flatten_points]

/-- What breaks, reorders or commands a line: C0, DEL and C1, the line and paragraph separators, and the invisible classes. -/
def Hidden (n : ℕ) : Prop :=
  n < 0x20 ∨ n = 0x7F ∨ (0x80 ≤ n ∧ n ≤ 0x9F) ∨ n = 0x2028 ∨ n = 0x2029 ∨ t.bidiControl n ∨ t.format n ∨ t.defaultIgnorable n

theorem not_hidden {n : ℕ} (h : 32 ≤ n) (hn : unsafeInALogLine t n = false) : ¬Hidden t n := by
  intro hhidden
  simp only [unsafeInALogLine, Bool.or_eq_false_iff] at hn
  have hbidi : t.bidiControl n = true → t.format n = true := t.bidi_format n
  unfold Hidden at hhidden
  simp at hn
  simp_all
  omega

theorem not_hidden_ascii {s : Text} (h : ∀ u ∈ s, 32 ≤ u ∧ u ≤ 126) : ∀ p ∈ points s, ¬Hidden t (pointValue p) := by
  intro p hp
  have hlt : ∀ u ∈ s, u < 0xD800 := by
    intro u hu
    have hle := toNat_le_of_ascii (h u hu).2
    rw [UInt16.lt_iff_toNat_lt]
    simp
    omega
  rw [points_of_lt hlt] at hp
  obtain ⟨u, hu, rfl⟩ := List.mem_map.1 hp
  have h32 := UInt16.le_iff_toNat_le.1 (h u hu).1
  exact not_hidden t h32 (unsafe_ascii t (toNat_le_of_ascii (h u hu).2))

theorem not_hidden_shown {p : Text} (hp : IsPoint p) : ∀ q ∈ points (shown t p), ¬Hidden t (pointValue q) := by
  have hascii : ∀ s : Text, (∀ v ∈ s, 32 ≤ v ∧ v ≤ 126) → ∀ v ∈ 92 :: s, 32 ≤ v ∧ v ≤ 126 := by
    intro s hs v hv
    rcases List.mem_cons.1 hv with rfl | hv
    · decide
    · exact hs v hv
  rcases shown_cases t hp with ⟨h, s, hs, hunits⟩ | ⟨h, -⟩ | ⟨h, -, hvalue, hsafe, -⟩
  · rw [h, hs]
    exact not_hidden_ascii t (hascii s hunits)
  · obtain ⟨s, hs, hunits⟩ := escapePoint_ascii (pointValue p)
    rw [h, hs]
    exact not_hidden_ascii t (hascii s hunits)
  · rw [h, hp.points]
    intro q hq
    obtain rfl := List.mem_singleton.1 hq
    exact not_hidden t hvalue hsafe

/-- **Nothing in a field is hidden.** -/
theorem not_hidden_showLogField (keywords : List Text) (value : Text) :
    ∀ p ∈ points (showLogField t keywords value), ¬Hidden t (pointValue p) := by
  unfold showLogField
  split
  · next hbare =>
    apply not_hidden_ascii
    intro u hu
    simp only [isBare, Bool.and_eq_true, List.all_eq_true] at hbare
    have hunit := hbare.1.1.2 u hu
    simp only [isBareUnit, Bool.or_eq_true, Bool.and_eq_true, decide_eq_true_eq, beq_iff_eq] at hunit
    simp only [UInt16.le_iff_toNat_le, ← UInt16.toNat_inj] at hunit ⊢
    simp at hunit ⊢
    omega
  · rw [replaceUnsafe_quote]
    have hhead : ∀ p ∈ points (bounded value), ∀ u ∈ (shown t p).head?, isTrail u = false := by
      intro p hp u hu
      obtain ⟨v, s, hs, hv, -⟩ := head_shown t (isPoint_of_mem hp)
      rw [hs] at hu
      obtain rfl := Option.some.inj hu
      exact hv
    have hlast : ∀ u ∈ ([34] : Text).head?, isTrail u = false := by
      intro u hu
      obtain rfl := Option.some.inj hu
      decide
    have hsplit := points_append (s := [34]) (head_flatMap hhead hlast)
    rw [points_flatMap hhead hlast] at hsplit
    intro p hp
    rw [← List.singleton_append, hsplit] at hp
    have hquote : ∀ q ∈ points [34], ¬Hidden t (pointValue q) := not_hidden_ascii t (by decide)
    rcases List.mem_append.1 hp with hp | hp
    · exact hquote p hp
    · rcases List.mem_append.1 hp with hp | hp
      · obtain ⟨q, hq, hp⟩ := List.mem_flatMap.1 hp
        exact not_hidden_shown t (isPoint_of_mem hq) p hp
      · exact hquote p hp

/-- What a field has to be: told apart, visible, and when it is bare neither a keyword, as `spelled` writes it, nor a URL. -/
structure Unambiguous (spelled : Text → Text) (keywords : List Text) : Prop where
  injective : ∀ a b, (points a).length ≤ MAX_FIELD_CHARS → (points b).length ≤ MAX_FIELD_CHARS →
    showLogField t keywords a = showLogField t keywords b → a = b
  visible : ∀ value, ∀ p ∈ points (showLogField t keywords value), ¬Hidden t (pointValue p)
  keyword : ∀ value, (showLogField t keywords value).head? ≠ some 34 → spelled (showLogField t keywords value) ∉ keywords
  url : ∀ value, (showLogField t keywords value).head? ≠ some 34 → ¬text "://" <:+: showLogField t keywords value

/-- **A field is unambiguous**, where keywords are in lower case. -/
theorem showLogField_unambiguous (keywords : List Text) : Unambiguous t asciiLowerCase.toLowerCase keywords where
  injective _ _ ha hb h := showLogField_injective t ha hb h
  visible := not_hidden_showLogField t keywords
  keyword value h := by
    obtain ⟨heq, hbare⟩ := showLogField_bare t h
    rw [heq]
    simp only [isBare, Bool.and_eq_true, Bool.not_eq_true'] at hbare
    simpa using hbare.2
  url value h := by
    obtain ⟨heq, hbare⟩ := showLogField_bare t h
    rw [heq]
    simp only [isBare, Bool.and_eq_true, Bool.not_eq_true'] at hbare
    exact of_decide_eq_false hbare.1.2

/-- A keyword that is not in lower case is shown bare. -/
theorem keyword_shown_bare : ¬∀ keywords, Unambiguous unicode id keywords := by
  intro h
  have hbare : (showLogField unicode [text "Port"] (text "Port")).head? ≠ some 34 := by decide +kernel
  have hmem : showLogField unicode [text "Port"] (text "Port") ∈ [text "Port"] := by decide +kernel
  exact (h [text "Port"]).keyword (text "Port") hbare hmem

end LlmGateway.Storage
