import LlmGateway.Review.Markup

/-!
# Inline markup by its rule

* `source_tokenize`, `Linked` — what the first phase makes of a prompt: its clean text, in runs of backticks and literal text that
  holds none, and which of the runs are escaped;
* `firstRun`, `link_spec` — the second phase finds the next run of the same length;
* `emit_eq` — the third phase puts out the parts of the text, in no more rounds than there are tokens;
* `neutraliseInlineMarkup_eq` — the three phases are the rule.
-/

namespace LlmGateway.Review

open LlmGateway.Lib LlmGateway.Lib.Utf16

variable {T : Unicode}

/-! ### Runs -/

theorem run_eq (u : UInt16) (rest : Text) : run u rest = List.replicate (run u rest).length u :=
  List.eq_replicate_of_mem fun v hv => by
    rcases List.mem_cons.1 hv with rfl | hv
    · rfl
    · simpa using List.mem_takeWhile_imp hv

theorem head_behind (u : UInt16) (rest : Text) : (behind u rest).head? ≠ some u := by
  intro h
  have hne := List.head?_dropWhile_not (· == u) rest
  rw [show rest.dropWhile (· == u) = behind u rest from rfl, h] at hne
  simp at hne

theorem run_append_behind (u : UInt16) (rest : Text) : run u rest ++ behind u rest = u :: rest :=
  congrArg (u :: ·) List.takeWhile_append_dropWhile

/-! ### Phase 1 -/

@[simp] theorem source_cons (tok : InlineToken) (tokens : List InlineToken) :
    source (tok :: tokens) = tok.source ++ source tokens := rfl

theorem source_append (as bs : List InlineToken) : source (as ++ bs) = source as ++ source bs := List.flatMap_append

@[simp] theorem source_flush (buf : Text) : source (flush buf) = buf := by
  unfold flush
  split
  · next h => exact h.symm
  · simp [source, InlineToken.source]

/-- A run of other code units than underscores, asterisks, tildes and sentinels is clean. -/
theorem clean_run {u : UInt16} (hu : u ≠ 95 ∧ u ≠ 42 ∧ u ≠ 126 ∧ u ≠ SOFT_TERMINATOR) (before : Option UInt16) (rest : Text) :
    clean T before (u :: rest) = run u rest ++ clean T (some u) (behind u rest) := by
  have hcons : ∀ before rest, clean T before (u :: rest) = u :: clean T (some u) rest := by
    intro before rest
    rw [clean]
    simp [hu]
  rw [hcons]
  induction rest with
  | nil => rfl
  | cons v rest ih =>
    by_cases hv : v = u
    · subst hv
      rw [hcons, ih]
      simp [run, behind]
    · simp [run, behind, hv]

/-- **The tokens spell the clean prompt.** -/
theorem source_tokenize (before : Option UInt16) (escapePending : Bool) (buf s : Text) :
    source (tokenize T before escapePending buf s) = buf ++ clean T before s := by
  fun_induction tokenize T before escapePending buf s with
  | case1 before escapePending buf => simp [clean]
  | case2 before escapePending buf rest hbehind ih =>
    rw [ih, clean_run (by decide), List.append_assoc]
  | case3 before escapePending buf rest hbehind hne ih =>
    rw [source_append, source_flush, source_cons, ih, clean_run (by decide), InlineToken.source, ← run_eq]
    rfl
  | case4 before escapePending buf rest hbehind hne hne' ih =>
    rw [ih, clean]
    simp
  | case5 before escapePending buf ch rest hbehind h92 h96 h95 hch ih =>
    rw [ih, clean]
    rcases hch with rfl | rfl <;> simp
  | case6 before escapePending buf rest hbehind h92 h96 h95 hch ih =>
    rw [ih, clean]
    simp [SOFT_TERMINATOR]
  | case7 before escapePending buf ch rest hbehind h92 h96 h95 hch hsoft ih =>
    rw [ih, clean]
    simp [h95, hch, hsoft]

/-- Whether an odd number of backslashes ends the text, where `odd` says it of what is in front. -/
def odds (odd : Bool) (s : Text) : Bool := s.foldl (fun odd u => u == 92 && !odd) odd

theorem odds_append (odd : Bool) (s t : Text) : odds odd (s ++ t) = odds (odds odd s) t := List.foldl_append

theorem odds_concat {odd : Bool} {s : Text} {u : UInt16} (hu : u ≠ 92) : odds odd (s ++ [u]) = false := by
  rw [odds_append]
  simp [odds, hu]

theorem odds_backslashes (odd : Bool) (n : ℕ) : odds odd (List.replicate n 92) = (odd != (n % 2 == 1)) := by
  induction n generalizing odd with
  | zero => cases odd <;> rfl
  | succ n ih =>
    rw [List.replicate_succ]
    show odds ((92 : UInt16) == 92 && !odd) (List.replicate n 92) = _
    rw [ih]
    rcases Nat.mod_two_eq_zero_or_one n with hn | hn
    · rw [hn, show (n + 1) % 2 = 1 by omega]
      cases odd <;> rfl
    · rw [hn, show (n + 1) % 2 = 0 by omega]
      cases odd <;> rfl

/-- The tokens of a text, where `odd` says that an odd number of backslashes is in front of it: literal text holds no backtick, a
run does not go on behind its token, and it can open a span if it is not escaped. -/
def Valid (odd : Bool) : List InlineToken → Prop
  | [] => True
  | .literal text :: tokens => 96 ∉ text ∧ Valid (odds odd text) tokens
  | .btrun len canOpen :: tokens => 0 < len ∧ canOpen = !odd ∧ (source tokens).head? ≠ some 96 ∧ Valid false tokens

theorem valid_flush {buf : Text} {tokens : List InlineToken} (hbuf : 96 ∉ buf) (h : Valid (odds false buf) tokens) :
    Valid false (flush buf ++ tokens) := by
  unfold flush
  split
  · next hnil =>
    rw [hnil] at h
    exact h
  · exact ⟨hbuf, h⟩

theorem head_clean {before : Option UInt16} {s : Text} (h : (clean T before s).head? = some 96) : s.head? = some 96 := by
  cases s with
  | nil => simp [clean] at h
  | cons ch rest =>
    rw [clean] at h
    split at h
    · next hch =>
      unfold underscores run spaces at h
      split at h
      · simp at h
      · simp [List.replicate_succ] at h
    · split at h
      · simp at h
      · exact h

theorem notMem_underscores (before : Option UInt16) (rest : Text) {u : UInt16} (hu : u ≠ 95 ∧ u ≠ 32) :
    u ∉ underscores T before rest := by
  unfold underscores spaces
  rw [run_eq]
  split
  · exact fun h => hu.1 (List.eq_of_mem_replicate h)
  · exact fun h => hu.2 (List.eq_of_mem_replicate h)

theorem odds_underscores (odd : Bool) (buf : Text) (before : Option UInt16) (rest : Text) :
    odds odd (buf ++ underscores T before rest) = false := by
  have hne : underscores T before rest ≠ [] := by
    unfold underscores spaces run
    split <;> simp
  obtain ⟨front, u, hu⟩ := (List.eq_nil_or_concat' _).resolve_left hne
  rw [hu, ← List.append_assoc]
  refine odds_concat ?_
  rintro rfl
  exact notMem_underscores (T := T) before rest (by decide) (hu ▸ by simp : (92 : UInt16) ∈ underscores T before rest)

/-- **The tokens of a prompt are valid.** -/
theorem valid_tokenize (before : Option UInt16) (escapePending : Bool) (buf s : Text) (hbuf : 96 ∉ buf)
    (hescape : escapePending = (s.head? == some 96 && odds false buf)) (hodd : s.head? = some 92 → odds false buf = false) :
    Valid false (tokenize T before escapePending buf s) := by
  fun_induction tokenize T before escapePending buf s with
  | case1 before escapePending buf =>
    have := @valid_flush buf [] hbuf trivial
    rwa [List.append_nil] at this
  | case2 before escapePending buf rest hbehind ih =>
    have hrun : odds false (buf ++ run 92 rest) = ((run 92 rest).length % 2 == 1) := by
      rw [odds_append, hodd rfl, run_eq, odds_backslashes]
      simp
    refine ih ?_ ?_ fun h => absurd h (head_behind 92 rest)
    · intro hmem
      rcases List.mem_append.1 hmem with hmem | hmem
      · exact hbuf hmem
      · rw [run_eq] at hmem
        exact absurd (List.eq_of_mem_replicate hmem) (by decide)
    · rw [hrun, Bool.and_comm]
  | case3 before escapePending buf rest hbehind hne ih =>
    refine valid_flush hbuf ⟨by simp [run], ?_, ?_, ih List.not_mem_nil ?_ fun _ => rfl⟩
    · rw [hescape]
      simp
    · rw [source_tokenize, List.nil_append]
      exact fun h => head_behind 96 rest (head_clean h)
    · simp [odds]
  | case4 before escapePending buf rest hbehind hne hne' ih =>
    have hzero := odds_underscores (T := T) false buf before rest
    refine ih ?_ ?_ fun _ => hzero
    · intro hmem
      rcases List.mem_append.1 hmem with hmem | hmem
      · exact hbuf hmem
      · exact notMem_underscores before rest (by decide) hmem
    · rw [hescape, hzero]
      simp
  | case5 before escapePending buf ch rest hbehind h92 h96 h95 hch ih =>
    refine ih (by simpa using hbuf) ?_ fun _ => odds_concat (by decide)
    rw [hescape, odds_concat (by decide)]
    simp [h96]
  | case6 before escapePending buf rest hbehind h92 h96 h95 hch ih =>
    refine ih (by simpa using hbuf) ?_ fun _ => odds_concat (by decide)
    rw [hescape, odds_concat (by decide)]
    simp [SOFT_TERMINATOR]
  | case7 before escapePending buf ch rest hbehind h92 h96 h95 hch hsoft ih =>
    refine ih (by simpa using ⟨hbuf, Ne.symm h96⟩) ?_ fun _ => odds_concat h92
    rw [hescape, odds_concat h92]
    simp [h96]

theorem valid_tokenize_prompt (prompt : Text) : Valid false (tokenize T none false [] prompt) :=
  valid_tokenize none false [] prompt List.not_mem_nil (by simp [odds]) fun _ => rfl

/-! ### Phase 2 -/

/-- The first run of `len` backticks. -/
def firstRun (len : ℕ) : List InlineToken → Option ℕ
  | [] => none
  | .literal _ :: tokens => (firstRun len tokens).map (· + 1)
  | .btrun k _ :: tokens => if k = len then some 0 else (firstRun len tokens).map (· + 1)

/-- **The next run of the same length** is what the second phase finds, for each run. -/
theorem link_spec (tokens : List InlineToken) (t : ℕ) :
    (∀ len, (link t tokens).2.get len = (firstRun len tokens).map (t + ·)) ∧
      ∀ (k len : ℕ) (canOpen : Bool), tokens[k]? = some (.btrun len canOpen) →
        ((link t tokens).1.get (t + k)).join = (firstRun len (tokens.drop (k + 1))).map (t + k + 1 + ·) := by
  induction tokens generalizing t with
  | nil => exact ⟨fun _ => rfl, fun k len canOpen h => by simp at h⟩
  | cons tok tokens ih =>
    obtain ⟨hlast, hnext⟩ := ih (t + 1)
    have hshift : ∀ o : Option ℕ, o.map (t + 1 + ·) = (o.map (· + 1)).map (t + ·) := by
      intro o
      cases o with
      | none => rfl
      | some n =>
        show some (t + 1 + n) = some (t + (n + 1))
        rw [Nat.add_right_comm, Nat.add_assoc]
    cases tok with
    | literal text =>
      refine ⟨fun len => ?_, fun k len canOpen hk => ?_⟩
      · rw [link, hlast, firstRun, hshift]
      · cases k with
        | zero => cases hk
        | succ k =>
          have h := hnext k len canOpen hk
          rw [show t + 1 + k = t + (k + 1) by omega] at h
          exact h
    | btrun n canOpen =>
      refine ⟨fun len => ?_, fun k len canOpen' hk => ?_⟩
      · show ((link (t + 1) tokens).2.set n t).get len = _
        rw [JsMap.get_set, firstRun, hlast]
        split
        · rfl
        · exact hshift _
      · show (((link (t + 1) tokens).1.set t ((link (t + 1) tokens).2.get n)).get (t + k)).join = _
        rw [JsMap.get_set]
        cases k with
        | zero =>
          cases hk
          rw [if_pos (Nat.add_zero t).symm]
          exact hlast n
        | succ k =>
          have h := hnext k len canOpen' hk
          rw [show t + 1 + k = t + (k + 1) by omega] at h
          rw [if_neg (by omega)]
          exact h

/-! ### The parts of the text -/

theorem closer_literal {text : Text} (h : 96 ∉ text) (len : ℕ) (s : Text) :
    closer len (text ++ s) = (closer len s).map fun r => (text ++ r.1, r.2) := by
  induction text with
  | nil => simp
  | cons u text ih =>
    have hu : u ≠ 96 := fun hu => h (hu ▸ List.mem_cons_self)
    rw [List.cons_append, closer, if_neg hu, ih fun hmem => h (List.mem_cons_of_mem _ hmem), Option.map_map]
    rfl

/-- A run of backticks in front of something else. -/
theorem run_replicate {n : ℕ} {s : Text} (hs : s.head? ≠ some 96) :
    run 96 (List.replicate n 96 ++ s) = List.replicate (n + 1) 96 ∧ behind 96 (List.replicate n 96 ++ s) = s := by
  have hstop : ∀ u ∈ s.head?, (u == (96 : UInt16)) = false := by
    intro u hu
    refine beq_eq_false_iff_ne.2 ?_
    rintro rfl
    exact hs hu
  have hall : ∀ u ∈ List.replicate n (96 : UInt16), (u == (96 : UInt16)) = true := by
    intro u hu
    simpa using List.eq_of_mem_replicate hu
  obtain ⟨htake, hdrop⟩ := takeWhile_stop hall hstop
  exact ⟨congrArg (96 :: ·) htake, hdrop⟩

theorem closer_run {k : ℕ} {s : Text} (hk : 0 < k) (hs : s.head? ≠ some 96) (len : ℕ) :
    closer len (List.replicate k 96 ++ s) =
      if k = len then some ([], s) else (closer len s).map fun r => (List.replicate k 96 ++ r.1, r.2) := by
  obtain ⟨n, rfl⟩ : ∃ n, k = n + 1 := ⟨k - 1, by omega⟩
  obtain ⟨hrun, hbehind⟩ := run_replicate (n := n) hs
  rw [List.replicate_succ, List.cons_append, closer, if_pos rfl, hrun, hbehind, List.length_replicate]
  rfl

/-- The run that closes a span is the first of its length among the tokens. -/
theorem closer_source {tokens : List InlineToken} {odd : Bool} (h : Valid odd tokens) (len : ℕ) :
    closer len (source tokens) =
      (firstRun len tokens).map fun k => (source (tokens.take k), source (tokens.drop (k + 1))) := by
  induction tokens generalizing odd with
  | nil =>
    rw [source, List.flatMap_nil, closer]
    rfl
  | cons tok tokens ih =>
    cases tok with
    | literal text =>
      rw [source_cons, InlineToken.source, closer_literal h.1, ih h.2, firstRun, Option.map_map, Option.map_map]
      rfl
    | btrun k canOpen =>
      obtain ⟨hk, -, hhead, hrest⟩ := h
      rw [source_cons, InlineToken.source, closer_run hk hhead, ih hrest, firstRun]
      split
      · rfl
      · rw [Option.map_map, Option.map_map]
        rfl

theorem valid_behind {tokens : List InlineToken} {odd : Bool} (h : Valid odd tokens) {len k : ℕ}
    (hk : firstRun len tokens = some k) : Valid false (tokens.drop (k + 1)) ∧ k < tokens.length := by
  induction tokens generalizing odd k with
  | nil => cases hk
  | cons tok tokens ih =>
    cases tok with
    | literal text =>
      obtain ⟨n, hn, rfl⟩ := Option.map_eq_some_iff.1 hk
      obtain ⟨hvalid, hlt⟩ := ih h.2 hn
      exact ⟨hvalid, by simpa using hlt⟩
    | btrun n canOpen =>
      rw [firstRun] at hk
      split at hk
      · cases hk
        exact ⟨h.2.2.2, by simp⟩
      · obtain ⟨n, hn, rfl⟩ := Option.map_eq_some_iff.1 hk
        obtain ⟨hvalid, hlt⟩ := ih h.2.2.2 hn
        exact ⟨hvalid, by simpa using hlt⟩

theorem spans_literal {text : Text} (h : 96 ∉ text) (odd : Bool) (s : Text) :
    (spans odd (text ++ s)).flatMap Part.text = text ++ (spans (odds odd text) s).flatMap Part.text := by
  induction text generalizing odd with
  | nil => rfl
  | cons u text ih =>
    have hu : u ≠ 96 := fun hu => h (hu ▸ List.mem_cons_self)
    rw [List.cons_append, spans, if_neg hu, List.flatMap_cons, ih fun hmem => h (List.mem_cons_of_mem _ hmem)]
    rfl

theorem spans_run {len : ℕ} {s : Text} (hlen : 0 < len) (hs : s.head? ≠ some 96) (odd : Bool) :
    spans odd (List.replicate len 96 ++ s) =
      match if odd then none else closer len s with
      | none => .literal (spaces len) :: spans false s
      | some (content, after) => .span content :: spans false after := by
  obtain ⟨n, rfl⟩ : ∃ n, len = n + 1 := ⟨len - 1, by omega⟩
  obtain ⟨hrun, hbehind⟩ := run_replicate (n := n) hs
  have hlength : (run 96 (List.replicate n 96 ++ s)).length = n + 1 := by rw [hrun, List.length_replicate]
  rw [List.replicate_succ, List.cons_append, spans, if_pos rfl]
  split
  · next h =>
    rw [hlength, hbehind] at h ⊢
    rw [h]
  · next content after h =>
    rw [hlength, hbehind] at h
    rw [h]

/-- **The third phase** puts out the parts of the text that is left. -/
theorem emit_eq (tokens : List InlineToken) (fuel t : ℕ) (odd : Bool) (hfuel : tokens.length ≤ t + fuel)
    (hvalid : Valid odd (tokens.drop t)) :
    emit tokens (link 0 tokens).1 fuel t = some ((spans odd (source (tokens.drop t))).flatMap Part.text) := by
  induction fuel generalizing t odd with
  | zero =>
    rw [emit, if_neg (by omega), List.drop_eq_nil_of_le (show tokens.length ≤ t from hfuel)]
    simp [source, spans]
  | succ fuel ih =>
    rw [emit]
    cases htok : tokens[t]? with
    | none =>
      rw [List.drop_eq_nil_of_le (List.getElem?_eq_none_iff.1 htok)]
      simp [source, spans]
    | some tok =>
      obtain ⟨hlt, hget⟩ := List.getElem?_eq_some_iff.1 htok
      have hdrop : tokens.drop t = tok :: tokens.drop (t + 1) := by rw [List.drop_eq_getElem_cons hlt, hget]
      rw [hdrop] at hvalid ⊢
      cases tok with
      | literal text =>
        simp only
        rw [ih (t + 1) _ (by omega) hvalid.2, source_cons, InlineToken.source, spans_literal hvalid.1]
        rfl
      | btrun len canOpen =>
        obtain ⟨hlen, hcan, hhead, hrest⟩ := hvalid
        have hnext := (link_spec tokens 0).2 t len canOpen htok
        rw [Nat.zero_add] at hnext
        have hspaces : (emit tokens (link 0 tokens).1 fuel (t + 1)).map (spaces len ++ ·) =
            some ((Part.literal (spaces len) :: spans false (source (tokens.drop (t + 1)))).flatMap Part.text) := by
          rw [ih (t + 1) false (by omega) hrest]
          rfl
        rw [source_cons, InlineToken.source, spans_run hlen hhead, closer_source hrest]
        simp only
        cases odd with
        | true =>
          rw [hcan]
          exact hspaces
        | false =>
          rw [hcan]
          simp only [Bool.not_false, if_true, Bool.false_eq_true, if_false, hnext]
          cases hfirst : firstRun len (tokens.drop (t + 1)) with
          | none => exact hspaces
          | some k =>
            obtain ⟨hbehind, hk⟩ := valid_behind hrest hfirst
            have hafter : (tokens.drop (t + 1)).drop (k + 1) = tokens.drop (t + 1 + k + 1) := by
              rw [List.drop_drop]
              rfl
            have hcontent : (tokens.take (t + 1 + k)).drop (t + 1) = (tokens.drop (t + 1)).take k := by
              rw [List.drop_take, Nat.add_sub_cancel_left]
            rw [hafter] at hbehind
            simp only [Option.map_some]
            rw [ih (t + 1 + k + 1) false (by omega) hbehind, hcontent, hafter]
            simp [Part.text]

/-- **The three phases are the rule**, and the last one ends. -/
theorem neutraliseInlineMarkup_eq (T : Unicode) (prompt : Text) : neutraliseInlineMarkup T prompt = some (naive T prompt) := by
  unfold neutraliseInlineMarkup naive
  rw [emit_eq _ _ 0 false (by omega) (valid_tokenize_prompt prompt), List.drop_zero, source_tokenize, List.nil_append]

/-! ### The sentinel -/

theorem sentinel_notMem_clean (before : Option UInt16) (s : Text) : SOFT_TERMINATOR ∉ clean T before s := by
  fun_induction clean T before s with
  | case1 => exact List.not_mem_nil
  | case2 before rest hbehind ih =>
    intro h
    rcases List.mem_append.1 h with h | h
    · exact notMem_underscores before rest (by decide) h
    · exact ih h
  | case3 before ch rest hbehind h95 hch ih =>
    intro h
    rcases List.mem_cons.1 h with h | h
    · cases h
    · exact ih h
  | case4 before ch rest hbehind h95 hch ih =>
    intro h
    rcases List.mem_cons.1 h with h | h
    · exact hch (.inr (.inr h.symm))
    · exact ih h

/-- A text without markup is clean. -/
theorem clean_eq_self {s : Text} (h : ∀ u ∈ s, u ≠ 95 ∧ u ≠ 42 ∧ u ≠ 126 ∧ u ≠ SOFT_TERMINATOR) (before : Option UInt16) :
    clean T before s = s := by
  induction s generalizing before with
  | nil => simp [clean]
  | cons ch rest ih =>
    obtain ⟨h95, h42, h126, hsoft⟩ := h ch List.mem_cons_self
    rw [clean, if_neg h95, if_neg (by simp [h42, h126, hsoft]), ih fun u hu => h u (List.mem_cons_of_mem _ hu)]

/-- A span ends in the punctuation of a sentence, blanks and markup aside. -/
def endsSentence (content : Text) : Bool := (cleaned content).getLast?.any isTerminator

theorem mem_cleaned {content : Text} {u : UInt16} (h : u ∈ cleaned content) : u = 32 ∨ u ∈ content := by
  obtain ⟨v, hv, rfl⟩ := List.mem_map.1 ((List.rdropWhile_prefix _ _).subset h)
  split
  · exact .inl rfl
  · exact .inr hv

theorem length_rdropWhile_lt {p : UInt16 → Bool} {s : Text} : (s.rdropWhile p).length < s.length ↔ s.getLast?.any p = true := by
  constructor
  · intro h
    by_contra hlast
    have heq : s.rdropWhile p = s := by
      refine List.rdropWhile_eq_self_iff.2 fun hne hp => hlast ?_
      rw [List.getLast?_eq_some_getLast hne]
      exact hp
    rw [heq] at h
    omega
  · intro h
    obtain ⟨u, hu, hp⟩ := (Option.any_eq_true _ _).1 h
    obtain ⟨front, rfl⟩ := List.getLast?_eq_some_iff.1 hu
    rw [List.rdropWhile_concat_pos p front u hp]
    have := (List.rdropWhile_prefix p front).length_le
    simp only [List.length_append, List.length_cons, List.length_nil]
    omega

/-- **The sentinel is minted** for the punctuation at the end of a span, and only there. -/
theorem normaliseCodeSpanContent_spec {content : Text} (h : SOFT_TERMINATOR ∉ content) :
    ∃ body, SOFT_TERMINATOR ∉ body ∧
      normaliseCodeSpanContent content = body ++ if endsSentence content then [SOFT_TERMINATOR] else [] := by
  refine ⟨((cleaned content).rdropWhile isTerminator).map fun u => if isTerminator u then 32 else u, ?_, ?_⟩
  · intro hmem
    obtain ⟨u, hu, hsoft⟩ := List.mem_map.1 hmem
    split at hsoft
    · cases hsoft
    · subst hsoft
      rcases mem_cleaned ((List.rdropWhile_prefix _ _).subset hu) with h32 | hcontent
      · cases h32
      · exact h hcontent
  · unfold normaliseCodeSpanContent endsSentence
    simp only [length_rdropWhile_lt]

/-- A part in which no sentinel has been copied. -/
def Part.Minted : Part → Prop
  | .literal text => SOFT_TERMINATOR ∉ text
  | .span content =>
    SOFT_TERMINATOR ∉ content ∧ ∃ body, SOFT_TERMINATOR ∉ body ∧
      normaliseCodeSpanContent content = body ++ if endsSentence content then [SOFT_TERMINATOR] else []

theorem mem_closer {len : ℕ} {s content after : Text} (h : closer len s = some (content, after)) {u : UInt16}
    (hu : u ∈ content ∨ u ∈ after) : u ∈ s := by
  fun_induction closer len s generalizing content with
  | case1 => cases h
  | case2 rest hbehind hlen =>
    cases h
    rcases hu with hu | hu
    · cases hu
    · exact List.mem_cons_of_mem _ ((List.dropWhile_suffix _).subset hu)
  | case3 rest hbehind hlen ih =>
    obtain ⟨r, hr, heq⟩ := Option.map_eq_some_iff.1 h
    cases heq
    rw [← run_append_behind]
    rcases hu with hu | hu
    · rcases List.mem_append.1 hu with hu | hu
      · exact List.mem_append_left _ hu
      · exact List.mem_append_right _ (ih hr (.inl hu))
    · exact List.mem_append_right _ (ih hr (.inr hu))
  | case4 ch rest hbehind hch ih =>
    obtain ⟨r, hr, heq⟩ := Option.map_eq_some_iff.1 h
    cases heq
    rcases hu with hu | hu
    · rcases List.mem_cons.1 hu with rfl | hu
      · exact List.mem_cons_self
      · exact List.mem_cons_of_mem _ (ih hr (.inl hu))
    · exact List.mem_cons_of_mem _ (ih hr (.inr hu))

theorem minted_spans {odd : Bool} {s : Text} (h : SOFT_TERMINATOR ∉ s) : ∀ part ∈ spans odd s, part.Minted := by
  fun_induction spans odd s with
  | case1 => simp
  | case2 odd rest hbehind hnone ih =>
    intro part hpart
    rcases List.mem_cons.1 hpart with rfl | hpart
    · exact fun hmem => absurd (List.eq_of_mem_replicate hmem) (by decide)
    · exact ih (fun hmem => h (List.mem_cons_of_mem _ ((List.dropWhile_suffix _).subset hmem))) part hpart
  | case3 odd rest content after hbehind hsome hle ih =>
    have hcloser : closer (run 96 rest).length (behind 96 rest) = some (content, after) := by
      split at hsome
      · cases hsome
      · exact hsome
    have hmem : ∀ u, u ∈ content ∨ u ∈ after → u ∈ 96 :: rest :=
      fun u hu => List.mem_cons_of_mem _ ((List.dropWhile_suffix _).subset (mem_closer hcloser hu))
    have hcontent : SOFT_TERMINATOR ∉ content := fun hu => h (hmem _ (.inl hu))
    intro part hpart
    rcases List.mem_cons.1 hpart with rfl | hpart
    · exact ⟨hcontent, normaliseCodeSpanContent_spec hcontent⟩
    · exact ih (fun hu => h (hmem _ (.inr hu))) part hpart
  | case4 odd ch rest hbehind hch ih =>
    intro part hpart
    rcases List.mem_cons.1 hpart with rfl | hpart
    · intro hmem
      rw [List.mem_singleton.1 hmem] at h
      exact h List.mem_cons_self
    · exact ih (fun hmem => h (List.mem_cons_of_mem _ hmem)) part hpart

/-- A prompt without markup is put out as it is. -/
theorem naive_eq_self {prompt : Text}
    (h : ∀ u ∈ prompt, u ≠ 96 ∧ u ≠ 92 ∧ u ≠ 42 ∧ u ≠ 126 ∧ u ≠ 95 ∧ u ≠ SOFT_TERMINATOR) : naive T prompt = prompt := by
  have hclean : clean T none prompt = prompt :=
    clean_eq_self (fun u hu => ⟨(h u hu).2.2.2.2.1, (h u hu).2.2.1, (h u hu).2.2.2.1, (h u hu).2.2.2.2.2⟩) none
  have hspans := spans_literal (fun hmem => (h 96 hmem).1 rfl) false ([] : Text)
  rw [List.append_nil] at hspans
  unfold naive
  rw [hclean, hspans]
  simp [spans]

end LlmGateway.Review
