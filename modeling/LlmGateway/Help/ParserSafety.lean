import LlmGateway.Help.Values

/-!
# What the help parser accounts for

* `helpLines_append`, `flagsOf_append` — two help texts, one after the other;
* `Accounted` — nothing is dropped, and nothing is mixed;
* `Collected`, `Warned`, `Plain` — the conditions on a help text;
* `accounted_when` — when a help text is accounted for.
-/

namespace LlmGateway.Help

open LlmGateway.Lib.Utf16 LlmGateway.Lib.Regex

variable {L : LowerCase} {checksumText : Text → Text}

/-! ## Two texts -/

/-- A text that ends before a line feed: its lines, but for a carriage return at the end of the last. -/
theorem helpLines_append (s t : Text) : ∃ front last, helpLines (s ++ 10 :: t) = front ++ last :: helpLines t ∧
    (helpLines s = front ++ [last] ∨ helpLines s = front ++ [last ++ [13]]) := by
  unfold helpLines
  induction s using normalize.induct with
  | case1 => exact ⟨[], [], by simp [normalize, List.splitOnP_cons_eq_if_modifyHead], .inl rfl⟩
  | case2 s ih =>
    obtain ⟨front, last, hboth, hs⟩ := ih
    refine ⟨[] :: front, last, ?_, ?_⟩
    · simp [normalize, List.splitOnP_cons_eq_if_modifyHead, hboth]
    · simpa [normalize, List.splitOnP_cons_eq_if_modifyHead] using hs
  | case3 u s hpair ih =>
    by_cases hreturn : u = 13 ∧ s = []
    · -- the carriage return goes with the line feed behind it
      obtain ⟨rfl, rfl⟩ := hreturn
      exact ⟨[], [], by simp [normalize, List.splitOnP_cons_eq_if_modifyHead], .inr rfl⟩
    · have hnormalize (t : Text) (ht : s = [] → u ≠ 13) : normalize (u :: (s ++ 10 :: t)) = u :: normalize (s ++ 10 :: t) := by
        rw [normalize]
        rintro t' rfl heq
        cases s with
        | nil => exact ht rfl rfl
        | cons v s => exact hpair s rfl (by rw [(List.cons.inj heq).1])
      have hself : normalize (u :: s) = u :: normalize s := by
        rw [normalize]
        exact hpair
      obtain ⟨front, last, hboth, hs⟩ := ih
      rw [List.cons_append, hnormalize t fun hnil heq => hreturn ⟨heq, hnil⟩, hself, List.splitOnP_cons_eq_if_modifyHead,
        List.splitOnP_cons_eq_if_modifyHead, hboth]
      by_cases hu : (u == 10) = true
      · rw [if_pos hu, if_pos hu]
        refine ⟨[] :: front, last, rfl, ?_⟩
        rcases hs with hs | hs
        · exact .inl (by rw [hs]; rfl)
        · exact .inr (by rw [hs]; rfl)
      · rw [if_neg hu, if_neg hu]
        cases front with
        | nil =>
          refine ⟨[], u :: last, rfl, ?_⟩
          rcases hs with hs | hs
          · exact .inl (by rw [hs]; rfl)
          · exact .inr (by rw [hs]; rfl)
        | cons l front =>
          refine ⟨(u :: l) :: front, last, rfl, ?_⟩
          rcases hs with hs | hs
          · exact .inl (by rw [hs]; rfl)
          · exact .inr (by rw [hs]; rfl)

theorem helpLines_of_not_mem {s : Text} (h : 10 ∉ s) : helpLines s = [s] := by
  have hnormalize : normalize s = s := by
    induction s using normalize.induct with
    | case1 => rfl
    | case2 s ih => exact absurd (by simp) h
    | case3 u s hpair ih =>
      rw [normalize]
      · rw [ih fun hmem => h (List.mem_cons_of_mem _ hmem)]
      · exact hpair
  unfold helpLines
  rw [hnormalize]
  refine List.splitOnP_eq_singleton fun u hu => ?_
  rw [beq_eq_false_iff_ne]
  rintro rfl
  exact h hu

/-- The flags of lines, after the names in `seen`. -/
def flagsOf (L : LowerCase) (seen lines : List Text) : List ParsedFlag :=
  (declared seen lines).map fun d => flagOf L d.decl d.after

theorem lookAhead_map_trim (after : List Text) : lookAhead (after.map trim) = (lookAhead after).map trim := by
  induction after with
  | nil => rfl
  | cons cont lines ih =>
    rw [List.map_cons, lookAhead, lookAhead, trim_trim, splitFlagLine_trim, mentions_possible_trim, ih]
    split_ifs <;> rfl

theorem flagOf_map_trim (decl : FlagDeclaration) (after : List Text) : flagOf L decl (after.map trim) = flagOf L decl after := by
  have hjoined (ls : List Text) : joined (ls.map trim) = joined ls := by
    unfold joined
    rw [List.flatMap_map]
    simp only [trim_trim]
  have hsource : enumSource decl (after.map trim) = enumSource decl after := by
    rw [enumSource, lookAhead_map_trim, hjoined]
    rfl
  unfold flagOf
  rw [hsource]

/-- White space at the ends of the lines makes no difference. -/
theorem flagsOf_map_trim (seen lines : List Text) : flagsOf L seen (lines.map trim) = flagsOf L seen lines := by
  induction lines generalizing seen with
  | nil => rfl
  | cons line after ih =>
    unfold flagsOf at ih ⊢
    rw [List.map_cons, declared, declared, splitFlagLine_trim]
    cases splitFlagLine line with
    | none => exact ih seen
    | some decl =>
      dsimp only
      split_ifs
      · rw [List.map_cons, List.map_cons, ih]
        exact congrArg (· :: _) (flagOf_map_trim decl after)
      · exact ih seen

theorem flagsOf_congr {seen lines lines' : List Text} (h : lines.map trim = lines'.map trim) :
    flagsOf L seen lines = flagsOf L seen lines' := by
  rw [← flagsOf_map_trim, h, flagsOf_map_trim]

theorem lookAhead_append (after more : List Text) : lookAhead (after ++ [] :: more) = lookAhead after := by
  induction after with
  | nil => rfl
  | cons cont lines ih => rw [List.cons_append, lookAhead, lookAhead, ih]

/-- **A blank line separates the flags** of what is before it from what is behind it. -/
theorem flagsOf_append (seen lines more : List Text) : flagsOf L seen (lines ++ [] :: more) =
    flagsOf L seen lines ++ flagsOf L (seen ++ (declared seen lines).map fun d => d.decl.name) more := by
  induction lines generalizing seen with
  | nil =>
    have hblank : declared seen ([] :: more) = declared seen more := rfl
    have hnone : declared seen [] = [] := rfl
    unfold flagsOf
    rw [List.nil_append, hblank, hnone]
    simp
  | cons line after ih =>
    unfold flagsOf at ih ⊢
    rw [List.cons_append, declared, declared]
    cases splitFlagLine line with
    | none => exact ih seen
    | some decl =>
      dsimp only
      split_ifs
      · rw [List.map_cons, ih]
        have hflag : flagOf L decl (after ++ [] :: more) = flagOf L decl after := by
          unfold flagOf enumSource
          rw [lookAhead_append]
        simp [hflag]
      · exact ih seen

/-- Names that do not come again make no difference. -/
theorem declared_of_new (old : List Text) {lines : List Text}
    (h : ∀ line ∈ lines, ∀ decl, splitFlagLine line = some decl → decl.name ∉ old)
    (seen : List Text) : declared (old ++ seen) lines = declared seen lines := by
  induction lines generalizing seen with
  | nil => rfl
  | cons line after ih =>
    have hafter := ih fun l hl => h l (List.mem_cons_of_mem _ hl)
    rw [declared, declared]
    cases hline : splitFlagLine line with
    | none => exact hafter seen
    | some decl =>
      have hnew := h line List.mem_cons_self decl hline
      dsimp only
      rw [List.append_assoc, hafter, hafter]
      simp [hnew]

/-! ## What is accounted for -/

/-- A flag is that of its own lines. -/
structure Describes (L : LowerCase) (flag : ParsedFlag) (d : Declaration) : Prop where
  name : flag.name ∈ leadingTokens d.line
  aliases : ∀ token ∈ flag.aliases, token ∈ leadingTokens d.line
  /-- Its values stand in its block. -/
  values : ∀ value ∈ flag.enumValues, value <:+: blockText L d.line d.after
  /-- It is dangerous if a danger keyword is in one of its names or in what is said of it. -/
  safety : (hasDangerWord L flag.name ∨ (∃ token ∈ flag.aliases, hasDangerWord L token) ∨
    hasDangerWord L (d.decl.description ++ joined (block L d.after))) → flag.safety = .dangerous

/-- No flag token stands in both texts. -/
def Unshared (helpText other : Text) : Prop := ∀ line ∈ helpLines helpText, ∀ line' ∈ helpLines other, ∀ decl decl',
  splitFlagLine line = some decl → splitFlagLine line' = some decl' → ∀ token ∈ decl.tokens, token ∉ decl'.tokens

/-- **Nothing is dropped, and nothing is mixed.** -/
structure Accounted (L : LowerCase) (checksumText : Text → Text) (helpText : Text) : Prop where
  /-- A line that begins with a dash gives a flag, or a record. -/
  kept : ∀ line ∈ helpLines helpText, isDashed (trim line) = true →
    (∃ flag ∈ (parseHelpText L checksumText helpText).flags, ∀ token ∈ leadingTokens line,
      token = flag.name ∨ token ∈ flag.aliases) ∨
        ∃ record ∈ (parseHelpText L checksumText helpText).discoveredUnmapped, record.raw = trim line
  distinct : ((parseHelpText L checksumText helpText).flags.map ParsedFlag.name).Nodup
  described : List.Forall₂ (Describes L) (parseHelpText L checksumText helpText).flags (declared [] (helpLines helpText))
  /-- Behind a blank line and a header, the flags of another text follow. -/
  appended : ∀ header other, 10 ∉ header → isHeader L header = true → Unshared helpText other →
    (parseHelpText L checksumText (helpText ++ 10 :: 10 :: header ++ 10 :: other)).flags =
      (parseHelpText L checksumText helpText).flags ++ (parseHelpText L checksumText other).flags

/-- **The leading tokens of a flag line** are all read off one first line: none stands behind the first gap only, and a line
that repeats a name brings none that its first line does not have. -/
def Collected (helpText : Text) : Prop := ∀ line ∈ helpLines helpText, ∀ decl, splitFlagLine line = some decl →
  decl.parses = true → ∃ d ∈ declared [] (helpLines helpText), ∀ token ∈ leadingTokens line, token ∈ d.decl.tokens

/-- **A danger keyword in an alias, or in the lines below a declaration**, is also in its name or its own line. -/
def Warned (L : LowerCase) (helpText : Text) : Prop := ∀ d ∈ declared [] (helpLines helpText),
  ((∃ token ∈ d.decl.aliases, hasDangerWord L token) ∨ hasDangerWord L (d.decl.description ++ joined (block L d.after))) →
    isDangerous L d.decl.name d.decl.description = true

/-- **The values of a declaration are looked for in its block**: what stands from the header of a section on makes no difference,
and no list is found before the gap of the line, where commas count as blanks, unless it stands in the block as it is found. -/
def Plain (L : LowerCase) (helpText : Text) : Prop := ∀ d ∈ declared [] (helpLines helpText),
  extractEnumValues (enumSource d.decl d.after) = extractEnumValues (enumSource d.decl (block L d.after)) ∧
    (searchAfter possibleValues none d.decl.afterFlags = none ∨
      ∀ list ∈ searchAfter possibleValues none (enumSource d.decl (block L d.after)), list <:+: blockText L d.line d.after)

theorem splitFlagLine_of_isHeader (hL : KeepsMarks L) {line : Text} (h : isHeader L line = true) : splitFlagLine line = none := by
  rw [splitFlagLine_eq_none_iff, ← Bool.not_eq_true]
  intro hdashed
  rw [isHeader_of_isDashed hL hdashed] at h
  cases h

theorem flags_eq_flagsOf (hL : KeepsMarks L) (helpText : Text) :
    (parseHelpText L checksumText helpText).flags = flagsOf L [] (helpLines helpText) := flags_parseHelpText hL helpText

/-- **The flags of two texts.** -/
theorem flags_append (hL : KeepsMarks L) {helpText header other : Text} (hline : 10 ∉ header) (hheader : isHeader L header = true)
    (hunshared : Unshared helpText other) :
    (parseHelpText L checksumText (helpText ++ 10 :: 10 :: header ++ 10 :: other)).flags =
      (parseHelpText L checksumText helpText).flags ++ (parseHelpText L checksumText other).flags := by
  rw [flags_eq_flagsOf hL, flags_eq_flagsOf hL, flags_eq_flagsOf hL]
  obtain ⟨front, last, hboth, hself⟩ := helpLines_append helpText (10 :: header ++ 10 :: other)
  obtain ⟨front', last', hrest, hheading⟩ := helpLines_append (10 :: header) other
  have hblank : helpLines (10 :: header) = [[], header] := by
    have hsplit : helpLines (10 :: header) = [] :: helpLines header := by
      simp [helpLines, normalize, List.splitOnP_cons_eq_if_modifyHead]
    rw [hsplit, helpLines_of_not_mem hline]
  have hshape : helpText ++ 10 :: 10 :: header ++ 10 :: other = helpText ++ 10 :: (10 :: header ++ 10 :: other) := by simp
  -- a carriage return at the end of a line is trimmed away
  have htrims : (helpLines (helpText ++ 10 :: 10 :: header ++ 10 :: other)).map trim =
      ((helpLines helpText ++ [] :: header :: helpLines other)).map trim := by
    have hreturn (l : Text) : trim (l ++ [13]) = trim l := by
      have := trim_append (a := []) (b := [13]) (fun u hu => absurd hu List.not_mem_nil) (by decide) l
      simpa using this
    have hfirst : (front ++ [last]).map trim = (helpLines helpText).map trim := by
      rcases hself with hself | hself
      · rw [hself]
      · rw [hself, List.map_append, List.map_append, List.map_singleton, List.map_singleton, hreturn]
    have hsecond : (front' ++ [last']).map trim = [[], header].map trim := by
      rw [← hblank]
      rcases hheading with hheading | hheading
      · rw [hheading]
      · rw [hheading, List.map_append, List.map_append, List.map_singleton, List.map_singleton, hreturn]
    rw [hshape, hboth, hrest]
    have hlists : front ++ last :: (front' ++ last' :: helpLines other) =
        (front ++ [last]) ++ (front' ++ [last']) ++ helpLines other := by
      simp
    rw [hlists, List.map_append, List.map_append, hfirst, hsecond]
    simp
  rw [flagsOf_congr htrims, flagsOf_append]
  congr 1
  unfold flagsOf
  rw [declared, splitFlagLine_of_isHeader hL hheader]
  dsimp only
  have hnew : ∀ line ∈ helpLines other, ∀ decl, splitFlagLine line = some decl →
      decl.name ∉ [] ++ (declared [] (helpLines helpText)).map fun d => d.decl.name := by
    intro line hmem decl hdecl hname
    rw [List.nil_append] at hname
    obtain ⟨d, hd, heq⟩ := List.mem_map.1 hname
    obtain ⟨hmem', hsplit, -, -⟩ := mem_declared hd
    have htoken := name_mem_tokens (tokens_ne_nil hsplit)
    rw [heq] at htoken
    exact hunshared d.line hmem' line hmem d.decl decl hsplit hdecl _ htoken (name_mem_tokens (tokens_ne_nil hdecl))
  have hsame := declared_of_new _ hnew []
  rw [List.append_nil] at hsame
  rw [hsame]

/-- A keyword in the name of a flag makes it dangerous. -/
theorem isDangerous_of_name (hL : KeepsMarks L) {name description : Text} (h : hasDangerWord L name = true) :
    isDangerous L name description = true := by
  unfold isDangerous hasDangerWord at *
  rw [List.any_eq_true] at h ⊢
  obtain ⟨keyword, hmem, hin⟩ := h
  refine ⟨keyword, hmem, decide_eq_true ?_⟩
  rw [hL.blank]
  exact (of_decide_eq_true hin).trans (List.prefix_append _ _).isInfix

theorem flagOf_safety (decl : FlagDeclaration) (after : List Text) :
    (flagOf L decl after).safety = .dangerous ↔ isDangerous L decl.name decl.description = true := by
  unfold flagOf
  dsimp only
  split_ifs with h
  · simp [h]
  · simp [h]

/-- The names of a flag are those of its line. -/
theorem describes_iff (hL : KeepsMarks L) {lines : List Text} {d : Declaration} (hd : d ∈ declared [] lines) :
    Describes L (flagOf L d.decl d.after) d ↔
      (∀ value ∈ extractEnumValues (enumSource d.decl d.after), value <:+: blockText L d.line d.after) ∧
        (((∃ token ∈ d.decl.aliases, hasDangerWord L token) ∨ hasDangerWord L (d.decl.description ++ joined (block L d.after))) →
          isDangerous L d.decl.name d.decl.description = true) := by
  obtain ⟨-, hsplit, -, -⟩ := mem_declared hd
  have htokens := (tokens_begins hsplit).subset
  constructor
  · intro h
    exact ⟨h.values, fun hdanger => (flagOf_safety d.decl d.after).1 (h.safety (.inr hdanger))⟩
  · rintro ⟨hvalues, hwarned⟩
    refine ⟨htokens (name_mem_tokens (tokens_ne_nil hsplit)), fun token htoken => htokens (mem_aliases_iff.1 htoken).1, hvalues,
      fun hdanger => (flagOf_safety d.decl d.after).2 ?_⟩
    rcases hdanger with hname | hdanger
    · exact isDangerous_of_name hL hname
    · exact hwarned hdanger

/-- A record is that of a line that does not parse. -/
theorem kept_iff (hL : KeepsMarks L) (helpText : Text) : (∀ line ∈ helpLines helpText, isDashed (trim line) = true →
    (∃ flag ∈ (parseHelpText L checksumText helpText).flags, ∀ token ∈ leadingTokens line,
      token = flag.name ∨ token ∈ flag.aliases) ∨
        ∃ record ∈ (parseHelpText L checksumText helpText).discoveredUnmapped, record.raw = trim line) ↔ Collected helpText := by
  rw [flags_parseHelpText hL, unmapped_parseHelpText hL]
  constructor
  · intro h line hline decl hdecl hparses
    rcases h line hline (splitFlagLine_eq_some_iff.1 hdecl).1 with ⟨flag, hflag, htokens⟩ | ⟨record, hrecord, hraw⟩
    · obtain ⟨d, hd, rfl⟩ := List.mem_map.1 hflag
      obtain ⟨-, hsplit, -, -⟩ := mem_declared hd
      exact ⟨d, hd, fun token htoken => (token_iff (tokens_ne_nil hsplit)).1 (htokens token htoken)⟩
    · -- the record is of a line that reads alike, and that does not parse
      obtain ⟨line', -, hline'⟩ := List.mem_filterMap.1 hrecord
      unfold unmappedOf at hline'
      cases hsplit : splitFlagLine line' with
      | none =>
        rw [hsplit] at hline'
        cases hline'
      | some decl' =>
        rw [hsplit] at hline'
        dsimp only at hline'
        split_ifs at hline' with hparses'
        obtain rfl := Option.some.inj hline'
        rw [splitFlagLine_congr hraw, hdecl] at hsplit
        obtain rfl := Option.some.inj hsplit
        exact absurd hparses hparses'
  · intro h line hline hdashed
    obtain ⟨decl, hdecl⟩ : ∃ decl, splitFlagLine line = some decl := ⟨_, splitFlagLine_eq_some_iff.2 ⟨hdashed, rfl⟩⟩
    by_cases hparses : decl.parses = true
    · obtain ⟨d, hd, htokens⟩ := h line hline decl hdecl hparses
      obtain ⟨-, hsplit, -, -⟩ := mem_declared hd
      exact .inl ⟨_, List.mem_map_of_mem hd, fun token htoken => (token_iff (tokens_ne_nil hsplit)).2 (htokens token htoken)⟩
    · refine .inr ⟨⟨trim line, checksumText (trim line), unmappedReason⟩, List.mem_filterMap.2 ⟨line, hline, ?_⟩, rfl⟩
      unfold unmappedOf
      rw [hdecl]
      dsimp only
      rw [if_neg hparses]

/-- **What is left of it**: that the tokens are collected, that the dangers are named where they are looked for, and that the
values stand in their blocks. -/
theorem accounted_iff (hL : KeepsMarks L) (helpText : Text) : Accounted L checksumText helpText ↔
    Collected helpText ∧ Warned L helpText ∧ ∀ d ∈ declared [] (helpLines helpText),
      ∀ value ∈ extractEnumValues (enumSource d.decl d.after), value <:+: blockText L d.line d.after := by
  have hdescribed : List.Forall₂ (Describes L) (parseHelpText L checksumText helpText).flags (declared [] (helpLines helpText)) ↔
      ∀ d ∈ declared [] (helpLines helpText), Describes L (flagOf L d.decl d.after) d := by
    rw [flags_parseHelpText hL, List.forall₂_map_left_iff, List.forall₂_same]
  constructor
  · intro h
    have hflag (d : Declaration) (hd : d ∈ declared [] (helpLines helpText)) :=
      (describes_iff hL hd).1 (hdescribed.1 h.described d hd)
    exact ⟨(kept_iff hL helpText).1 h.kept, fun d hd => (hflag d hd).2, fun d hd => (hflag d hd).1⟩
  · rintro ⟨hcollected, hwarned, hvalues⟩
    refine ⟨(kept_iff hL helpText).2 hcollected, ?_,
      hdescribed.2 fun d hd => (describes_iff hL hd).2 ⟨hvalues d hd, hwarned d hd⟩,
      fun header other hline hheader hunshared => flags_append hL hline hheader hunshared⟩
    rw [flags_parseHelpText hL, List.map_map]
    exact nodup_declared [] (helpLines helpText)

theorem keepsMarks_asciiLowerCase : KeepsMarks asciiLowerCase where
  dash _ := rfl
  blank _ _ := List.map_append

end LlmGateway.Help
