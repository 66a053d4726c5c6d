import LlmGateway.Help.Parser
import LlmGateway.Lib.Trim

/-!
# The flag lines of a help text

* `declared` — the flag lines that come first for their names, each with the lines after it;
* `flags_parseHelpText`, `unmapped_parseHelpText` — the flags are those of these lines, and the records those of the lines that
  do not parse.
-/

namespace LlmGateway.Help

open LlmGateway.Lib.Utf16 LlmGateway.Lib.Regex

variable {L : LowerCase} {checksumText : Text → Text}

/-! ## Lines -/

theorem splitFlagLine_congr {l l' : Text} (h : trim l = trim l') : splitFlagLine l = splitFlagLine l' := by
  unfold splitFlagLine
  rw [h]

theorem splitFlagLine_trim (l : Text) : splitFlagLine (trim l) = splitFlagLine l := splitFlagLine_congr (trim_trim l)

theorem splitGap_eq {s front back : Text} (h : splitGap s = some (front, back)) : s = front ++ back := by
  induction s generalizing front with
  | nil => cases h
  | cons u s ih =>
    cases s with
    | nil => cases h
    | cons v s =>
      rw [splitGap] at h
      split_ifs at h with hgap
      · obtain ⟨rfl, rfl⟩ := Prod.mk.inj (Option.some.inj h)
        rfl
      · obtain ⟨r, hr, heq⟩ := Option.map_eq_some_iff.1 h
        obtain ⟨rfl, rfl⟩ := Prod.mk.inj heq
        exact congrArg (u :: ·) (ih hr)

/-- The part of a line before its first gap. -/
def declPart (line : Text) : Text := ((splitGap (trim line)).map Prod.fst).getD (trim line)

/-- What stands between the commas and blanks of a text. -/
def pieces (s : Text) : List Text := (s.splitOnP fun u => u == 0x2C || isSpace u).filter fun piece => !piece.isEmpty

/-- The text before a description: two blanks begin that, unless a comma stands before or behind the blanks. -/
def beforeDescription : Bool → Text → Text
  | _, [] => []
  | comma, u :: s =>
    if !comma && isSpace u && s.head?.any isSpace && (s.dropWhile isSpace).head? != some 0x2C then []
    else u :: beforeDescription (u == 0x2C || (comma && isSpace u)) s

/-- The leading flag tokens of a line, on either side of a gap that belongs to a comma. -/
def leadingTokens (line : Text) : List Text := (pieces (beforeDescription false (trim line))).takeWhile isDashed

example : leadingTokens (text "  -x,  --foo  Desc -y") = [text "-x", text "--foo"] := by decide +kernel

theorem splitFlagLine_eq_some_iff {line : Text} {decl : FlagDeclaration} : splitFlagLine line = some decl ↔
    isDashed (trim line) = true ∧
      decl = ⟨(pieces (declPart line)).takeWhile isDashed, List.intercalate [0x20] ((pieces (declPart line)).dropWhile isDashed),
        ((splitGap (trim line)).map fun gap => trim gap.2).getD []⟩ := by
  unfold splitFlagLine
  dsimp only
  split_ifs with hdashed
  · rw [Option.some.injEq, eq_comm]
    exact ⟨fun h => ⟨hdashed, h⟩, fun h => h.2⟩
  · exact ⟨fun h => absurd h (by simp), fun h => absurd h.1 hdashed⟩

theorem splitFlagLine_eq_none_iff {line : Text} : splitFlagLine line = none ↔ isDashed (trim line) = false := by
  unfold splitFlagLine
  dsimp only
  split_ifs with hdashed
  · simp [hdashed]
  · simp [hdashed]

theorem declPart_begins (line : Text) : declPart line <+: trim line := by
  unfold declPart
  cases hgap : splitGap (trim line) with
  | none => exact List.prefix_rfl
  | some gap =>
    rw [splitGap_eq hgap]
    exact List.prefix_append _ _

/-- A list of flags goes on behind the first gap, or ends with it. -/
theorem beforeDescription_eq (comma : Bool) (s : Text) : ∃ rest,
    beforeDescription comma s = ((splitGap s).map Prod.fst).getD s ++ rest ∧ ∀ u ∈ rest.head?, isSpace u = true := by
  induction s generalizing comma with
  | nil => exact ⟨[], rfl, fun u hu => absurd hu (by simp)⟩
  | cons u s ih =>
    cases s with
    | nil => exact ⟨[], by simp [beforeDescription, splitGap], fun u hu => absurd hu (by simp)⟩
    | cons v s =>
      by_cases hgap : (isSpace u && isSpace v) = true
      · refine ⟨beforeDescription comma (u :: v :: s), by rw [splitGap, if_pos hgap]; rfl, fun w hw => ?_⟩
        rw [beforeDescription] at hw
        split_ifs at hw
        · cases hw
        · obtain rfl := Option.some.inj hw
          exact (Bool.and_eq_true _ _ ▸ hgap).1
      · obtain ⟨rest, hrest, hspace⟩ := ih (u == 0x2C || (comma && isSpace u))
        have hgoes : ¬(!comma && isSpace u && (v :: s).head?.any isSpace && ((v :: s).dropWhile isSpace).head? != some 0x2C) = true := by
          intro h
          simp only [Bool.and_eq_true] at h
          exact hgap (by rw [Bool.and_eq_true]; exact ⟨h.1.1.2, h.1.2⟩)
        refine ⟨rest, ?_, hspace⟩
        rw [beforeDescription, if_neg hgoes, hrest, splitGap, if_neg hgap]
        cases splitGap (v :: s) <;> rfl

theorem pieces_begins {s rest : Text} (h : ∀ u ∈ rest.head?, isSpace u = true) : pieces s <+: pieces (s ++ rest) := by
  cases rest with
  | nil => rw [List.append_nil]
  | cons u rest =>
    unfold pieces
    rw [List.splitOnP_append_cons s rest (by simp [h u rfl]), List.filter_append]
    exact List.prefix_append _ _

theorem takeWhile_begins {α : Type*} (p : α → Bool) {l l' : List α} (h : l <+: l') : l.takeWhile p <+: l'.takeWhile p := by
  obtain ⟨rest, rfl⟩ := h
  rw [List.takeWhile_append]
  split_ifs with hall
  · exact (List.takeWhile_prefix p).trans (List.prefix_append _ _)
  · exact List.prefix_rfl

/-- The tokens that are read off a line are the first of its leading tokens. -/
theorem tokens_begins {line : Text} {decl : FlagDeclaration} (h : splitFlagLine line = some decl) :
    decl.tokens <+: leadingTokens line := by
  obtain ⟨-, rfl⟩ := splitFlagLine_eq_some_iff.1 h
  obtain ⟨rest, hrest, hspace⟩ := beforeDescription_eq false (trim line)
  unfold leadingTokens
  rw [hrest]
  exact takeWhile_begins isDashed (pieces_begins hspace)

/-- The description is the end of the line. -/
theorem description_suffix {line : Text} {decl : FlagDeclaration} (h : splitFlagLine line = some decl) :
    decl.description <:+ trim line := by
  obtain ⟨-, rfl⟩ := splitFlagLine_eq_some_iff.1 h
  dsimp only
  cases hgap : splitGap (trim line) with
  | none => exact List.nil_suffix
  | some gap =>
    refine trim_suffix ?_
    conv_rhs => rw [splitGap_eq hgap]
    exact List.suffix_append _ _

theorem head_splitOnP_cons {p : UInt16 → Bool} {u : UInt16} (hu : p u = false) (s : Text) :
    ∃ x xs, (u :: s).splitOnP p = (u :: x) :: xs := by
  rw [List.splitOnP_cons_eq_if_modifyHead, hu, if_neg Bool.false_ne_true]
  obtain ⟨x, xs, hs⟩ := List.exists_cons_of_ne_nil (List.splitOnP_ne_nil p s)
  exact ⟨x, xs, by rw [hs]; rfl⟩

/-- The first piece of a line that begins with a dash is a token. -/
theorem tokens_ne_nil {line : Text} {decl : FlagDeclaration} (h : splitFlagLine line = some decl) : decl.tokens ≠ [] := by
  obtain ⟨hdashed, rfl⟩ := splitFlagLine_eq_some_iff.1 h
  have hpart : ∃ s, declPart line = 45 :: s := by
    obtain ⟨back, hback⟩ := declPart_begins line
    cases hd : declPart line with
    | nil =>
      -- a gap at the beginning would be white space
      unfold declPart at hd
      cases hgap : splitGap (trim line) with
      | none =>
        rw [hgap] at hd
        rw [show trim line = [] from hd] at hdashed
        cases hdashed
      | some gap =>
        have hspace : ∃ u ∈ (trim line).head?, isSpace u = true := by
          rw [hgap] at hd
          have hfront : gap.1 = [] := hd
          cases ht : trim line with
          | nil =>
            rw [ht] at hgap
            cases hgap
          | cons u s =>
            cases s with
            | nil =>
              rw [ht] at hgap
              cases hgap
            | cons v s =>
              rw [ht, splitGap] at hgap
              split_ifs at hgap with hboth
              · exact ⟨u, rfl, (Bool.and_eq_true _ _ ▸ hboth).1⟩
              · obtain ⟨r, -, heq⟩ := Option.map_eq_some_iff.1 hgap
                rw [← heq] at hfront
                cases hfront
        obtain ⟨u, hu, hspace⟩ := hspace
        rw [head_of_trim line u hu] at hspace
        cases hspace
    | cons u s =>
      rw [hd] at hback
      rw [← hback] at hdashed
      have hu : u = 45 := by simpa [isDashed] using hdashed
      exact ⟨s, by rw [hu]⟩
  obtain ⟨s, hs⟩ := hpart
  obtain ⟨x, xs, hsplit⟩ := head_splitOnP_cons (p := fun u => u == 0x2C || isSpace u) (u := 45) (by decide) s
  dsimp only
  rw [pieces, hs, hsplit, List.filter_cons_of_pos (by rfl), List.takeWhile_cons_of_pos (by rfl)]
  exact List.cons_ne_nil _ _

/-! ## The lines with flags -/

/-- `toLowerCase` leaves dashes and blanks alone, and no character has effect across a blank. -/
structure KeepsMarks (L : LowerCase) : Prop where
  dash : ∀ s, L.toLowerCase (45 :: s) = 45 :: L.toLowerCase s
  blank : ∀ s t, L.toLowerCase (s ++ 0x20 :: t) = L.toLowerCase s ++ 0x20 :: L.toLowerCase t

def isHeader (L : LowerCase) (line : Text) : Bool := isSubcommandHeader L line || isFlagHeader L line

theorem isHeader_of_isDashed (hL : KeepsMarks L) {line : Text} (h : isDashed (trim line) = true) : isHeader L line = false := by
  obtain ⟨s, hs⟩ : ∃ s, trim line = 45 :: s := by
    cases ht : trim line with
    | nil =>
      rw [ht] at h
      cases h
    | cons u s =>
      rw [ht] at h
      have hu : u = 45 := by simpa [isDashed] using h
      exact ⟨s, by rw [hu]⟩
  have hlower : L.toLowerCase (trim line) = 45 :: L.toLowerCase s := by rw [hs, hL.dash]
  have husage : ¬text "usage" <+: 45 :: L.toLowerCase s := by
    rintro ⟨t, ht⟩
    exact absurd (List.cons.inj ht).1 (by decide)
  have hno (headers : List String) (hheaders : ∀ header ∈ headers, (text header).head? ≠ some 45) :
      (headers.any fun header => 45 :: L.toLowerCase s == text header) = false := by
    rw [List.any_eq_false]
    intro header hheader heq
    rw [beq_iff_eq] at heq
    exact hheaders header hheader (by rw [← heq]; rfl)
  rw [isHeader, isSubcommandHeader, isFlagHeader, hlower, hno _ (by decide), hno _ (by decide), decide_eq_false husage]
  rfl

theorem ne_nil_of_isDashed {s : Text} (h : isDashed s = true) : s ≠ [] := by
  rintro rfl
  cases h

/-- A line that declares a flag, and the lines after it. -/
structure Declaration where
  line : Text
  decl : FlagDeclaration
  after : List Text
  deriving DecidableEq

/-- The flag lines that come first for their names; the names in `seen` have been there. -/
def declared (seen : List Text) : List Text → List Declaration
  | [] => []
  | line :: after =>
    match splitFlagLine line with
    | some decl =>
      if decl.parses ∧ decl.name ∉ seen then ⟨line, decl, after⟩ :: declared (seen ++ [decl.name]) after
      else declared seen after
    | none => declared seen after

/-- The record of a line, if it begins with a dash and does not parse. -/
def unmappedOf (checksumText : Text → Text) (line : Text) : Option DiscoveredUnmapped :=
  match splitFlagLine line with
  | some decl => if decl.parses then none else some ⟨trim line, checksumText (trim line), unmappedReason⟩
  | none => none

/-- What a line without a flag leaves as it is. -/
theorem parseLine_none (st : ParseState) {line : Text} (after : List Text) (h : splitFlagLine line = none) :
    (parseLine L checksumText st line after).flags = st.flags ∧
      (parseLine L checksumText st line after).seenFlagNames = st.seenFlagNames ∧
      (parseLine L checksumText st line after).discoveredUnmapped = st.discoveredUnmapped := by
  have hsubcommand : (parseSubcommand checksumText st line).flags = st.flags ∧
      (parseSubcommand checksumText st line).seenFlagNames = st.seenFlagNames ∧
      (parseSubcommand checksumText st line).discoveredUnmapped = st.discoveredUnmapped := by
    unfold parseSubcommand
    split
    · exact ⟨rfl, rfl, rfl⟩
    · split_ifs <;> exact ⟨rfl, rfl, rfl⟩
  unfold parseLine
  rw [h]
  dsimp only
  split_ifs
  · exact ⟨rfl, rfl, rfl⟩
  · exact ⟨rfl, rfl, rfl⟩
  · exact ⟨rfl, rfl, rfl⟩
  · exact hsubcommand
  · exact ⟨rfl, rfl, rfl⟩

theorem parseLine_some (hL : KeepsMarks L) {st : ParseState} {line : Text} {after : List Text} {decl : FlagDeclaration}
    (h : splitFlagLine line = some decl) :
    parseLine L checksumText st line after = parseFlag L checksumText st line decl after := by
  have hdashed := (splitFlagLine_eq_some_iff.1 h).1
  have hheader := isHeader_of_isDashed hL hdashed
  rw [isHeader, Bool.or_eq_false_iff] at hheader
  have hne : (trim line).isEmpty = false := by simpa using ne_nil_of_isDashed hdashed
  rw [parseLine, hne, hheader.1, hheader.2, h]
  rfl

/-- **The flags are those of the first lines for their names**, and the records those of the lines that do not parse. -/
theorem flags_parseLines (hL : KeepsMarks L) (st : ParseState) (lines : List Text) :
    (parseLines L checksumText st lines).flags =
        st.flags ++ ((declared st.seenFlagNames lines).map fun d => flagOf L d.decl d.after) ∧
      (parseLines L checksumText st lines).discoveredUnmapped =
        st.discoveredUnmapped ++ lines.filterMap (unmappedOf checksumText) := by
  induction lines generalizing st with
  | nil => exact ⟨(List.append_nil _).symm, (List.append_nil _).symm⟩
  | cons line after ih =>
    rw [parseLines, (ih _).1, (ih _).2, declared, List.filterMap_cons]
    cases h : splitFlagLine line with
    | none =>
      rw [(parseLine_none st after h).1, (parseLine_none st after h).2.1, (parseLine_none st after h).2.2, unmappedOf, h]
      exact ⟨rfl, rfl⟩
    | some decl =>
      rw [parseLine_some hL h, parseFlag, unmappedOf, h]
      dsimp only
      by_cases hparses : decl.parses = true
      · by_cases hseen : decl.name ∈ st.seenFlagNames
        · simp [hparses, hseen]
        · simp [hparses, hseen]
      · simp [hparses]

theorem flags_parseHelpText (hL : KeepsMarks L) (helpText : Text) : (parseHelpText L checksumText helpText).flags =
    (declared [] (helpLines helpText)).map fun d => flagOf L d.decl d.after := (flags_parseLines hL _ _).1

theorem unmapped_parseHelpText (hL : KeepsMarks L) (helpText : Text) :
    (parseHelpText L checksumText helpText).discoveredUnmapped = (helpLines helpText).filterMap (unmappedOf checksumText) :=
  (flags_parseLines hL _ _).2

/-! ## First lines -/

/-- A first line is one of the lines, and it parses. -/
theorem mem_declared {seen lines : List Text} {d : Declaration} (h : d ∈ declared seen lines) :
    d.line ∈ lines ∧ splitFlagLine d.line = some d.decl ∧ d.decl.parses = true ∧ d.decl.name ∉ seen := by
  induction lines generalizing seen with
  | nil => cases h
  | cons line after ih =>
    rw [declared] at h
    have hrest (seen' : List Text) (hsub : seen ⊆ seen') (h : d ∈ declared seen' after) : d.line ∈ line :: after ∧
        splitFlagLine d.line = some d.decl ∧ d.decl.parses = true ∧ d.decl.name ∉ seen := by
      obtain ⟨hmem, hsplit, hparses, hseen⟩ := ih h
      exact ⟨List.mem_cons_of_mem _ hmem, hsplit, hparses, fun hmem => hseen (hsub hmem)⟩
    cases hline : splitFlagLine line with
    | none =>
      rw [hline] at h
      exact hrest seen (List.Subset.refl _) h
    | some decl =>
      rw [hline] at h
      dsimp only at h
      split_ifs at h with hfirst
      · rcases List.mem_cons.1 h with rfl | h
        · exact ⟨List.mem_cons_self, hline, hfirst.1, hfirst.2⟩
        · exact hrest _ (List.subset_append_left _ _) h
      · exact hrest seen (List.Subset.refl _) h

/-- The names of first lines are distinct. -/
theorem nodup_declared (seen lines : List Text) : ((declared seen lines).map fun d => d.decl.name).Nodup := by
  induction lines generalizing seen with
  | nil => exact List.nodup_nil
  | cons line after ih =>
    rw [declared]
    cases hline : splitFlagLine line with
    | none => exact ih seen
    | some decl =>
      dsimp only
      split_ifs with hfirst
      · rw [List.map_cons, List.nodup_cons]
        refine ⟨fun hmem => ?_, ih _⟩
        obtain ⟨d, hd, hname⟩ := List.mem_map.1 hmem
        obtain ⟨-, -, -, hnot⟩ := mem_declared hd
        exact hnot (List.mem_append_right _ (by rw [hname]; exact List.mem_singleton_self _))
      · exact ih seen

theorem name_mem_tokens {decl : FlagDeclaration} (h : decl.tokens ≠ []) : decl.name ∈ decl.tokens := by
  unfold FlagDeclaration.name
  cases hfind : decl.tokens.find? fun token => token.take 2 == [45, 45] with
  | some token => exact List.mem_of_find?_eq_some hfind
  | none =>
    obtain ⟨t, ts, hts⟩ := List.exists_cons_of_ne_nil h
    rw [hts]
    exact List.mem_cons_self

theorem mem_aliases_iff {decl : FlagDeclaration} {token : Text} :
    token ∈ decl.aliases ↔ token ∈ decl.tokens ∧ token ≠ decl.name := by
  rw [FlagDeclaration.aliases, List.mem_filter, bne_iff_ne]

theorem token_iff {decl : FlagDeclaration} (h : decl.tokens ≠ []) {token : Text} :
    token = decl.name ∨ token ∈ decl.aliases ↔ token ∈ decl.tokens := by
  constructor
  · rintro (rfl | hmem)
    · exact name_mem_tokens h
    · exact (mem_aliases_iff.1 hmem).1
  · intro hmem
    by_cases heq : token = decl.name
    · exact .inl heq
    · exact .inr (mem_aliases_iff.2 ⟨hmem, heq⟩)

end LlmGateway.Help
