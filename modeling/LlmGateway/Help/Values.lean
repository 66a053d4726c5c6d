import LlmGateway.Help.Declared
import Mathlib.Data.List.Forall2

/-!
# The values of a flag

* `block` — the lines that belong to a declaration: up to a flag line, a blank line, or a header of a section;
* `list_in_second`, `values_of_piped` — where the values come from;
* `values_in_lines` — they stand in the lines of their declaration, if none are listed before the gap.
-/

namespace LlmGateway.Help

open LlmGateway.Lib.Utf16 LlmGateway.Lib.Regex

variable {L : LowerCase}

/-- The lines after a declaration that belong to it. -/
def block (L : LowerCase) : List Text → List Text
  | [] => []
  | cont :: lines => if (trim cont).isEmpty || isDashed (trim cont) || isHeader L cont then [] else cont :: block L lines

/-- A declaration and the lines that belong to it. -/
def blockText (L : LowerCase) (line : Text) (after : List Text) : Text := trim line ++ joined (block L after)

theorem joined_append (ls ls' : List Text) : joined (ls ++ ls') = joined ls ++ joined ls' := List.flatMap_append

/-- The look-ahead reads lines in order, and stops somewhere. -/
theorem lookAhead_begins (lines : List Text) : lookAhead lines <+: lines := by
  induction lines with
  | nil => exact List.prefix_rfl
  | cons cont lines ih =>
    rw [lookAhead]
    split_ifs
    · exact List.nil_prefix
    · exact List.nil_prefix
    · exact List.prefix_append [cont] lines
    · exact List.cons_prefix_cons.2 ⟨rfl, ih⟩

/-! ## Words -/

theorem mentions_iff {w : String} {s : Text} : mentions w s = true ↔
    ∃ p, p <:+: s ∧ List.Forall₂ (fun like u => like u = true) (spelled w) p := isSome_search_word_iff

/-- The ends of what a word is matched by. -/
theorem head_of_forall₂ {ps : List (UInt16 → Bool)} {p : Text} (hp : List.Forall₂ (fun like u => like u = true) ps p)
    (hhead : ∃ like ∈ ps.head?, ∀ u, like u = true → isSpace u = false) : ∃ u ∈ p.head?, isSpace u = false := by
  obtain ⟨like, hlike, hspace⟩ := hhead
  cases hp with
  | nil => cases hlike
  | cons hu _ =>
    obtain rfl := Option.some.inj hlike
    exact ⟨_, rfl, hspace _ hu⟩

/-- White space at the ends does not matter to a word that has none there. -/
theorem mentions_trim {w : String} (hhead : ∃ like ∈ (spelled w).head?, ∀ u, like u = true → isSpace u = false)
    (hlast : ∃ like ∈ (spelled w).getLast?, ∀ u, like u = true → isSpace u = false) (s : Text) :
    mentions w (trim s) = mentions w s := by
  rw [Bool.eq_iff_iff, mentions_iff, mentions_iff]
  constructor
  · rintro ⟨p, hin, hp⟩
    exact ⟨p, hin.trans (isInfix_trim s), hp⟩
  · rintro ⟨p, hin, hp⟩
    have hfirst := head_of_forall₂ hp hhead
    have hend := head_of_forall₂ (List.forall₂_reverse_iff.2 hp) (by rwa [List.head?_reverse])
    rw [List.head?_reverse] at hend
    exact ⟨p, (isInfix_trim_iff hfirst hend).2 hin, hp⟩

theorem mentions_possible_trim (s : Text) : mentions "possible values:" (trim s) = mentions "possible values:" s := by
  refine mentions_trim ⟨letter 'p', rfl, fun u hu => ?_⟩ ⟨letter ':', rfl, fun u hu => ?_⟩ s
  · have hcases : u = 112 ∨ u = 80 := by simpa [letter] using hu
    rcases hcases with rfl | rfl <;> decide
  · have heq : u = 58 := by simpa [letter] using hu
    rw [heq]
    decide

/-! ## Parts of a text -/

section parts

variable {a : UInt16} {p : UInt16 → Bool} {s t u v x y : Text}

/-- A part without the separator is found on one side of it. -/
theorem isInfix_of_not_mem (hv : a ∉ v) (h : v <:+: x ++ a :: y) : v <:+: x ∨ v <:+: y := by
  obtain ⟨s, t, hs⟩ := h
  rcases List.append_eq_append_iff.1 hs with ⟨c, hx, -⟩ | ⟨c, hsv, hc⟩
  · exact .inl ⟨s, c, hx.symm⟩
  · cases c with
    | nil => exact .inl ⟨s, [], by rw [List.append_nil, hsv, List.append_nil]⟩
    | cons b c =>
      obtain ⟨rfl, hy⟩ := List.cons.inj hc
      rcases List.append_eq_append_iff.1 hsv with ⟨d, -, hd⟩ | ⟨d, -, hd⟩
      · exact absurd (by rw [hd]; simp) hv
      · cases d with
        | nil => exact absurd (by rw [← show a :: c = v from hd]; exact List.mem_cons_self) hv
        | cons b d =>
          obtain ⟨rfl, hcd⟩ := List.cons.inj hd
          exact .inr ⟨d, t, by rw [hy, hcd]; rfl⟩

theorem isInfix_of_mem_splitOnP (h : x ∈ s.splitOnP p) : x <:+: s := by
  have hparts : ∀ y ys, s.splitOnP p = y :: ys → y <+: s ∧ ∀ x ∈ ys, x <:+: s := by
    clear h
    induction s with
    | nil =>
      intro y ys h
      obtain ⟨rfl, rfl⟩ := List.cons.inj h
      exact ⟨List.prefix_rfl, fun x hx => absurd hx List.not_mem_nil⟩
    | cons b s ih =>
      intro y ys h
      obtain ⟨z, zs, hz⟩ := List.exists_cons_of_ne_nil (List.splitOnP_ne_nil p s)
      obtain ⟨hhead, htail⟩ := ih z zs hz
      rw [List.splitOnP_cons_eq_if_modifyHead, hz] at h
      split_ifs at h
      · obtain ⟨rfl, rfl⟩ := List.cons.inj h
        refine ⟨List.nil_prefix, fun x hx => ?_⟩
        rcases List.mem_cons.1 hx with rfl | hx
        · exact hhead.isInfix.trans (List.suffix_cons b s).isInfix
        · exact (htail x hx).trans (List.suffix_cons b s).isInfix
      · obtain ⟨rfl, rfl⟩ := List.cons.inj h
        exact ⟨List.cons_prefix_cons.2 ⟨rfl, hhead⟩, fun x hx => (htail x hx).trans (List.suffix_cons b s).isInfix⟩
  obtain ⟨y, ys, hys⟩ := List.exists_cons_of_ne_nil (List.splitOnP_ne_nil p s)
  obtain ⟨hhead, htail⟩ := hparts y ys hys
  rw [hys] at h
  rcases List.mem_cons.1 h with rfl | h
  · exact hhead.isInfix
  · exact htail x h

/-- A part without the separator is found in one of the texts that it joins. -/
theorem isInfix_of_intercalate {ps : List Text} (hv : a ∉ v) (hne : v ≠ []) (h : v <:+: List.intercalate [a] ps) :
    ∃ q ∈ ps, v <:+: q := by
  induction ps with
  | nil => exact absurd (List.infix_nil.1 h) hne
  | cons q ps ih =>
    cases ps with
    | nil => exact ⟨q, List.mem_cons_self, by simpa [List.intercalate] using h⟩
    | cons q' ps =>
      have hcons : List.intercalate [a] (q :: q' :: ps) = q ++ a :: List.intercalate [a] (q' :: ps) := by
        simp [List.intercalate]
      rw [hcons] at h
      rcases isInfix_of_not_mem hv h with h | h
      · exact ⟨q, List.mem_cons_self, h⟩
      · obtain ⟨q'', hq'', hin⟩ := ih h
        exact ⟨q'', List.mem_cons_of_mem _ hq'', hin⟩

/-- A value is a part of its list, and begins with no white space. -/
theorem isInfix_of_mem_splitValues (h : v ∈ splitValues a x) : v <:+: x ∧ v ≠ [] ∧ ∀ u ∈ v.head?, isSpace u = false := by
  obtain ⟨hmem, hne⟩ := List.mem_filter.1 h
  obtain ⟨segment, hsegment, rfl⟩ := List.mem_map.1 hmem
  exact ⟨(isInfix_trim segment).trans (isInfix_of_mem_splitOnP hsegment), by simpa using hne, head_of_trim segment⟩

end parts

/-! ## Where the values come from -/

/-- What a list of possible values is matched by. -/
theorem mem_possibleValues {before : Option UInt16} {s : Text} {r : Text × Text} (h : r ∈ possibleValues before s) :
    before.any isWord = false ∧ ∃ w blanks, s = w ++ blanks ++ (r.1 ++ r.2) ∧
      List.Forall₂ (fun like u => like u = true) (spelled "possible values:") w ∧ (∀ u ∈ blanks, isSpace u = true) ∧
      ∀ u ∈ r.1, (u != 0x5D && u != 0xA) = true := by
  obtain ⟨q, hq, h⟩ := mem_seq.1 h
  obtain ⟨hbefore, rfl⟩ := mem_here hq
  obtain ⟨q, hq, h⟩ := mem_seq.1 h
  obtain ⟨w, hw, hall⟩ := mem_word_iff.1 hq
  obtain ⟨q', hq', h⟩ := mem_seq.1 h
  obtain ⟨hblanks, hspace⟩ := mem_star hq'
  obtain ⟨hlist, hunits⟩ := mem_plus h
  dsimp only at hw hlist
  exact ⟨by simpa using hbefore, w, q'.1, by rw [hw, hblanks, hlist, List.append_assoc], hall, hspace, hunits⟩

/-- One character of a list is enough for a match. -/
theorem possibleValues_ne_nil {before : Option UInt16} {w blanks s : Text} {u : UInt16} (hbefore : before.any isWord = false)
    (hall : List.Forall₂ (fun like u => like u = true) (spelled "possible values:") w) (hspace : ∀ u ∈ blanks, isSpace u = true)
    (hu : (u != 0x5D && u != 0xA) = true) : possibleValues before (w ++ blanks ++ u :: s) ≠ [] := by
  refine List.ne_nil_of_mem (a := ([u], s)) ?_
  refine mem_seq.2 ⟨((), w ++ blanks ++ u :: s), by simp [here, hbefore], ?_⟩
  refine mem_seq.2 ⟨((), blanks ++ u :: s), mem_word_iff.2 ⟨w, List.append_assoc _ _ _, hall⟩, ?_⟩
  exact mem_seq.2 ⟨(blanks, u :: s), append_mem_star hspace _, cons_mem_plus (p := fun u => u != 0x5D && u != 0xA) hu s⟩

/-- **A list that begins in the first part is found there**; any other stands in the second. -/
theorem list_in_second {x y list : Text} (hnone : searchAfter possibleValues none x = none)
    (h : searchAfter possibleValues none (x ++ y) = some list) : list <:+: y := by
  obtain ⟨front, t, hs, r, hr⟩ := searchAfter_spec h
  obtain ⟨hbefore, w, blanks, rfl, hall, hspace, hunits⟩ := mem_possibleValues (List.mem_of_head? hr)
  dsimp only at hs hunits
  rw [← List.append_assoc] at hs
  rcases List.append_eq_append_iff.1 hs with ⟨c, -, hy⟩ | ⟨c, hx, hlist⟩
  · exact ⟨c, r, by rw [hy, List.append_assoc]⟩
  · cases c with
    | nil => exact ⟨[], r, hlist⟩
    | cons u c =>
      cases list with
      | nil => exact List.nil_infix
      | cons u' list =>
        obtain rfl : u' = u := (List.cons.inj hlist).1
        rw [hx, List.append_assoc] at hnone
        exact absurd (searchAfter_eq_none hnone) (possibleValues_ne_nil hbefore hall hspace (hunits u' List.mem_cons_self))

/-- What stands behind the first of the values between bars. -/
inductive Alternatives : Text → Prop
  | nil : Alternatives []
  | cons {before after value rest : Text} (hbefore : ∀ u ∈ before, isSpace u = true) (hafter : ∀ u ∈ after, isSpace u = true)
      (hvalue : ∀ u ∈ value, isValueUnit u = true) (hrest : Alternatives rest) :
      Alternatives (before ++ 0x7C :: after ++ value ++ rest)

theorem mem_alternative {s : Text} {r : Text × Text} (h : r ∈ alternative s) : s = r.1 ++ r.2 ∧
    ∀ t, Alternatives t → Alternatives (r.1 ++ t) := by
  obtain ⟨before, hbefore, h⟩ := mem_seq.1 h
  obtain ⟨bar, hbar, h⟩ := mem_seq.1 h
  obtain ⟨after, hafter, h⟩ := mem_seq.1 h
  obtain ⟨value, hvalue, h⟩ := mem_seq.1 h
  obtain ⟨-, rfl⟩ := mem_here h
  obtain ⟨hs, hbefore⟩ := mem_star hbefore
  obtain ⟨hs', hbar⟩ := mem_unit hbar
  obtain ⟨hs'', hafter⟩ := mem_star hafter
  obtain ⟨hrest, hvalue⟩ := mem_plus hvalue
  have hbar : bar.1 = 0x7C := by simpa using hbar
  dsimp only
  refine ⟨by rw [hs, hs', hs'', hrest]; simp, fun t ht => ?_⟩
  rw [hbar]
  exact .cons hbefore hafter hvalue ht

/-- Values between bars: one value, and more behind it. -/
theorem values_of_piped {s list : Text} (h : search (fun _ => pipedValues) true s = some list) :
    list <:+: s ∧ ∃ value rest, list = value ++ rest ∧ (∀ u ∈ value, isValueUnit u = true) ∧ Alternatives rest := by
  obtain ⟨-, t, ⟨front, hfront⟩, r, hr⟩ := search_spec h
  have hmem : (list, r) ∈ pipedValues t := List.mem_of_head? hr
  obtain ⟨bracket, hbracket, hmem⟩ := mem_seq.1 hmem
  obtain ⟨value, hvalue, hmem⟩ := mem_seq.1 hmem
  obtain ⟨next, hnext, hmem⟩ := mem_seq.1 hmem
  obtain ⟨more, hmore, hmem⟩ := mem_seq.1 hmem
  obtain ⟨last, hlast, hmem⟩ := mem_seq.1 hmem
  obtain ⟨-, heq⟩ := mem_here hmem
  obtain ⟨rfl, rfl⟩ := Prod.mk.inj heq
  obtain ⟨ht, -⟩ := mem_unit hbracket
  obtain ⟨ht', hvalue⟩ := mem_plus hvalue
  obtain ⟨ht'', hnext⟩ := mem_alternative hnext
  obtain ⟨hrest, hmore⟩ := mem_many .nil (fun _ _ => mem_alternative) hmore
  refine ⟨⟨front ++ [bracket.1], more.2, ?_⟩, value.1, next.1 ++ more.1, List.append_assoc _ _ _, hvalue, hnext _ hmore⟩
  rw [← hfront, ht, ht', ht'', hrest]
  simp

theorem isSpace_of_isValueUnit {u : UInt16} (h : isValueUnit u = true) : isSpace u = false := by
  rw [← Bool.not_eq_true]
  intro hspace
  simp only [isValueUnit, isLetter, isDigit, isSpace, Bool.or_eq_true, Bool.and_eq_true, decide_eq_true_eq, beq_iff_eq,
    UInt16.le_iff_toNat_le, ← UInt16.toNat_inj] at h hspace
  simp only [UInt16.reduceToNat] at h hspace
  omega

theorem bar_not_mem {v : Text} (h : ∀ u ∈ v, isSpace u = true ∨ isValueUnit u = true) : ∀ u ∈ v, (u == 0x7C) = false := by
  intro u hu
  rw [beq_eq_false_iff_ne]
  rintro rfl
  rcases h _ hu with h | h
  · exact absurd h (by decide)
  · exact absurd h (by decide)

/-- A value with white space around it. -/
theorem trim_value {before after value : Text} (hbefore : ∀ u ∈ before, isSpace u = true) (hafter : ∀ u ∈ after, isSpace u = true)
    (hvalue : ∀ u ∈ value, isValueUnit u = true) : trim (before ++ value ++ after) = value := by
  rw [trim_append hbefore hafter]
  exact trim_of_ends (fun u hu => isSpace_of_isValueUnit (hvalue u (List.mem_of_head? hu)))
    fun u hu => isSpace_of_isValueUnit (hvalue u (List.mem_of_getLast? hu))

/-- No bar stands in a value and the white space around it. -/
theorem no_bar {before after value : Text} (hbefore : ∀ u ∈ before, isSpace u = true) (hafter : ∀ u ∈ after, isSpace u = true)
    (hvalue : ∀ u ∈ value, isValueUnit u = true) : ∀ u ∈ before ++ value ++ after, (u == 0x7C) = false := by
  refine bar_not_mem fun u hu => ?_
  simp only [List.mem_append] at hu
  rcases hu with (hu | hu) | hu
  · exact .inl (hbefore u hu)
  · exact .inr (hvalue u hu)
  · exact .inl (hafter u hu)

/-- Values between bars have no white space in them. -/
theorem not_isSpace_of_piped {rest : Text} (hrest : Alternatives rest) (after : Text) {value : Text}
    (hafter : ∀ u ∈ after, isSpace u = true) (hvalue : ∀ u ∈ value, isValueUnit u = true) {v : Text}
    (h : v ∈ splitValues 0x7C (after ++ value ++ rest)) :
    ∀ u ∈ v, isSpace u = false := by
  induction hrest generalizing after value with
  | nil =>
    have hnil : ∀ u ∈ ([] : Text), isSpace u = true := fun u hu => absurd hu List.not_mem_nil
    unfold splitValues at h
    rw [List.splitOnP_eq_singleton (no_bar hafter hnil hvalue), List.map_singleton, trim_value hafter hnil hvalue] at h
    obtain rfl := List.mem_singleton.1 (List.mem_filter.1 h).1
    exact fun u hu => isSpace_of_isValueUnit (hvalue u hu)
  | @cons before after' value' rest hbefore hafter' hvalue' _ ih =>
    have hshape : after ++ value ++ (before ++ 0x7C :: after' ++ value' ++ rest) =
        (after ++ value ++ before) ++ 0x7C :: (after' ++ value' ++ rest) := by simp
    unfold splitValues at h
    rw [hshape, List.splitOnP_append_cons_of_forall_mem (no_bar hafter hbefore hvalue) 0x7C (by decide), List.map_cons,
      trim_value hafter hbefore hvalue] at h
    obtain ⟨hmem, hne⟩ := List.mem_filter.1 h
    rcases List.mem_cons.1 hmem with rfl | hmem
    · exact fun u hu => isSpace_of_isValueUnit (hvalue u hu)
    · exact ih _ hafter' hvalue' (List.mem_filter.2 ⟨hmem, hne⟩)

/-! ## Values stand in their lines -/

section lines

variable {line : Text} {decl : FlagDeclaration}

/-- The description and the look-ahead are part of the lines. -/
theorem rest_in_lines (h : splitFlagLine line = some decl) (lines : List Text) :
    decl.description ++ joined (lookAhead lines) <:+: trim line ++ joined lines := by
  obtain ⟨front, hfront⟩ := description_suffix h
  obtain ⟨rest, hrest⟩ := lookAhead_begins lines
  refine ⟨front, joined rest, ?_⟩
  conv_rhs => rw [← hrest, joined_append, ← hfront]
  simp only [List.append_assoc]

/-- A part of what follows the tokens, without a blank, stands in the line. -/
theorem afterFlags_in_line (h : splitFlagLine line = some decl) {v : Text} (hblank : 0x20 ∉ v) (hne : v ≠ [])
    (hv : v <:+: decl.afterFlags) : v <:+: trim line := by
  obtain ⟨-, rfl⟩ := splitFlagLine_eq_some_iff.1 h
  obtain ⟨piece, hpiece, hin⟩ := isInfix_of_intercalate hblank hne hv
  have hmem : piece ∈ pieces (declPart line) := (List.dropWhile_sublist _).subset hpiece
  have hpart := isInfix_of_mem_splitOnP (List.mem_filter.1 hmem).1
  exact hin.trans (hpart.trans (declPart_begins line).isInfix)

/-- **The values of a declaration stand in its lines**, if none are listed before the gap, or their list stands there. -/
theorem values_in_lines (h : splitFlagLine line = some decl) {lines : List Text}
    (hplain : searchAfter possibleValues none decl.afterFlags = none ∨
      ∀ list ∈ searchAfter possibleValues none (enumSource decl lines), list <:+: trim line ++ joined lines)
    {v : Text} (hv : v ∈ extractEnumValues (enumSource decl lines)) : v <:+: trim line ++ joined lines := by
  have hrest := rest_in_lines h lines
  unfold extractEnumValues at hv
  split at hv
  · next list hlist =>
    obtain ⟨hin, hne, hhead⟩ := isInfix_of_mem_splitValues hv
    rcases hplain with hnone | hstands
    · refine List.IsInfix.trans ?_ hrest
      -- a list may begin with the blank that stands between the two parts, but a value does not
      rcases List.infix_cons_iff.1 (hin.trans (list_in_second hnone hlist)) with ⟨t, ht⟩ | hin
      · obtain ⟨u, v, rfl⟩ := List.exists_cons_of_ne_nil hne
        have hspace := hhead u rfl
        rw [(List.cons.inj ht).1] at hspace
        exact absurd hspace (by decide)
      · exact hin
    · exact hin.trans (hstands list hlist)
  · split at hv
    · next list hlist =>
      obtain ⟨hlist, value, rest, rfl, hvalue, halternatives⟩ := values_of_piped hlist
      obtain ⟨hin, hne, -⟩ := isInfix_of_mem_splitValues hv
      have hspace : ∀ u ∈ v, isSpace u = false :=
        not_isSpace_of_piped halternatives [] (fun u hu => absurd hu List.not_mem_nil) hvalue hv
      have hblank : 0x20 ∉ v := fun hmem => absurd (hspace _ hmem) (by decide)
      rcases isInfix_of_not_mem hblank (hin.trans hlist) with hv | hv
      · exact (afterFlags_in_line h hblank hne hv).trans (List.prefix_append _ _).isInfix
      · exact hv.trans hrest
    · cases hv

end lines

end LlmGateway.Help
