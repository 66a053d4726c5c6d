import LlmGateway.Review.Spans

/-!
# Sentences

`segmentSentences` (review-integrity.ts).

* `Partition` — a text is its sentences, one after the other, with white space behind them;
* `neutraliseInlineMarkup_rule` — a prompt is neutralised by the rule for spans, and the sentences of the result are its text.
-/

namespace LlmGateway.Review

open LlmGateway.Lib LlmGateway.Lib.Utf16

/-! ### The segmenter -/

/-- `FULLWIDTH_TERMINATOR` -/
def isFullwidth (u : UInt16) : Bool := u == 0xFF0E || u == 0x3002 || u == 0xFF01 || u == 0xFF1F

/-- `SENTENCE_CLOSERS` -/
def isCloser (u : UInt16) : Bool := u == 34 || u == 39 || u == 0x201D || u == 0x2019 || u == 41 || u == 93

/-- The quotes and brackets of `SOFT_BOUNDARY_NEXT`. -/
def isOpener (u : UInt16) : Bool := u == 34 || u == 39 || u == 0x201C || u == 0x2018 || u == 40 || u == 91

/-- `SOFT_BOUNDARY_NEXT`: white space, openers, and an upper-case letter. -/
def softBoundaryNext (T : Unicode) (s : Text) : Bool :=
  s.head?.any isSpace && T.startsUpper ((s.dropWhile isSpace).dropWhile isOpener)

/-- A line of blanks, with its end. -/
def blankLine (s : Text) : Bool := (s.dropWhile fun u => u == 32 || u == 9 || u == 13).head? == some 10

theorem length_dropWhile (p : UInt16 → Bool) (s : Text) : (s.dropWhile p).length ≤ s.length := (List.dropWhile_suffix p).length_le

/-- The loop of `segmentSentences`, where `sentence` has begun. -/
def segmentFrom (T : Unicode) (sentence : Text) : Text → List Text
  | [] => if sentence = [] then [] else [sentence]
  | ch :: rest =>
    if ch = SOFT_TERMINATOR then
      have := length_behind ch rest
      have := length_dropWhile isSpace (behind ch rest)
      if behind ch rest = [] || softBoundaryNext T ((behind ch rest).take 48) then
        (sentence ++ run ch rest) :: segmentFrom T [] ((behind ch rest).dropWhile isSpace)
      else segmentFrom T (sentence ++ run ch rest) (behind ch rest)
    else if ch = 10 then
      have := length_dropWhile isSpace rest
      if blankLine (rest.take 47) || softBoundaryNext T ((ch :: rest).take 48) then
        (sentence ++ [ch]) :: segmentFrom T [] (rest.dropWhile isSpace)
      else segmentFrom T (sentence ++ [ch]) rest
    else if !isTerminator ch then segmentFrom T (sentence ++ [ch]) rest
    else
      let terminators := ch :: rest.takeWhile isTerminator
      let after := rest.dropWhile isTerminator
      have := length_dropWhile isTerminator rest
      have := length_dropWhile isSpace after
      have := length_dropWhile isCloser after
      have := length_dropWhile isSpace (after.dropWhile isCloser)
      if terminators.any isFullwidth then (sentence ++ terminators) :: segmentFrom T [] (after.dropWhile isSpace)
      else if (after.dropWhile isCloser).head?.all isSpace then
        (sentence ++ terminators ++ after.takeWhile isCloser) :: segmentFrom T [] ((after.dropWhile isCloser).dropWhile isSpace)
      else segmentFrom T (sentence ++ terminators) after
termination_by s => s.length
decreasing_by all_goals simp +zetaDelta only [List.length_cons] at *; omega

def segmentSentences (T : Unicode) (text : Text) : List Text := segmentFrom T [] text

/-! ### The sentences are the text -/

/-- A text is its sentences in order, each with white space behind it. -/
inductive Partition : Text → List Text → Prop
  | done : Partition [] []
  | cut {gap rest : Text} {sentences : List Text} (sentence : Text) (hgap : ∀ u ∈ gap, isSpace u = true)
    (h : Partition rest sentences) : Partition (sentence ++ (gap ++ rest)) (sentence :: sentences)

/-- What is not white space is in the sentences, once and in order. -/
theorem Partition.filter {text : Text} {sentences : List Text} (h : Partition text sentences) :
    sentences.flatten.filter (fun u => !isSpace u) = text.filter fun u => !isSpace u := by
  induction h with
  | done => rfl
  | @cut gap rest sentences sentence hgap h ih =>
    have hnone : gap.filter (fun u => !isSpace u) = [] := List.filter_eq_nil_iff.2 fun u hu => by simp [hgap u hu]
    rw [List.flatten_cons, List.filter_append, List.filter_append, List.filter_append, hnone, ih, List.nil_append]

/-- A sentence that ends here, and what `emit` skips. -/
theorem Partition.emit {after : Text} {sentences : List Text} (sentence : Text)
    (h : Partition (after.dropWhile isSpace) sentences) : Partition (sentence ++ after) (sentence :: sentences) := by
  have hsplit : after.takeWhile isSpace ++ after.dropWhile isSpace = after := List.takeWhile_append_dropWhile
  rw [← hsplit]
  exact .cut sentence (fun u hu => List.mem_takeWhile_imp hu) h

theorem partition_segmentFrom (T : Unicode) (sentence text : Text) :
    Partition (sentence ++ text) (segmentFrom T sentence text) := by
  fun_induction segmentFrom T sentence text with
  | case1 => exact .done
  | case2 sentence hne =>
    have hlast : Partition (sentence ++ []) [sentence] := .emit sentence .done
    exact hlast
  | case3 sentence rest hbehind hskip hboundary ih =>
    rw [← run_append_behind, ← List.append_assoc]
    exact .emit _ ih
  | case4 sentence rest hbehind hskip hboundary ih =>
    rwa [← run_append_behind, ← List.append_assoc]
  | case5 sentence rest hskip hsoft hboundary ih =>
    rw [← List.singleton_append, ← List.append_assoc]
    exact .emit _ ih
  | case6 sentence rest hskip hsoft hboundary ih | case7 sentence ch rest hsoft hline hordinary ih =>
    rwa [← List.singleton_append, ← List.append_assoc]
  | case8 sentence ch rest hsoft hline hterminator terminators after _ _ _ _ hwide ih =>
    have hsplit : ch :: rest = terminators ++ after := congrArg (ch :: ·) List.takeWhile_append_dropWhile.symm
    rw [hsplit, ← List.append_assoc]
    exact .emit _ ih
  | case9 sentence ch rest hsoft hline hterminator terminators after _ _ _ _ hwide hboundary ih =>
    have hsplit : ch :: rest = terminators ++ after := congrArg (ch :: ·) List.takeWhile_append_dropWhile.symm
    have hclosers : after = after.takeWhile isCloser ++ after.dropWhile isCloser := List.takeWhile_append_dropWhile.symm
    have hcut := Partition.emit (sentence ++ terminators ++ after.takeWhile isCloser) ih
    rwa [List.append_assoc _ (after.takeWhile isCloser), ← hclosers, List.append_assoc, ← hsplit] at hcut
  | case10 sentence ch rest hsoft hline hterminator terminators after _ _ _ _ hwide hboundary ih =>
    have hsplit : ch :: rest = terminators ++ after := congrArg (ch :: ·) List.takeWhile_append_dropWhile.symm
    rwa [hsplit, ← List.append_assoc]

theorem partition_segmentSentences (T : Unicode) (text : Text) : Partition text (segmentSentences T text) :=
  partition_segmentFrom T [] text

/-- **Inline markup is neutralised by the rule for spans**: the loops end, with the prompt by the rule; the sentinel is in it only
for the punctuation at the end of a span; a prompt without markup stays; and the sentences of the result are its text. -/
theorem neutraliseInlineMarkup_rule (T : Unicode) (prompt : Text) :
    ∃ result, neutraliseInlineMarkup T prompt = some result ∧ result = naive T prompt ∧
      (result = (spans false (clean T none prompt)).flatMap Part.text ∧
        ∀ part ∈ spans false (clean T none prompt), part.Minted) ∧
      ((∀ u ∈ prompt, u ≠ 96 ∧ u ≠ 92 ∧ u ≠ 42 ∧ u ≠ 126 ∧ u ≠ 95 ∧ u ≠ SOFT_TERMINATOR) → result = prompt) ∧
      Partition result (segmentSentences T result) ∧
      (segmentSentences T result).flatten.filter (fun u => !isSpace u) = result.filter fun u => !isSpace u := by
  have hpartition := partition_segmentSentences T (naive T prompt)
  exact ⟨naive T prompt, neutraliseInlineMarkup_eq T prompt, rfl,
    ⟨rfl, minted_spans (sentinel_notMem_clean none prompt)⟩, naive_eq_self, hpartition, hpartition.filter⟩

/-- The tables of ASCII. -/
def ascii : Unicode where
  isWordChar u := isWord u
  startsUpper s := s.head?.any fun u => 65 ≤ u && u ≤ 90

example : neutraliseInlineMarkup ascii (text "do *not* `use_x.` it \\`a` or ``b``") =
    some (text "do  not   use_x" ++ [SOFT_TERMINATOR] ++ text "  it \\ a  or  b ") := by
  decide +kernel

end LlmGateway.Review
