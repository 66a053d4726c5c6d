import LlmGateway.Lib.JsMap
import LlmGateway.Lib.JsString

/-!
# Inline markup

`neutraliseInlineMarkup` and `normaliseCodeSpanContent` (review-integrity.ts), and the span rule that they are stated by.

* `tokenize`, `link`, `emit` — the three phases: runs of backticks and literal text, the next run of the same length, and the
  text that is put out;
* `clean`, `closer`, `spans` — the rule: what a prompt is without the markup of emphasis, the run that closes a span, and the parts
  of a text from left to right.
-/

namespace LlmGateway.Review

open LlmGateway.Lib LlmGateway.Lib.Utf16

/-- The tables of Unicode: the code units that match `[\p{L}\p{N}\p{M}\p{Cf}_]`, and the texts that begin
with an upper-case letter. -/
structure Unicode where
  isWordChar : UInt16 → Bool
  startsUpper : Text → Bool

def SOFT_TERMINATOR : UInt16 := 0xE010

/-- `TERMINATOR_CLASS` -/
def isTerminator (u : UInt16) : Bool :=
  u == 46 || u == 33 || u == 63 || u == 0xFF0E || u == 0x3002 || u == 0xFF01 || u == 0xFF1F

/-! ### Code spans -/

/-- The content of a span, in which no markup and no line break is left, without blanks at its end. -/
def cleaned (content : Text) : Text :=
  (content.map fun u => if u = 96 ∨ u = 42 ∨ u = 126 ∨ u = 13 ∨ u = 10 then 32 else u).rdropWhile isSpace

def normaliseCodeSpanContent (content : Text) : Text :=
  let front := (cleaned content).rdropWhile isTerminator
  (front.map fun u => if isTerminator u then 32 else u) ++
    if front.length < (cleaned content).length then [SOFT_TERMINATOR] else []

/-! ### Phase 1 -/

inductive InlineToken where
  | btrun (len : ℕ) (canOpen : Bool)
  | literal (text : Text)
deriving DecidableEq

def flush (buf : Text) : List InlineToken := if buf = [] then [] else [.literal buf]

def spaces (n : ℕ) : Text := List.replicate n 32

/-- The run that begins with `u`, in front of `rest`, and what is behind it. -/
def run (u : UInt16) (rest : Text) : Text := u :: rest.takeWhile (· == u)

def behind (u : UInt16) (rest : Text) : Text := rest.dropWhile (· == u)

theorem length_behind (u : UInt16) (rest : Text) : (behind u rest).length ≤ rest.length := (List.dropWhile_suffix _).length_le

/-- A run of underscores with word characters on both sides is kept. -/
def underscores (T : Unicode) (before : Option UInt16) (rest : Text) : Text :=
  if before.any T.isWordChar && (behind 95 rest).head?.any T.isWordChar then run 95 rest else spaces (run 95 rest).length

/-- The loop of the first phase, behind the code unit `before`. -/
def tokenize (T : Unicode) (before : Option UInt16) (escapePending : Bool) (buf : Text) : Text → List InlineToken
  | [] => flush buf
  | ch :: rest =>
    have := length_behind ch rest
    if ch = 92 then
      tokenize T (some ch) ((run ch rest).length % 2 == 1 && (behind ch rest).head? == some 96) (buf ++ run ch rest)
        (behind ch rest)
    else if ch = 96 then
      flush buf ++ .btrun (run ch rest).length (!escapePending) :: tokenize T (some ch) false [] (behind ch rest)
    else if ch = 95 then tokenize T (some ch) escapePending (buf ++ underscores T before rest) (behind ch rest)
    else if ch = 42 ∨ ch = 126 then tokenize T (some ch) escapePending (buf ++ [32]) rest
    else if ch = SOFT_TERMINATOR then tokenize T (some ch) escapePending (buf ++ [32]) rest
    else tokenize T (some ch) escapePending (buf ++ [ch]) rest
termination_by s => s.length

/-! ### Phase 2 -/

/-- The loop of the second phase, from right to left: `nextSame` and `lastByLen` for the tokens from the index `t` on.  The index
`-1` is `none`. -/
def link (t : ℕ) : List InlineToken → JsMap ℕ (Option ℕ) × JsMap ℕ ℕ
  | [] => (Table.empty, Table.empty)
  | .literal _ :: tokens => link (t + 1) tokens
  | .btrun len _ :: tokens =>
    let (nextSame, lastByLen) := link (t + 1) tokens
    (nextSame.set t (lastByLen.get len), lastByLen.set len t)

/-! ### Phase 3 -/

namespace InlineToken

/-- The text of a token. -/
def source : InlineToken → Text
  | btrun len _ => List.replicate len 96
  | literal text => text

end InlineToken

def source (tokens : List InlineToken) : Text := tokens.flatMap InlineToken.source

/-- The loop of the third phase from the index `t` on; it is `none` after `fuel` rounds. -/
def emit (tokens : List InlineToken) (nextSame : JsMap ℕ (Option ℕ)) : ℕ → ℕ → Option Text
  | 0, t => if t < tokens.length then none else some []
  | fuel + 1, t =>
    match tokens[t]? with
    | none => some []
    | some (.literal text) => (emit tokens nextSame fuel (t + 1)).map (text ++ ·)
    | some (.btrun len canOpen) =>
      match if canOpen then (nextSame.get t).join else none with
      | none => (emit tokens nextSame fuel (t + 1)).map (spaces len ++ ·)
      | some close =>
        (emit tokens nextSame fuel (close + 1)).map
          ([32] ++ normaliseCodeSpanContent (source ((tokens.take close).drop (t + 1))) ++ [32] ++ ·)

/-- `neutraliseInlineMarkup`, with a round of the third phase for each token. -/
def neutraliseInlineMarkup (T : Unicode) (prompt : Text) : Option Text :=
  let tokens := tokenize T none false [] prompt
  emit tokens (link 0 tokens).1 tokens.length 0

/-! ### The rule -/

/-- A prompt without its emphasis, and without the sentinel. -/
def clean (T : Unicode) (before : Option UInt16) : Text → Text
  | [] => []
  | ch :: rest =>
    have := length_behind ch rest
    if ch = 95 then underscores T before rest ++ clean T (some ch) (behind ch rest)
    else if ch = 42 ∨ ch = 126 ∨ ch = SOFT_TERMINATOR then 32 :: clean T (some ch) rest
    else ch :: clean T (some ch) rest
termination_by s => s.length

/-- The text in front of the first run of exactly `len` backticks, and what is behind that run. -/
def closer (len : ℕ) : Text → Option (Text × Text)
  | [] => none
  | ch :: rest =>
    have := length_behind ch rest
    if ch = 96 then
      if (run ch rest).length = len then some ([], behind ch rest)
      else (closer len (behind ch rest)).map fun r => (run ch rest ++ r.1, r.2)
    else (closer len rest).map fun r => (ch :: r.1, r.2)
termination_by s => s.length

theorem length_closer {len : ℕ} {s content after : Text} (h : closer len s = some (content, after)) :
    after.length ≤ s.length := by
  fun_induction closer len s generalizing content with
  | case1 => cases h
  | case2 rest hbehind hlen =>
    cases h
    simp only [List.length_cons]
    omega
  | case3 rest hbehind hlen ih | case4 ch rest hbehind hch ih =>
    obtain ⟨r, hr, heq⟩ := Option.map_eq_some_iff.1 h
    cases heq
    have := ih hr
    simp only [List.length_cons]
    omega

/-- A part of a text: literal text, or a code span with its content. -/
inductive Part where
  | literal (text : Text)
  | span (content : Text)
deriving DecidableEq

def Part.text : Part → Text
  | literal text => text
  | span content => [32] ++ normaliseCodeSpanContent content ++ [32]

/-- The parts of a text; `odd` says that an odd number of backslashes is right in front of it. -/
def spans (odd : Bool) : Text → List Part
  | [] => []
  | ch :: rest =>
    have := length_behind ch rest
    if ch = 96 then
      match h : if odd then none else closer (run ch rest).length (behind ch rest) with
      | none => .literal (spaces (run ch rest).length) :: spans false (behind ch rest)
      | some (content, after) =>
        have : after.length ≤ (behind ch rest).length := by
          split at h
          · cases h
          · exact length_closer h
        .span content :: spans false after
    else .literal [ch] :: spans (ch == 92 && !odd) rest
termination_by s => s.length

/-- The prompt by the rule. -/
def naive (T : Unicode) (prompt : Text) : Text := (spans false (clean T none prompt)).flatMap Part.text

end LlmGateway.Review
