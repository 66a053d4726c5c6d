import LlmGateway.Compressor.Ansi
import LlmGateway.Compressor.Json
import Mathlib.Algebra.GroupWithZero.Nat

/-!
# The compressor

`NativeCompressor.compact` (compressor/index.ts) with `classify` (router.ts) and the log and whitespace transforms.  A transform
that puts markers gives with its text how many they are.

* `escapeLine`, `dedupFrom` — the lines that look like a marker, and the runs of a line;
* `classify` — the route of a text;
* `compact` — the transforms of its route, the note, and the text itself where they do not make it shorter.
-/

namespace LlmGateway.Compressor

open LlmGateway.Lib.Utf16

/-! ### The log transforms -/

def SENTINEL_PREFIX : Text := text "[[gateway-"

def LIT_MARKER : Text := text "[[gateway-lit:v1]] "

def repeatMarker (lines count : ℕ) : Text :=
  text "[[gateway-repeat:v1 lines=" ++ decimal lines ++ text " count=" ++ decimal count ++ text "]]"

/-- What the note says of the markers. -/
def noteText : Text :=
  text "]] Gateway compressor markers " ++ text "follow: " ++
    text "[[gateway-repeat:v1 ...]] folds " ++ text "byte-identical repeated lines " ++ text "(count included), " ++
    text "[[gateway-cr:v1 ...]] keeps " ++ text "the final frame of " ++ text "carriage-return-rewritten lines, " ++
    text "and lines opening with " ++ text "[[gateway-lit:v1]] are " ++ text "verbatim input with " ++ text "that prefix added."

def noteLine (folded escaped : ℕ) : Text :=
  text "[[gateway-note:v1 folded=" ++ decimal folded ++ text " escaped=" ++ decimal escaped ++ noteText

structure MarkerCounts where
  folded : ℕ
  escaped : ℕ
deriving DecidableEq

/-- The sum of `count` over the unfenced segments. -/
def countUnfenced (s : Text) (count : Text → ℕ) : ℕ := ((splitFences s).map fun seg => if seg.fenced then 0 else count seg.text).sum

def opensSentinel (line : Text) : Bool := SENTINEL_PREFIX.isPrefixOf (line.dropWhile isSpace)

def escapeLine (line : Text) : Text := if opensSentinel line then LIT_MARKER ++ line else line

def escapeSentinelLikeLines (s : Text) : Text × MarkerCounts :=
  (mapUnfenced s fun segment => joinLines ((splitLines segment).map escapeLine),
    ⟨0, countUnfenced s fun segment => ((splitLines segment).filter opensSentinel).length⟩)

def MIN_RUN : ℕ := 3

def isBlankLine (line : Text) : Bool := line.all isSpace

/-- A run of `runLength` lines. -/
def emitRun (line : Text) (runLength : ℕ) : List Text :=
  if MIN_RUN ≤ runLength then [line, repeatMarker 1 runLength] else List.replicate runLength line

/-- The loop of `dedupAdjacentLines`, in a run of `runLength` lines; a blank line is a run of its own. -/
def dedupFrom (line : Text) (runLength : ℕ) : List Text → List Text × ℕ
  | [] => (emitRun line runLength, if MIN_RUN ≤ runLength then 1 else 0)
  | next :: lines =>
    if next = line ∧ isBlankLine line = false then dedupFrom line (runLength + 1) lines
    else
      let r := dedupFrom next 1 lines
      (emitRun line runLength ++ r.1, (if MIN_RUN ≤ runLength then 1 else 0) + r.2)

def dedupLines : List Text → List Text × ℕ
  | [] => ([], 0)
  | line :: lines => dedupFrom line 1 lines

def dedupAdjacentLines (s : Text) : Text × MarkerCounts :=
  (mapUnfenced s fun segment => joinLines (dedupLines (splitLines segment)).1,
    ⟨countUnfenced s fun segment => (dedupLines (splitLines segment)).2, 0⟩)

/-! ### White space -/

def stripLine (line : Text) : Text :=
  if line.contains 96 then line
  else
    let (body, eol) := splitCrlf line
    body.rdropWhile (fun u => u == 32 || u == 9) ++ eol

def isBlank (line : Text) : Bool := line == [] || line == [13]

/-- The end of a run of blank lines. -/
def closeRun (run : List Text) : List Text := if run.length < 3 then run else run.take 1

/-- The loop of `normalizeWhitespace`, behind the blank lines `run`. -/
def collapseFrom (run : List Text) : List Text → List Text
  | [] => closeRun run
  | line :: lines => if isBlank line then collapseFrom (run ++ [line]) lines else closeRun run ++ line :: collapseFrom [] lines

def normalizeLines (lines : List Text) : List Text := collapseFrom [] (lines.map stripLine)

def normalizeWhitespace (s : Text) : Text := mapUnfenced s fun segment => joinLines (normalizeLines (splitLines segment))

/-! ### The ANSI transform -/

def stripAnsi (s : Text) : Text × MarkerCounts :=
  if hasDangerousSequences s then (s, ⟨0, 0⟩) else (mapUnfenced s stripSegment, ⟨countUnfenced s collapsedLines, 0⟩)

/-! ### The router -/

inductive ContentRoute where
  | json
  | log
  | ansiText
  | plain
  | identity
deriving DecidableEq

/-- `HAS_INTERNAL_CR` -/
def hasInternalCr : Text → Bool
  | [] => false
  | u :: s => (u == 13 && s.head?.any (· != 10)) || hasInternalCr s

/-- `HAS_FENCE`: a line of the text, behind any line terminator, opens a fence. -/
def hasFence : Bool → Text → Bool
  | start, [] => start && (fenceOpen []).isSome
  | start, u :: s => (start && (fenceOpen (u :: s)).isSome) || hasFence (isLineTerminator u) s

/-- A run of `MIN_RUN` lines, behind `run` of them that end with `line`. -/
def hasRunFrom (line : Text) (run : ℕ) : List Text → Bool
  | [] => false
  | next :: lines =>
    if next = line ∧ isBlankLine next = false then MIN_RUN ≤ run + 1 || hasRunFrom next (run + 1) lines
    else hasRunFrom next 1 lines

def hasRepeatedRuns (s : Text) : Bool :=
  (splitFences s).any fun seg =>
    !seg.fenced && match splitLines seg.text with
      | [] => false
      | line :: lines => hasRunFrom line 1 lines

def isStructuralJson (s : Text) : Bool :=
  let trimmed := trim s
  2 ≤ trimmed.length &&
    ((trimmed.head? == some 123 && trimmed.getLast? == some 125) || (trimmed.head? == some 91 && trimmed.getLast? == some 93)) &&
      (minifyJson trimmed).isSome

def classify (s : Text) : ContentRoute :=
  if s = [] then .identity
  else
    let terminal := s.contains 27 || hasInternalCr s
    if terminal && hasDangerousSequences s then .identity
    else if terminal && !hasFence true s then .ansiText
    else if isStructuralJson s then .json
    else if hasRepeatedRuns s then .log
    else .plain

/-! ### The entry point -/

structure CompressCtx where
  outputFormat : Option String
  outputSchemaDeclared : Bool

structure CompressResult where
  text : Text
  originalChars : ℕ
  compressedChars : ℕ
  route : ContentRoute
  transforms : List String
  estimatedTokensSaved : ℕ

def identityResult (s : Text) (route : ContentRoute) : CompressResult := ⟨s, s.length, s.length, route, [], 0⟩

/-- What `compact` carries from one transform to the next. -/
structure Work where
  current : Text
  counts : MarkerCounts
  transforms : List String

def Work.apply (w : Work) (name : String) (fn : Text → Text × MarkerCounts) : Work :=
  let next := fn w.current
  ⟨next.1, ⟨w.counts.folded + next.2.folded, w.counts.escaped + next.2.escaped⟩,
    if next.1 = w.current then w.transforms else w.transforms ++ [name]⟩

/-- The transforms of a route. -/
def transform (route : ContentRoute) (s : Text) : Work :=
  let w : Work := ⟨s, ⟨0, 0⟩, []⟩
  let w := w.apply "lit-escape" escapeSentinelLikeLines
  let w := if route = .ansiText then (w.apply "ansi-strip" stripAnsi).apply "dedup" dedupAdjacentLines else w
  let w := if route = .log then w.apply "dedup" dedupAdjacentLines else w
  w.apply "whitespace" fun s => (normalizeWhitespace s, ⟨0, 0⟩)

/-- The leading note, when there are markers. -/
def Work.note (w : Work) : Work :=
  if 0 < w.counts.folded + w.counts.escaped then
    ⟨noteLine w.counts.folded w.counts.escaped ++ 10 :: w.current, w.counts, w.transforms ++ ["leading-note"]⟩
  else w

/-- `compact`; `estimateTokensSaved` is that of estimate.ts. -/
def compact (estimateTokensSaved : Text → Text → ContentRoute → ℕ) (s : Text) (ctx : CompressCtx) : CompressResult :=
  if ctx.outputFormat = some "json" ∨ ctx.outputSchemaDeclared then identityResult s .identity
  else
    let route := classify s
    match route with
    | .identity => identityResult s .identity
    | .json =>
      match minifyJson (trim s) with
      | some minified =>
        if s.length ≤ minified.length then identityResult s .identity
        else ⟨minified, s.length, minified.length, route, ["json-minify"], estimateTokensSaved s minified route⟩
      | none => identityResult s .identity
    | .log | .ansiText | .plain =>
      let w := (transform route s).note
      if s.length ≤ w.current.length then identityResult s route
      else ⟨w.current, s.length, w.current.length, route, w.transforms, estimateTokensSaved s w.current route⟩

end LlmGateway.Compressor
