import LlmGateway.Compressor.Fences

/-!
# Terminal output

`hasDangerousSequences` and `stripAnsi` (transforms/ansi.ts).  A control sequence is a match at a position of the text, as what
is behind it; its expressions have one match at most at a position.
-/

namespace LlmGateway.Compressor

open LlmGateway.Lib.Utf16

/-! ### Control sequences -/

/-- A CSI sequence, with its parameters and its final byte. -/
def matchCsi : Text → Option (Text × UInt16 × Text)
  | 27 :: 91 :: s =>
    let isParameter := fun u : UInt16 => 48 ≤ u && u ≤ 63
    let behind := (s.dropWhile isParameter).dropWhile fun u => 32 ≤ u && u ≤ 47
    match behind with
    | final :: rest => if 64 ≤ final ∧ final ≤ 126 then some (s.takeWhile isParameter, final, rest) else none
    | [] => none
  | _ => none

/-- Behind the first BEL, if `bel`, or ST. -/
def behindTerminator (bel : Bool) : Text → Option Text
  | 27 :: 92 :: s => some s
  | u :: s => if bel ∧ u = 7 then some s else behindTerminator bel s
  | [] => none

def matchOsc : Text → Option Text
  | 27 :: 93 :: s => behindTerminator true s
  | _ => none

/-- DCS, SOS, PM and APC. -/
def matchString : Text → Option Text
  | 27 :: u :: s => if u = 80 ∨ u = 88 ∨ u = 94 ∨ u = 95 then behindTerminator false s else none
  | _ => none

def matchTwoByte : Text → Option Text
  | 27 :: u :: s => if (64 ≤ u ∧ u ≤ 90) ∨ (92 ≤ u ∧ u ≤ 95) then some s else none
  | _ => none

/-- `STRAY_C0`; tab, newline, carriage return and backspace are kept. -/
def isStrayC0 (u : UInt16) : Bool := u ≤ 7 || u == 11 || u == 12 || (14 ≤ u && u ≤ 31)

/-- The text without the matches of `m`; `skip` more code units belong to one. -/
def removeAll (m : Text → Option Text) : ℕ → Text → Text
  | _, [] => []
  | skip + 1, _ :: s => removeAll m skip s
  | 0, u :: s =>
    match m (u :: s) with
    | some rest => removeAll m (s.length - rest.length) s
    | none => u :: removeAll m 0 s

/-- Some match of `matchCsi` satisfies `p`. -/
def anyCsi (p : Text → UInt16 → Bool) : ℕ → Text → Bool
  | _, [] => false
  | skip + 1, _ :: s => anyCsi p skip s
  | 0, u :: s =>
    match matchCsi (u :: s) with
    | some (params, final, rest) => p params final || anyCsi p (s.length - rest.length) s
    | none => anyCsi p 0 s

def dangerousCsiFinals : Text := text "ABCDEFGHfSTJsu"

def hasDangerousSequences (s : Text) : Bool :=
  s.contains 8 || anyCsi (fun params final => dangerousCsiFinals.contains final ||
    ((final == 104 || final == 108) && params.contains 63)) 0 s

def stripEscapes (s : Text) : Text :=
  let s := removeAll matchOsc 0 s
  let s := removeAll matchString 0 s
  let s := removeAll (fun t => (matchCsi t).map fun r => r.2.2) 0 s
  let s := removeAll matchTwoByte 0 s
  s.filter fun u => !isStrayC0 u

/-! ### Overwritten lines -/

def isSingleColumnAsciiFrame (s : Text) : Bool := s.all fun u => u == 9 || u == 13 || (32 ≤ u && u ≤ 126)

def overlayFrames (frames : List Text) : Text := frames.foldl (fun cells frame => frame ++ cells.drop frame.length) []

/-- A decimal number. -/
def decimal (n : ℕ) : Text := text (toString n)

def crMarker (frames : ℕ) : Text := text "[[gateway-cr:v1 frames=" ++ decimal frames ++ text "]]"

/-- The line without a final carriage return, and that. -/
def splitCrlf (line : Text) : Text × Text := if line.getLast? = some 13 then (line.dropLast, [13]) else (line, [])

/-- The visible line and its marker, for a line that has been overwritten. -/
def overwritten (line : Text) : Option (Text × Text) :=
  let (body, eol) := splitCrlf line
  if body.contains 13 && isSingleColumnAsciiFrame body then
    let frames := body.splitOn 13
    some (overlayFrames frames ++ eol, crMarker (frames.length - 1))
  else none

def collapseLine (line : Text) : List Text :=
  match overwritten line with
  | some (visible, marker) => [visible, marker]
  | none => [line]

/-- The lines of an unfenced segment without its control sequences. -/
def stripLines (s : Text) : List Text := splitLines (stripEscapes s)

/-- A line with inline code is not collapsed. -/
def keepsFrames (line : Text) : Bool := line.contains 96

def stripSegment (s : Text) : Text :=
  joinLines ((stripLines s).flatMap fun line => if keepsFrames line then [line] else collapseLine line)

def collapsedLines (s : Text) : ℕ := ((stripLines s).filter fun line => !keepsFrames line && (overwritten line).isSome).length

end LlmGateway.Compressor
