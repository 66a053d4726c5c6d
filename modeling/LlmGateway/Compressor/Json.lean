import LlmGateway.Lib.JsString

/-!
# The JSON minifier

`minifyJson` (transforms/json.ts): the tokens of a JSON document as they are spelled, without the white space between them.  A
function gives what it copies and the text behind it, and `none` where the source throws.  The fuel of `copyValue` and its loops
is twice the length of the text: of two calls that are nested one has read a character.
-/

namespace LlmGateway.Compressor

open LlmGateway.Lib.Utf16

abbrev Copied := Option (Text × Text)

def isJsonSpace (u : UInt16) : Bool := u == 32 || u == 9 || u == 10 || u == 13

def skipWs (s : Text) : Text := s.dropWhile isJsonSpace

def isHex (u : UInt16) : Bool := (48 ≤ u && u ≤ 57) || (65 ≤ u && u ≤ 70) || (97 ≤ u && u ≤ 102)

def isDigit (u : UInt16) : Bool := 48 ≤ u && u ≤ 57

/-- `"`, `\`, `/`, `b`, `f`, `n`, `r`, `t` -/
def simpleEscapes : List UInt16 := [34, 92, 47, 98, 102, 110, 114, 116]

def Copied.after (front : Text) (r : Copied) : Copied := r.map fun r => (front ++ r.1, r.2)

/-- A string behind its first quote. -/
def copyChars : Text → Copied
  | 92 :: 117 :: a :: b :: c :: d :: s =>
    if isHex a && isHex b && isHex c && isHex d then Copied.after [92, 117, a, b, c, d] (copyChars s) else none
  | 92 :: u :: s => if u ∈ simpleEscapes then Copied.after [92, u] (copyChars s) else none
  | 34 :: s => some ([34], s)
  | u :: s => if u = 92 ∨ u < 32 then none else Copied.after [u] (copyChars s)
  | [] => none

def copyString : Text → Copied
  | 34 :: s => Copied.after [34] (copyChars s)
  | _ => none

/-- `0` or a number without a zero in front. -/
def copyInteger : Text → Copied
  | 48 :: s => some ([48], s)
  | u :: s => if isDigit u then some (u :: s.takeWhile isDigit, s.dropWhile isDigit) else none
  | [] => none

/-- An optional part: `front`, and at least one digit. -/
def copyDigits (front s rest : Text) : Text × Text :=
  if (rest.takeWhile isDigit).isEmpty then ([], s) else (front ++ rest.takeWhile isDigit, rest.dropWhile isDigit)

def copyFraction (s : Text) : Text × Text :=
  match s with
  | 46 :: rest => copyDigits [46] s rest
  | _ => ([], s)

def copyExponent (s : Text) : Text × Text :=
  match s with
  | u :: rest =>
    if u = 101 ∨ u = 69 then
      match rest with
      | v :: rest' => if v = 43 ∨ v = 45 then copyDigits [u, v] s rest' else copyDigits [u] s rest
      | [] => ([], s)
    else ([], s)
  | [] => ([], s)

/-- A number behind its sign. -/
def copyUnsigned (s : Text) : Copied :=
  (copyInteger s).map fun i =>
    let f := copyFraction i.2
    let e := copyExponent f.2
    (i.1 ++ f.1 ++ e.1, e.2)

def copyNumber : Text → Copied
  | 45 :: s => Copied.after [45] (copyUnsigned s)
  | s => copyUnsigned s

def copyLiteral (word s : Text) : Copied := if word.isPrefixOf s then some (word, s.drop word.length) else none

mutual

def copyValue : ℕ → Text → Copied
  | 0, _ => none
  | n + 1, s =>
    match skipWs s with
    | [] => none
    | 123 :: s =>
      match skipWs s with
      | 125 :: s => some ([123, 125], s)
      | _ => Copied.after [123] (copyMembers n s)
    | 91 :: s =>
      match skipWs s with
      | 93 :: s => some ([91, 93], s)
      | _ => Copied.after [91] (copyItems n s)
    | 34 :: s => copyString (34 :: s)
    | 116 :: s => copyLiteral (text "true") (116 :: s)
    | 102 :: s => copyLiteral (text "false") (102 :: s)
    | 110 :: s => copyLiteral (text "null") (110 :: s)
    | u :: s => if u = 45 ∨ isDigit u then copyNumber (u :: s) else none

/-- The members of an object, and its brace. -/
def copyMembers : ℕ → Text → Copied
  | 0, _ => none
  | n + 1, s => do
    let key ← copyString (skipWs s)
    match skipWs key.2 with
    | 58 :: s =>
      let value ← copyValue n s
      match skipWs value.2 with
      | 44 :: s => Copied.after (key.1 ++ 58 :: value.1 ++ [44]) (copyMembers n s)
      | 125 :: s => some (key.1 ++ 58 :: value.1 ++ [125], s)
      | _ => none
    | _ => none

/-- The items of an array, and its bracket. -/
def copyItems : ℕ → Text → Copied
  | 0, _ => none
  | n + 1, s => do
    let value ← copyValue n s
    match skipWs value.2 with
    | 44 :: s => Copied.after (value.1 ++ [44]) (copyItems n s)
    | 93 :: s => some (value.1 ++ [93], s)
    | _ => none

end

def minifyJson (s : Text) : Option Text :=
  match copyValue (2 * s.length + 2) s with
  | some (out, rest) => if (skipWs rest).isEmpty then some out else none
  | none => none

example : minifyJson (text "\x7b \"a\" : [1, -2.50e+3 , true ]\x7d ") = some (text "\x7b\"a\":[1,-2.50e+3,true]\x7d") := by decide +kernel

example : minifyJson (text "[01]") = none := by decide +kernel

end LlmGateway.Compressor
