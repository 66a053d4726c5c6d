import Mathlib.Tactic.Common

/-!
# JSON texts

* `Json` — a JSON value; numbers keep their text, members their order;
* `parse` — `JSON.parse`; `none` is its SyntaxError;
* `field` — a property read, the last of the members with that name.
-/

namespace LlmGateway.Lib

inductive Json where
  | null
  | bool (b : Bool)
  | num (text : String)
  | str (s : String)
  | arr (items : List Json)
  | obj (members : List (String × Json))

namespace Json

/-- `value.name`, for a value that is not `null`; `none` is `undefined`. -/
def field (name : String) : Json → Option Json
  | obj members => (members.reverse.find? fun m => m.1 == name).map Prod.snd
  | _ => none

/-- `value === s` -/
def isText (s : String) : Json → Bool
  | str t => t == s
  | _ => false

/-- `typeof value === "object" && value !== null` -/
def isObject : Json → Bool
  | arr _ | obj _ => true
  | _ => false

/-! ## Texts -/

def skipSpace : List Char → List Char
  | c :: cs => if c = ' ' ∨ c = '\t' ∨ c = '\n' ∨ c = '\r' then skipSpace cs else c :: cs
  | [] => []

def hexDigit (c : Char) : Option ℕ :=
  if '0' ≤ c ∧ c ≤ '9' then some (c.toNat - 48)
  else if 'a' ≤ c ∧ c ≤ 'f' then some (c.toNat - 87)
  else if 'A' ≤ c ∧ c ≤ 'F' then some (c.toNat - 55)
  else none

/-- The code unit of four hexadecimal digits. -/
def hexUnit (a b c d : Char) : Option ℕ := do
  return (← hexDigit a) * 4096 + (← hexDigit b) * 256 + (← hexDigit c) * 16 + (← hexDigit d)

/-- The UTF-16 code units of a character. -/
def charUnits (c : Char) : List ℕ :=
  let n := c.toNat
  if n < 0x10000 then [n] else [0xD800 + (n - 0x10000) / 0x400, 0xDC00 + (n - 0x10000) % 0x400]

/-- The text of a list of code units; a surrogate without its partner becomes the replacement character. -/
def decodeUnits : List ℕ → List Char
  | [] => []
  | [u] => [if 0xD800 ≤ u ∧ u < 0xE000 then '\uFFFD' else Char.ofNat u]
  | u :: v :: us =>
    if 0xD800 ≤ u ∧ u < 0xDC00 ∧ 0xDC00 ≤ v ∧ v < 0xE000 then
      Char.ofNat (0x10000 + (u - 0xD800) * 0x400 + (v - 0xDC00)) :: decodeUnits us
    else (if 0xD800 ≤ u ∧ u < 0xE000 then '\uFFFD' else Char.ofNat u) :: decodeUnits (v :: us)

/-- The code unit of a one-letter escape. -/
def escapeUnit : Char → Option ℕ
  | '"' => some 0x22
  | '\\' => some 0x5C
  | '/' => some 0x2F
  | 'b' => some 0x8
  | 'f' => some 0xC
  | 'n' => some 0xA
  | 'r' => some 0xD
  | 't' => some 0x9
  | _ => none

/-- The code units up to the closing quote, and what follows it. -/
def textUnits : List Char → Option (List ℕ × List Char)
  | '"' :: cs => some ([], cs)
  | '\\' :: 'u' :: a :: b :: c :: d :: cs => do
    let u ← hexUnit a b c d
    let (us, rest) ← textUnits cs
    return (u :: us, rest)
  | '\\' :: c :: cs => do
    let u ← escapeUnit c
    let (us, rest) ← textUnits cs
    return (u :: us, rest)
  | c :: cs =>
    if c.toNat < 0x20 ∨ c = '\\' then none
    else do
      let (us, rest) ← textUnits cs
      return (charUnits c ++ us, rest)
  | [] => none

/-- A text, after its opening quote. -/
def parseText (cs : List Char) : Option (String × List Char) :=
  (textUnits cs).map fun (us, rest) => (String.ofList (decodeUnits us), rest)

/-! ## Numbers -/

/-- The digits at the front, and the rest. -/
def spanDigits (cs : List Char) : List Char × List Char := cs.span Char.isDigit

/-- The digits of an integer part: no zero in front of another digit. -/
def parseInteger (cs : List Char) : Option (List Char × List Char) :=
  match cs with
  | '0' :: rest => some (['0'], rest)
  | _ =>
    match spanDigits cs with
    | ([], _) => none
    | (ds, rest) => some (ds, rest)

/-- An optional fraction. -/
def parseFraction : List Char → Option (List Char × List Char)
  | '.' :: cs =>
    match spanDigits cs with
    | ([], _) => none
    | (ds, rest) => some ('.' :: ds, rest)
  | cs => some ([], cs)

/-- The digits of an exponent, after its letter and its sign. -/
def parseExponentDigits (front cs : List Char) : Option (List Char × List Char) :=
  match spanDigits cs with
  | ([], _) => none
  | (ds, rest) => some (front ++ ds, rest)

/-- An optional exponent. -/
def parseExponent : List Char → Option (List Char × List Char)
  | e :: '+' :: cs => if e = 'e' ∨ e = 'E' then parseExponentDigits [e, '+'] cs else some ([], e :: '+' :: cs)
  | e :: '-' :: cs => if e = 'e' ∨ e = 'E' then parseExponentDigits [e, '-'] cs else some ([], e :: '-' :: cs)
  | e :: cs => if e = 'e' ∨ e = 'E' then parseExponentDigits [e] cs else some ([], e :: cs)
  | [] => some ([], [])

def parseNumber (cs : List Char) : Option (Json × List Char) := do
  let (sign, cs) := match cs with
    | '-' :: rest => (['-'], rest)
    | _ => ([], cs)
  let (whole, cs) ← parseInteger cs
  let (fraction, cs) ← parseFraction cs
  let (exponent, cs) ← parseExponent cs
  return (num (String.ofList (sign ++ whole ++ fraction ++ exponent)), cs)

/-! ## Values -/

mutual

/-- A value, after white space. -/
def parseValue : ℕ → List Char → Option (Json × List Char)
  | 0, _ => none
  | fuel + 1, cs =>
    match skipSpace cs with
    | 'n' :: 'u' :: 'l' :: 'l' :: rest => some (null, rest)
    | 't' :: 'r' :: 'u' :: 'e' :: rest => some (bool true, rest)
    | 'f' :: 'a' :: 'l' :: 's' :: 'e' :: rest => some (bool false, rest)
    | '"' :: rest => (parseText rest).map fun (s, rest) => (str s, rest)
    | '[' :: rest =>
      match skipSpace rest with
      | ']' :: rest => some (arr [], rest)
      | rest => (parseItems fuel rest).map fun (items, rest) => (arr items, rest)
    | '{' :: rest =>
      match skipSpace rest with
      | '}' :: rest => some (obj [], rest)
      | rest => (parseMembers fuel rest).map fun (members, rest) => (obj members, rest)
    | cs => parseNumber cs

/-- The items of an array up to its closing bracket. -/
def parseItems : ℕ → List Char → Option (List Json × List Char)
  | 0, _ => none
  | fuel + 1, cs =>
    match parseValue fuel cs with
    | none => none
    | some (item, rest) =>
      match skipSpace rest with
      | ',' :: rest => (parseItems fuel rest).map fun (items, rest) => (item :: items, rest)
      | ']' :: rest => some ([item], rest)
      | _ => none

/-- The members of an object up to its closing brace. -/
def parseMembers : ℕ → List Char → Option (List (String × Json) × List Char)
  | 0, _ => none
  | fuel + 1, cs =>
    match skipSpace cs with
    | '"' :: rest =>
      match parseText rest with
      | none => none
      | some (name, rest) =>
        match skipSpace rest with
        | ':' :: rest =>
          match parseValue fuel rest with
          | none => none
          | some (value, rest) =>
            match skipSpace rest with
            | ',' :: rest => (parseMembers fuel rest).map fun (members, rest) => ((name, value) :: members, rest)
            | '}' :: rest => some ([(name, value)], rest)
            | _ => none
        | _ => none
    | _ => none

end

/-- `JSON.parse`.  Every nested call is past another character, so the length of the text is enough fuel. -/
def parse (s : String) : Option Json :=
  match parseValue (2 * s.toList.length + 1) s.toList with
  | some (value, rest) => if (skipSpace rest).isEmpty then some value else none
  | none => none

end Json

end LlmGateway.Lib
