import LlmGateway.Lib.Utf16

/-!
# Command lines of Windows

* `scan` — a line as cmd.exe reads it: a caret makes the next character literal; `acts` and `separates` say what an unescaped
  character does;
* `readArgs` — the arguments in a text, by the rules of `CommandLineToArgvW`: they stand between blanks; a quote opens or closes a
  part in which blanks count as text; `2 n` backslashes in front of a quote are `n` backslashes, one more makes the quote literal;
* `decode` — both, one after the other: the command word ends at the first separator, its arguments are read from the rest.
-/

namespace LlmGateway.Lib.CommandLine

open Utf16

/-! ## cmd.exe -/

/-- A character of a line, and whether a caret stood in front of it. -/
structure Mark where
  char : UInt16
  literal : Bool
deriving DecidableEq

/-- The operators, the quote, the signs of variables and the line breaks. -/
def operators : Text := text "&|<>()^%!\"" ++ [13, 10]

/-- The ends of the command word; a tab and `=`, which end it too, are left out. -/
def separators : Text := text " ,;"

namespace Mark

/-- The character ends the command, starts another one, redirects, opens a quoted part or is replaced. -/
def acts (m : Mark) : Bool := !m.literal && operators.contains m.char

def separates (m : Mark) : Bool := !m.literal && separators.contains m.char

end Mark

/-- A caret at the end has nothing to make literal. -/
def scan : Text → List Mark
  | [] => []
  | [u] => [⟨u, false⟩]
  | u :: v :: s => if u = 94 then ⟨v, true⟩ :: scan s else ⟨u, false⟩ :: scan (v :: s)

theorem scan_caret (u : UInt16) (s : Text) : scan (94 :: u :: s) = ⟨u, true⟩ :: scan s := by
  rw [scan, if_pos rfl]

theorem scan_plain {u : UInt16} (hu : u ≠ 94) (s : Text) : scan (u :: s) = ⟨u, false⟩ :: scan s := by
  cases s with
  | nil => rfl
  | cons v s => rw [scan, if_neg hu]

/-! ## `CommandLineToArgvW` -/

/-- `arg` is the argument that has begun, `slashes` counts the backslashes in front of the text. -/
def readFrom (arg : Option Text) (quoted : Bool) (slashes : ℕ) : Text → List Text
  | [] => arg.toList.map (· ++ List.replicate slashes 92)
  | u :: s =>
    let begun := arg.getD []
    if u = 92 then readFrom (some begun) quoted (slashes + 1) s
    else if u = 34 then
      if slashes % 2 = 0 then readFrom (some (begun ++ List.replicate (slashes / 2) 92)) (!quoted) 0 s
      else readFrom (some (begun ++ List.replicate (slashes / 2) 92 ++ [34])) quoted 0 s
    else if (u = 32 ∨ u = 9) ∧ quoted = false then
      arg.toList.map (· ++ List.replicate slashes 92) ++ readFrom none false 0 s
    else readFrom (some (begun ++ List.replicate slashes 92 ++ [u])) quoted 0 s

def readArgs (s : Text) : List Text := readFrom none false 0 s

theorem readFrom_slashes (a : Text) (quoted : Bool) (n k : ℕ) (s : Text) :
    readFrom (some a) quoted n (List.replicate k 92 ++ s) = readFrom (some a) quoted (n + k) s := by
  induction k generalizing n with
  | zero => rfl
  | succ k ih =>
    rw [List.replicate_succ, List.cons_append, readFrom, if_pos rfl, Option.getD_some, ih]
    congr 1
    omega

/-- `2 n` backslashes and a quote. -/
theorem readFrom_toggle (a : Text) (quoted : Bool) (n : ℕ) (s : Text) :
    readFrom (some a) quoted 0 (List.replicate (n * 2) 92 ++ 34 :: s) =
      readFrom (some (a ++ List.replicate n 92)) (!quoted) 0 s := by
  rw [readFrom_slashes, readFrom, if_neg (by decide), if_pos rfl, if_pos (by omega), Option.getD_some]
  congr 4
  omega

/-- `2 n + 1` backslashes and a quote. -/
theorem readFrom_quote (a : Text) (quoted : Bool) (n : ℕ) (s : Text) :
    readFrom (some a) quoted 0 (List.replicate (n * 2 + 1) 92 ++ 34 :: s) =
      readFrom (some (a ++ List.replicate n 92 ++ [34])) quoted 0 s := by
  rw [readFrom_slashes, readFrom, if_neg (by decide), if_pos rfl, if_neg (by omega), Option.getD_some]
  congr 5
  omega

/-- Backslashes in front of another character, in a quoted part. -/
theorem readFrom_text (a : Text) {u : UInt16} (hslash : u ≠ 92) (hquote : u ≠ 34) (n : ℕ) (s : Text) :
    readFrom (some a) true 0 (List.replicate n 92 ++ u :: s) =
      readFrom (some (a ++ List.replicate n 92 ++ [u])) true 0 s := by
  rw [readFrom_slashes, readFrom, if_neg hslash, if_neg hquote, if_neg (by simp), Option.getD_some, Nat.zero_add]

/-! ## The two readings -/

def decode (line : Text) : Option (Text × List Text) :=
  let marks := scan line
  if marks.any Mark.acts then none
  else
    some ((marks.takeWhile fun m => !m.separates).map Mark.char,
      readArgs ((marks.dropWhile fun m => !m.separates).map Mark.char))

end LlmGateway.Lib.CommandLine
