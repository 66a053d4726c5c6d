import Mathlib.Algebra.GroupWithZero.Nat
import Mathlib.Tactic.Common

/-!
# Texts

* `trim`, `isBlank` — `String.prototype.trim` with the white space and line terminators of the language.
-/

namespace LlmGateway.Lib.JsText

/-- White space and line terminators. -/
def isSpace (c : Char) : Bool :=
  let n := c.toNat
  (0x9 ≤ n && n ≤ 0xD) || n == 0x20 || n == 0xA0 || n == 0x1680 || (0x2000 ≤ n && n ≤ 0x200A) ||
    n == 0x2028 || n == 0x2029 || n == 0x202F || n == 0x205F || n == 0x3000 || n == 0xFEFF

/-- The characters without the white space at their end. -/
def trimEnd (cs : List Char) : List Char := (cs.reverse.dropWhile isSpace).reverse

def trim (s : String) : String := String.ofList (trimEnd (s.toList.dropWhile isSpace))

/-- `s.trim().length === 0` -/
def isBlank (s : String) : Bool := trim s == ""

/-- The number of UTF-16 code units. -/
def utf16Length (s : String) : ℕ := (s.toList.map fun c => if c.toNat < 0x10000 then 1 else 2).sum

/-- The code units `JSON.stringify` writes for a character inside a text. -/
def quotedWidth (c : Char) : ℕ :=
  let n := c.toNat
  if c = '"' ∨ c = '\\' then 2
  else if n = 0x8 ∨ n = 0x9 ∨ n = 0xA ∨ n = 0xC ∨ n = 0xD then 2
  else if n < 0x20 then 6
  else if n < 0x10000 then 1
  else 2

/-- `JSON.stringify(s).length` -/
def quotedLength (s : String) : ℕ := (s.toList.map quotedWidth).sum + 2

end LlmGateway.Lib.JsText
