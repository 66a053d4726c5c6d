import LlmGateway.Lib.Utf16
import Mathlib.Data.List.Sort

/-!
# JSON values with UTF-16 texts, and the rules that read them

* `Value` — a JSON value; members keep their order, and `undefined` members are left out;
* `stringify` — `JSON.stringify`; `sortDeep` — the members of every object sorted;
* `string`, `nonempty`, `nullable`, `optional`, `array`, `oneOf`, `strict` — the rules of a schema; `none` is a failure.
-/

namespace LlmGateway.Lib.Schema

open Utf16

inductive Value where
  | null
  | bool (b : Bool)
  | num (digits : Text)
  | str (s : Text)
  | arr (items : List Value)
  | obj (members : List (String × Value))

/-! ## Texts -/

mutual

/-- `JSON.stringify` -/
def stringify : Value → Text
  | .null => text "null"
  | .bool b => text (if b then "true" else "false")
  | .num digits => digits
  | .str s => quote s
  | .arr items => [91] ++ stringifyItems items ++ [93]
  | .obj members => [123] ++ stringifyMembers members ++ [125]

def stringifyItems : List Value → Text
  | [] => []
  | [v] => stringify v
  | v :: vs => stringify v ++ [44] ++ stringifyItems vs

def stringifyMembers : List (String × Value) → Text
  | [] => []
  | [m] => stringifyMember m
  | m :: ms => stringifyMember m ++ [44] ++ stringifyMembers ms

def stringifyMember : String × Value → Text
  | (name, v) => quote (text name) ++ [58] ++ stringify v

end

mutual

/-- The members of every object in the order of their names. -/
def sortDeep : Value → Value
  | .arr items => .arr (sortItems items)
  | .obj members => .obj ((sortMembers members).insertionSort fun a b => a.1 ≤ b.1)
  | v => v

def sortItems : List Value → List Value
  | [] => []
  | v :: vs => sortDeep v :: sortItems vs

def sortMembers : List (String × Value) → List (String × Value)
  | [] => []
  | m :: ms => sortMember m :: sortMembers ms

def sortMember : String × Value → String × Value
  | (name, v) => (name, sortDeep v)

end

/-- `canonicalJson` -/
def canonicalJson (v : Value) : Text := stringify (sortDeep v)

/-! ## Rules -/

variable {α : Type*}

/-- A member of an object, the last with that name; `none` is `undefined`. -/
def field (name : String) (members : List (String × Value)) : Option Value :=
  (members.reverse.find? fun m => m.1 = name).map Prod.snd

def string : Value → Option Text
  | .str s => some s
  | _ => none

/-- `z.string().min(1)` -/
def nonempty (v : Value) : Option Text := (string v).filter fun s => !s.isEmpty

def boolean : Value → Option Bool
  | .bool b => some b
  | _ => none

def nullable (r : Value → Option α) : Value → Option (Option α)
  | .null => some none
  | v => (r v).map some

def optional (r : Value → Option α) : Option Value → Option (Option α)
  | none => some none
  | some v => (r v).map some

/-- A member that must be there. -/
def required (r : Value → Option α) (v : Option Value) : Option α := v.bind r

def array (r : Value → Option α) : Value → Option (List α)
  | .arr items => items.mapM r
  | _ => none

/-- `z.enum`: a text that is the name of one of the choices. -/
def oneOf (name : α → Text) (choices : List α) (v : Value) : Option α :=
  (string v).bind fun s => choices.find? fun c => name c = s

def object : Value → Option (List (String × Value))
  | .obj members => some members
  | _ => none

/-- `z.object(..).strict()`: no member but these. -/
def strict (names : List String) (v : Value) : Option (List (String × Value)) :=
  (object v).filter fun members => members.all fun m => names.contains m.1

theorem array_spec {r : Value → Option α} {v : Value} {l : List α} (h : array r v = some l) :
    ∀ a ∈ l, ∃ w, r w = some a := by
  unfold array at h
  split at h
  · rename_i items
    induction items generalizing l with
    | nil =>
      cases h
      exact fun a ha => absurd ha List.not_mem_nil
    | cons w items ih =>
      rw [List.mapM_cons] at h
      obtain ⟨b, hb, h⟩ := Option.bind_eq_some_iff.1 h
      obtain ⟨bs, hbs, h⟩ := Option.bind_eq_some_iff.1 h
      cases h
      intro a ha
      rw [List.mem_cons] at ha
      obtain rfl | ha := ha
      · exact ⟨w, hb⟩
      · exact ih hbs a ha
  · cases h

theorem nonempty_ne_nil {v : Value} {s : Text} (h : nonempty v = some s) : s ≠ [] := by
  unfold nonempty at h
  rw [Option.filter_eq_some_iff] at h
  simpa using h.2

/-! ## Reading back -/

def nullOr (write : α → Value) : Option α → Value
  | none => .null
  | some a => write a

theorem nonempty_str {s : Text} (h : s ≠ []) : nonempty (.str s) = some s := by
  cases s with
  | nil => exact absurd rfl h
  | cons u s => rfl

theorem array_map {r : Value → Option α} {write : α → Value} {l : List α} (h : ∀ a ∈ l, r (write a) = some a) :
    array r (.arr (l.map write)) = some l := by
  change (l.map write).mapM r = some l
  induction l with
  | nil => rfl
  | cons a l ih =>
    rw [List.map_cons, List.mapM_cons, h a List.mem_cons_self, ih fun b hb => h b (List.mem_cons_of_mem a hb)]
    rfl

theorem nullable_write {r : Value → Option α} {write : α → Value} {o : Option α}
    (h : ∀ a, o = some a → r (write a) = some a ∧ write a ≠ .null) : nullable r (nullOr write o) = some o := by
  cases o with
  | none => rfl
  | some a =>
    obtain ⟨hr, hne⟩ := h a rfl
    unfold nullOr nullable
    split
    · next hn => exact absurd hn hne
    · rw [hr]
      rfl

theorem oneOf_name {name : α → Text} {choices : List α} {a : α} (ha : a ∈ choices)
    (hinj : ∀ b ∈ choices, name b = name a → b = a) : oneOf name choices (.str (name a)) = some a := by
  unfold oneOf string
  rw [Option.bind_some]
  cases hf : choices.find? fun c => decide (name c = name a) with
  | none => simpa using List.find?_eq_none.1 hf a ha
  | some b =>
    have hb := List.find?_some hf
    rw [hinj b (List.mem_of_find?_eq_some hf) (by simpa using hb)]

end LlmGateway.Lib.Schema
