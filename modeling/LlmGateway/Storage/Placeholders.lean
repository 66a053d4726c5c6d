import LlmGateway.Lib.JsString
import LlmGateway.Lib.Numeral
import Mathlib.Data.List.TakeWhile

/-!
# Placeholders of the PostgreSQL driver

`toDollarPlaceholders` (storage/drivers/postgres.ts) writes `$1`, `$2`, … for the question marks of a statement that are outside
its literals, its quoted identifiers and its comments.

* `Rules`, `marks` — the tokens of a statement, character by character, where comments nest and a carriage return ends a line,
  or where they do not;
* `toDollarPlaceholders_eq` — the walk numbers the question marks outside the tokens of `Rules.flat`;
* `translated_iff` — it is right by the rules of the server just when these give every question mark the same place as
  `Rules.flat` does.
-/

namespace LlmGateway.Storage.Pg

open LlmGateway.Lib.Utf16

/-! ## The walk -/

/-- What is left of a literal behind its first quote, with its last quote, and what is behind that. -/
def quotedPart (quote : UInt16) : Text → Text × Text
  | [] => ([], [])
  | [u] => ([u], [])
  | u :: v :: s =>
    if u = quote then
      -- a doubled quote is an escaped quote
      if v = quote then (u :: v :: (quotedPart quote s).1, (quotedPart quote s).2) else ([u], v :: s)
    else (u :: (quotedPart quote (v :: s)).1, (quotedPart quote (v :: s)).2)

/-- What is left of a block comment behind `/*`, and what is behind it. -/
def commentPart : Text → Text × Text
  | [] => ([], [])
  | [u] => ([u], [])
  | u :: v :: s =>
    if u = 42 ∧ v = 47 then ([u, v], s) else (u :: (commentPart (v :: s)).1, (commentPart (v :: s)).2)

def isLinePart (u : UInt16) : Bool := u != 10

theorem length_quotedPart (quote : UInt16) (s : Text) : (quotedPart quote s).2.length ≤ s.length := by
  fun_induction quotedPart quote s with
  | case1 => exact le_rfl
  | case2 u => exact Nat.zero_le _
  | case3 s ih =>
    simp only [List.length_cons]
    omega
  | case4 v s hv => simp
  | case5 u v s hu ih =>
    simp only [List.length_cons] at ih ⊢
    omega

theorem length_commentPart (s : Text) : (commentPart s).2.length ≤ s.length := by
  fun_induction commentPart s with
  | case1 => exact le_rfl
  | case2 u => exact Nat.zero_le _
  | case3 u v s h =>
    simp only [List.length_cons]
    omega
  | case4 u v s h ih =>
    simp only [List.length_cons] at ih ⊢
    omega

/-- The loop, behind `index` placeholders. -/
def toDollarFrom (index : ℕ) : Text → Text
  | [] => []
  | ch :: s =>
    if ch = 39 ∨ ch = 34 then ch :: (quotedPart ch s).1 ++ toDollarFrom index (quotedPart ch s).2
    else if ch = 45 ∧ s.head? = some 45 then ch :: s.takeWhile isLinePart ++ toDollarFrom index (s.dropWhile isLinePart)
    else if ch = 47 ∧ s.head? = some 42 then
      [47, 42] ++ (commentPart s.tail).1 ++ toDollarFrom index (commentPart s.tail).2
    else if ch = 63 then 36 :: numeral (index + 1) ++ toDollarFrom (index + 1) s
    else ch :: toDollarFrom index s
termination_by s => s.length
decreasing_by
  · have := length_quotedPart ch s
    simp only [List.length_cons]
    omega
  · have := (List.dropWhile_sublist isLinePart (l := s)).length_le
    simp only [List.length_cons]
    omega
  · have := length_commentPart s.tail
    simp only [List.length_cons, List.length_tail] at this ⊢
    omega
  · simp
  · simp

def toDollarPlaceholders (statement : Text) : Text := toDollarFrom 0 statement

/-! ## Tokens -/

/-- Whether block comments nest, and whether a carriage return ends a line comment. -/
structure Rules where
  nested : Bool
  carriageReturn : Bool

/-- The rules of the server. -/
def Rules.server : Rules := ⟨true, true⟩

/-- A block comment ends at the first `*/`, a line comment at a line feed. -/
def Rules.flat : Rules := ⟨false, false⟩

/-- Where a character is: outside of all tokens, in a literal or an identifier, in a line comment, or in block comments. -/
inductive Lexing where
  | outside
  | quoted (quote : UInt16)
  | line
  | block (depth : ℕ)
deriving DecidableEq

/-- For each character whether it belongs to a literal, a quoted identifier or a comment. -/
def marks (r : Rules) : Lexing → Text → List Bool
  | _, [] => []
  | .outside, [u] => [u == 39 || u == 34]
  | .outside, u :: v :: s =>
    if u = 39 ∨ u = 34 then true :: marks r (.quoted u) (v :: s)
    else if u = 45 ∧ v = 45 then true :: true :: marks r .line s
    else if u = 47 ∧ v = 42 then true :: true :: marks r (.block 0) s
    else false :: marks r .outside (v :: s)
  | .quoted _, [_] => [true]
  | .quoted q, u :: v :: s =>
    if u = q then
      if v = q then true :: true :: marks r (.quoted q) s else true :: marks r .outside (v :: s)
    else true :: marks r (.quoted q) (v :: s)
  | .line, u :: s =>
    if u = 10 ∨ (r.carriageReturn ∧ u = 13) then false :: marks r .outside s else true :: marks r .line s
  | .block _, [_] => [true]
  | .block depth, u :: v :: s =>
    if u = 42 ∧ v = 47 then
      true :: true :: match depth with
        | 0 => marks r .outside s
        | depth + 1 => marks r (.block depth) s
    else if r.nested ∧ u = 47 ∧ v = 42 then true :: true :: marks r (.block (depth + 1)) s
    else true :: marks r (.block depth) (v :: s)

/-- The unmarked question marks become placeholders, behind `index` of them. -/
def number (index : ℕ) : Text → List Bool → Text
  | u :: s, m :: ms => if u = 63 ∧ m = false then 36 :: numeral (index + 1) ++ number (index + 1) s ms else u :: number index s ms
  | s, _ => s

/-- The statement with numbered placeholders, by the given rules. -/
def placeholders (r : Rules) (statement : Text) : Text := number 0 statement (marks r .outside statement)

/-! ## The walk by the flat rules -/

theorem number_append (index : ℕ) (t s : Text) (ms : List Bool) :
    number index (t ++ s) (List.replicate t.length true ++ ms) = t ++ number index s ms := by
  induction t with
  | nil => rfl
  | cons u t ih => simp [number, List.replicate_succ, ih]

theorem quotedPart_append (quote : UInt16) (s : Text) : (quotedPart quote s).1 ++ (quotedPart quote s).2 = s := by
  fun_induction quotedPart quote s <;> simp_all

theorem commentPart_append (s : Text) : (commentPart s).1 ++ (commentPart s).2 = s := by
  fun_induction commentPart s <;> simp_all

theorem marks_outside (r : Rules) (u : UInt16) (s : Text) : marks r .outside (u :: s) =
    if u = 39 ∨ u = 34 then true :: marks r (.quoted u) s
    else if u = 45 ∧ s.head? = some 45 then true :: true :: marks r .line s.tail
    else if u = 47 ∧ s.head? = some 42 then true :: true :: marks r (.block 0) s.tail
    else false :: marks r .outside s := by
  cases s with
  | nil => by_cases h : u = 39 ∨ u = 34 <;> simp_all [marks]
  | cons v s => simp [marks]

theorem marks_quoted (r : Rules) (quote : UInt16) (s : Text) : marks r (.quoted quote) s =
    List.replicate (quotedPart quote s).1.length true ++ marks r .outside (quotedPart quote s).2 := by
  fun_induction quotedPart quote s with
  | case1 => rfl
  | case2 u => simp [marks]
  | case3 s ih => simp [marks, List.replicate_succ, ih]
  | case4 v s hv => simp [marks, hv]
  | case5 u v s hu ih => simp [marks, hu, List.replicate_succ, ih]

theorem marks_line (s : Text) : marks .flat .line s =
    List.replicate (s.takeWhile isLinePart).length true ++ marks .flat .outside (s.dropWhile isLinePart) := by
  induction s with
  | nil => rfl
  | cons u s ih =>
    by_cases hu : u = 10
    · subst hu
      simp [marks, Rules.flat, isLinePart, marks_outside]
    · rw [List.takeWhile_cons_of_pos (by simp [isLinePart, hu]), List.dropWhile_cons_of_pos (by simp [isLinePart, hu])]
      rw [List.length_cons, List.replicate_succ, List.cons_append, ← ih]
      simp [marks, Rules.flat, hu]

theorem marks_block (s : Text) : marks .flat (.block 0) s =
    List.replicate (commentPart s).1.length true ++ marks .flat .outside (commentPart s).2 := by
  fun_induction commentPart s with
  | case1 => rfl
  | case2 u => simp [marks]
  | case3 u v s h => simp [marks, h, List.replicate_succ]
  | case4 u v s h ih =>
    rw [List.length_cons, List.replicate_succ, List.cons_append, ← ih, marks, if_neg h, if_neg (by simp [Rules.flat])]

/-- **The walk numbers the question marks outside the tokens of the flat rules.** -/
theorem toDollarFrom_eq (index : ℕ) (s : Text) : toDollarFrom index s = number index s (marks .flat .outside s) := by
  fun_induction toDollarFrom index s with
  | case1 => rfl
  | case2 index ch s h ih =>
    rw [marks_outside, if_pos h, marks_quoted, ih]
    have := number_append index (ch :: (quotedPart ch s).1) (quotedPart ch s).2 (marks .flat .outside (quotedPart ch s).2)
    rw [List.cons_append, quotedPart_append] at this
    exact this.symm
  | case3 index ch s hq h ih =>
    obtain ⟨hch, hhead⟩ := h
    obtain ⟨t, rfl⟩ := List.head?_eq_some_iff.1 hhead
    have hminus : isLinePart 45 = true := rfl
    have := number_append index (ch :: 45 :: t.takeWhile isLinePart) (t.dropWhile isLinePart)
      (marks .flat .outside (t.dropWhile isLinePart))
    rw [List.cons_append, List.cons_append, List.takeWhile_append_dropWhile] at this
    rw [marks_outside, if_neg hq, if_pos ⟨hch, rfl⟩, List.tail_cons, marks_line, ih,
      List.takeWhile_cons_of_pos hminus, List.dropWhile_cons_of_pos hminus]
    exact this.symm
  | case4 index ch s hq hl h ih =>
    obtain ⟨rfl, hhead⟩ := h
    obtain ⟨t, rfl⟩ := List.head?_eq_some_iff.1 hhead
    have := number_append index (47 :: 42 :: (commentPart t).1) (commentPart t).2 (marks .flat .outside (commentPart t).2)
    rw [List.cons_append, List.cons_append, commentPart_append] at this
    rw [marks_outside, if_neg hq, if_neg hl, if_pos ⟨rfl, rfl⟩, List.tail_cons, marks_block]
    rw [List.tail_cons] at ih
    rw [ih]
    exact this.symm
  | case5 index s hq hl hb ih =>
    rw [marks_outside, if_neg hq, if_neg hl, if_neg hb, ih]
    simp [number]
  | case6 index ch s hq hl hb h ih =>
    rw [marks_outside, if_neg hq, if_neg hl, if_neg hb, ih]
    simp [number, h]

theorem toDollarPlaceholders_eq (statement : Text) : toDollarPlaceholders statement = placeholders .flat statement :=
  toDollarFrom_eq 0 statement

example : toDollarPlaceholders (text "a = ? AND b = 'why?' -- ?") = text "a = $1 AND b = 'why?' -- ?" := by decide +kernel

/-! ## Its own output -/

/-- What a character outside of all tokens is written as begins with. -/
def written (u : UInt16) : UInt16 := if u = 63 then 36 else u

theorem head?_toDollarFrom (index : ℕ) (s : Text) : (toDollarFrom index s).head? = s.head?.map written := by
  fun_cases toDollarFrom index s with
  | case1 => rfl
  | case2 ch s h =>
    rcases h with rfl | rfl
    · rfl
    · rfl
  | case3 ch s hq h | case4 ch s hq hl h =>
    rw [h.1]
    rfl
  | case5 s hq hl hb => rfl
  | case6 ch s hq hl hb h => simp [written, h]

theorem quotedPart_cons (quote v : UInt16) (s : Text) : ∃ l, (quotedPart quote (v :: s)).1 = v :: l := by
  unfold quotedPart
  split
  · next h => cases h
  · next h =>
    obtain ⟨rfl, rfl⟩ := List.cons.inj h
    exact ⟨[], rfl⟩
  · next h =>
    obtain ⟨rfl, rfl⟩ := List.cons.inj h
    split_ifs
    · exact ⟨_, rfl⟩
    · exact ⟨_, rfl⟩
    · exact ⟨_, rfl⟩

theorem commentPart_cons (v : UInt16) (s : Text) : ∃ l, (commentPart (v :: s)).1 = v :: l := by
  unfold commentPart
  split
  · next h => cases h
  · next h =>
    obtain ⟨rfl, rfl⟩ := List.cons.inj h
    exact ⟨[], rfl⟩
  · next h =>
    obtain ⟨rfl, rfl⟩ := List.cons.inj h
    split_ifs
    · exact ⟨_, rfl⟩
    · exact ⟨_, rfl⟩

/-- A literal ends where it did, when what is behind it begins as before. -/
theorem quotedPart_again {quote : UInt16} (hq : quote = 39 ∨ quote = 34) {s t : Text}
    (ht : t.head? = (quotedPart quote s).2.head?.map written) :
    quotedPart quote ((quotedPart quote s).1 ++ t) = ((quotedPart quote s).1, t) := by
  fun_induction quotedPart quote s with
  | case1 | case2 u =>
    obtain rfl : t = [] := by simpa using ht
    rfl
  | case3 s ih => simp [quotedPart, ih ht]
  | case4 v s hv =>
    obtain ⟨t, rfl⟩ := List.head?_eq_some_iff.1 (ht.trans rfl)
    have hne : written v ≠ quote := by
      unfold written
      split
      · rcases hq with rfl | rfl <;> decide
      · exact hv
    simp [quotedPart, hne]
  | case5 u v s hu ih =>
    have ih := ih ht
    obtain ⟨l, hl⟩ := quotedPart_cons quote v s
    rw [hl] at ih ⊢
    rw [List.cons_append] at ih
    rw [List.cons_append, List.cons_append, quotedPart, if_neg hu, ih]

theorem commentPart_again {s t : Text} (ht : t.head? = (commentPart s).2.head?.map written) :
    commentPart ((commentPart s).1 ++ t) = ((commentPart s).1, t) := by
  fun_induction commentPart s with
  | case1 | case2 u =>
    obtain rfl : t = [] := by simpa using ht
    rfl
  | case3 u v s h => simp [commentPart, h]
  | case4 u v s h ih =>
    have ih := ih ht
    obtain ⟨l, hl⟩ := commentPart_cons v s
    rw [hl] at ih ⊢
    rw [List.cons_append] at ih
    rw [List.cons_append, List.cons_append, commentPart, if_neg h, ih]

/-- Characters that begin no token and are no placeholder are copied. -/
theorem toDollarFrom_copy (index : ℕ) {l : Text} (hl : ∀ u ∈ l, u = 36 ∨ (48 ≤ u ∧ u ≤ 57)) (t : Text) :
    toDollarFrom index (l ++ t) = l ++ toDollarFrom index t := by
  induction l with
  | nil => rfl
  | cons u l ih =>
    have hu : u ≠ 39 ∧ u ≠ 34 ∧ u ≠ 45 ∧ u ≠ 47 ∧ u ≠ 63 := by
      refine ⟨?_, ?_, ?_, ?_, ?_⟩ <;> (rintro rfl; exact absurd (hl _ List.mem_cons_self) (by decide))
    rw [List.cons_append, toDollarFrom, if_neg (by simp [hu]), if_neg (by simp [hu]), if_neg (by simp [hu]),
      if_neg (by simp [hu]), ih fun v hv => hl v (List.mem_cons_of_mem _ hv), List.cons_append]

theorem toDollarFrom_idem (index k : ℕ) (s : Text) : toDollarFrom k (toDollarFrom index s) = toDollarFrom index s := by
  fun_induction toDollarFrom index s with
  | case1 => simp [toDollarFrom]
  | case2 index ch s h ih =>
    rw [List.cons_append, toDollarFrom, if_pos h, quotedPart_again h (head?_toDollarFrom index _), ih]
    rfl
  | case3 index ch s hq h ih =>
    obtain ⟨hch, hhead⟩ := h
    obtain ⟨t, rfl⟩ := List.head?_eq_some_iff.1 hhead
    have hend : ∀ u ∈ (toDollarFrom index ((45 :: t).dropWhile isLinePart)).head?, isLinePart u = false := by
      intro u hu
      rw [head?_toDollarFrom] at hu
      obtain ⟨v, hv, rfl⟩ := Option.mem_map.1 hu
      have hnot := List.head?_dropWhile_not isLinePart (45 :: t)
      rw [Option.mem_def.1 hv] at hnot
      obtain rfl : v = 10 := by simpa [isLinePart] using hnot
      rfl
    have hhead : ((45 :: t).takeWhile isLinePart ++ toDollarFrom index ((45 :: t).dropWhile isLinePart)).head? = some 45 := rfl
    obtain ⟨htake, hdrop⟩ := takeWhile_stop (fun _ hu => List.mem_takeWhile_imp hu) hend
    rw [List.cons_append, toDollarFrom, if_neg hq, if_pos ⟨hch, hhead⟩, htake, hdrop, ih]
    rfl
  | case4 index ch s hq hl h ih =>
    obtain ⟨rfl, hhead⟩ := h
    obtain ⟨t, rfl⟩ := List.head?_eq_some_iff.1 hhead
    rw [List.append_assoc, List.cons_append, List.cons_append, List.nil_append, toDollarFrom, if_neg hq, if_neg (by simp),
      if_pos ⟨rfl, rfl⟩, List.tail_cons, List.tail_cons, commentPart_again (head?_toDollarFrom index _)]
    rw [List.tail_cons] at ih
    rw [ih]
    simp
  | case5 index s hq hl hb ih =>
    rw [List.cons_append, ← List.cons_append, toDollarFrom_copy, ih]
    intro u hu
    rcases List.mem_cons.1 hu with rfl | hu
    · exact .inl rfl
    · exact .inr (digit_of_mem_numeral hu)
  | case6 index ch s hq hl hb h ih =>
    have hwritten : ∀ u v : UInt16, u ≠ 36 → written v = u → v = u := by
      intro u v hu hv
      unfold written at hv
      split at hv
      · exact absurd hv.symm hu
      · exact hv
    have hhead : ∀ u : UInt16, u ≠ 36 → (toDollarFrom index s).head? = some u → s.head? = some u := by
      intro u hu hout
      rw [head?_toDollarFrom] at hout
      obtain ⟨v, hv, hvu⟩ := Option.map_eq_some_iff.1 hout
      rw [hv, hwritten u v hu hvu]
    rw [toDollarFrom, if_neg hq, if_neg fun hc => hl ⟨hc.1, hhead 45 (by decide) hc.2⟩,
      if_neg fun hc => hb ⟨hc.1, hhead 42 (by decide) hc.2⟩, if_neg h, ih]

/-! ## The rules of the server -/

theorem length_marks (r : Rules) (x : Lexing) (s : Text) : (marks r x s).length = s.length := by
  fun_induction marks r x s with
  | case14 depth u v s h ihout ihblock => cases depth <;> simp_all
  | _ => simp_all

theorem number_inj {index : ℕ} {s : Text} {m m' : List Bool} (hm : m.length = s.length) (hm' : m'.length = s.length) :
    number index s m = number index s m' ↔ ∀ i : ℕ, s[i]? = some 63 → m[i]? = m'[i]? := by
  induction s generalizing index m m' with
  | nil => simp_all [number]
  | cons u s ih =>
    obtain ⟨b, m, rfl⟩ := List.exists_cons_of_length_eq_add_one hm
    obtain ⟨b', m', rfl⟩ := List.exists_cons_of_length_eq_add_one hm'
    simp only [List.length_cons, Nat.add_right_cancel_iff] at hm hm'
    have hsplit : (∀ i : ℕ, (u :: s)[i]? = some 63 → (b :: m)[i]? = (b' :: m')[i]?) ↔
        (u = 63 → b = b') ∧ ∀ i : ℕ, s[i]? = some 63 → m[i]? = m'[i]? := by
      constructor
      · intro h
        exact ⟨fun hu => by simpa using h 0 (by simp [hu]), fun i hi => by simpa using h (i + 1) (by simpa using hi)⟩
      · intro h i hi
        cases i with
        | zero => simpa using h.1 (by simpa using hi)
        | succ i => simpa using h.2 i (by simpa using hi)
    rw [hsplit]
    by_cases hu : u = 63
    · subst hu
      -- a numbered question mark begins with a dollar sign
      cases b <;> cases b' <;> simp [number, ih hm hm']
    · simp [number, hu, ih hm hm']

/-- What the translation has to do: it numbers the question marks outside the server's tokens, and nothing else. -/
structure Translated (statement : Text) : Prop where
  numbered : toDollarPlaceholders statement = placeholders .server statement
  stable : toDollarPlaceholders (toDollarPlaceholders statement) = toDollarPlaceholders statement

/-- **When the translation is right**: each question mark is where it is when comments do not nest and carriage returns do not
end lines. -/
theorem translated_iff (statement : Text) : Translated statement ↔
    ∀ i : ℕ, statement[i]? = some 63 → (marks .flat .outside statement)[i]? = (marks .server .outside statement)[i]? := by
  have hinj := @number_inj 0 statement _ _ (length_marks .flat .outside statement) (length_marks .server .outside statement)
  constructor
  · intro h
    exact hinj.1 ((toDollarPlaceholders_eq statement).symm.trans h.numbered)
  · intro h
    exact ⟨(toDollarPlaceholders_eq statement).trans (hinj.2 h), toDollarFrom_idem 0 0 statement⟩

/-- A comment within a comment, and what the server reads as its rest. -/
def nestedComment : Text := text "/* a /* b */ ? */ SELECT ?"

theorem not_translated_nested : ¬∀ statement, Translated statement := by
  intro h
  have := (h nestedComment).numbered
  revert this
  decide +kernel

end LlmGateway.Storage.Pg
