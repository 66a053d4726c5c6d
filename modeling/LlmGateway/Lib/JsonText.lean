import LlmGateway.Lib.JsString
import Mathlib.Data.List.TakeWhile

/-!
# The grammar of JSON texts

* `Tree` — a JSON document as the tokens it is made of, each as it is spelled; `tokens`, and `spell`, which writes them without
  white space;
* `Value`, `Items`, `Members`, `Document` — the grammar of RFC 8259, as what is in front of the rest of a text;
* `readValue`, `readTree` — a recursive descent; its fuel is twice the length of the text, as of two calls that are nested one
  has read a character;
* `readTree_iff` — it accepts just the texts of the grammar (`sound`, `complete`), which is therefore unambiguous.
-/

namespace LlmGateway.Lib.JsonText

open Utf16

/-! ## Documents -/

inductive Tree where
  | literal (w : Text)
  | number (w : Text)
  | string (w : Text)
  | array (items : List Tree)
  | object (members : List (Text × Tree))

mutual

def tokens : Tree → List Text
  | .literal w => [w]
  | .number w => [w]
  | .string w => [w]
  | .array items => [91] :: itemTokens items
  | .object members => [123] :: memberTokens members

def itemTokens : List Tree → List Text
  | [] => [[93]]
  | [t] => tokens t ++ [[93]]
  | t :: ts => tokens t ++ [44] :: itemTokens ts

def memberTokens : List (Text × Tree) → List Text
  | [] => [[125]]
  | [m] => memberToken m ++ [[125]]
  | m :: ms => memberToken m ++ [44] :: memberTokens ms

def memberToken : Text × Tree → List Text
  | (key, t) => key :: [58] :: tokens t

end

/-- The document without white space. -/
def spell (t : Tree) : Text := (tokens t).flatten

def spellItems (ts : List Tree) : Text := (itemTokens ts).flatten

def spellMembers (ms : List (Text × Tree)) : Text := (memberTokens ms).flatten

/-! ## The grammar -/

def isWs (u : UInt16) : Bool := u == 32 || u == 9 || u == 10 || u == 13

/-- White space in front of the rest of a text. -/
inductive Space : Text → Text → Prop where
  | nil (s : Text) : Space s s
  | cons {u : UInt16} {s r : Text} (hu : isWs u = true) (h : Space s r) : Space (u :: s) r

def isHex (u : UInt16) : Bool := (48 ≤ u && u ≤ 57) || (65 ≤ u && u ≤ 70) || (97 ≤ u && u ≤ 102)

def isDigit (u : UInt16) : Bool := 48 ≤ u && u ≤ 57

/-- `"`, `\`, `/`, `b`, `f`, `n`, `r`, `t` -/
def simpleEscapes : List UInt16 := [34, 92, 47, 98, 102, 110, 114, 116]

/-- What is between the quotes of a string. -/
inductive Chars : Text → Prop where
  | nil : Chars []
  | unescaped {u : UInt16} {s : Text} (h32 : 32 ≤ u) (hq : u ≠ 34) (hb : u ≠ 92) (h : Chars s) : Chars (u :: s)
  | escaped {u : UInt16} {s : Text} (hu : u ∈ simpleEscapes) (h : Chars s) : Chars (92 :: u :: s)
  | unit {a b c d : UInt16} {s : Text} (ha : isHex a = true) (hb : isHex b = true) (hc : isHex c = true) (hd : isHex d = true)
      (h : Chars s) : Chars (92 :: 117 :: a :: b :: c :: d :: s)

def IsString (w : Text) : Prop := ∃ s, Chars s ∧ w = 34 :: (s ++ [34])

def Digits (s : Text) : Prop := s ≠ [] ∧ ∀ u ∈ s, isDigit u = true

/-- No zero in front of another digit. -/
def IsInteger (w : Text) : Prop := w = [48] ∨ (Digits w ∧ w.head? ≠ some 48)

def IsFraction (w : Text) : Prop := w = [] ∨ ∃ ds, Digits ds ∧ w = 46 :: ds

def IsExponent (w : Text) : Prop :=
  w = [] ∨ ∃ e sign ds, (e = 101 ∨ e = 69) ∧ (sign = [] ∨ sign = [43] ∨ sign = [45]) ∧ Digits ds ∧ w = e :: (sign ++ ds)

def IsNumber (w : Text) : Prop :=
  ∃ sign i f e, (sign = [] ∨ sign = [45]) ∧ IsInteger i ∧ IsFraction f ∧ IsExponent e ∧ w = sign ++ (i ++ (f ++ e))

def literals : List Text := [text "true", text "false", text "null"]

mutual

/-- A value in front of the rest of a text. -/
inductive Value : Text → Tree → Text → Prop where
  | literal {w r : Text} (h : w ∈ literals) : Value (w ++ r) (.literal w) r
  | number {w r : Text} (h : IsNumber w) : Value (w ++ r) (.number w) r
  | string {w r : Text} (h : IsString w) : Value (w ++ r) (.string w) r
  | emptyArray {s r : Text} (h : Space s (93 :: r)) : Value (91 :: s) (.array []) r
  | array {s r : Text} {ts : List Tree} (h : Items s ts r) : Value (91 :: s) (.array ts) r
  | emptyObject {s r : Text} (h : Space s (125 :: r)) : Value (123 :: s) (.object []) r
  | object {s r : Text} {ms : List (Text × Tree)} (h : Members s ms r) : Value (123 :: s) (.object ms) r

/-- The items of an array that has some, and its bracket. -/
inductive Items : Text → List Tree → Text → Prop where
  | last {s a b r : Text} {t : Tree} (ha : Space s a) (ht : Value a t b) (hb : Space b (93 :: r)) : Items s [t] r
  | more {s a b c r : Text} {t : Tree} {ts : List Tree} (ha : Space s a) (ht : Value a t b) (hb : Space b (44 :: c))
      (h : Items c ts r) : Items s (t :: ts) r

/-- The members of an object that has some, and its brace. -/
inductive Members : Text → List (Text × Tree) → Text → Prop where
  | last {s k b c d e r : Text} {t : Tree} (hs : Space s (k ++ b)) (hk : IsString k) (hb : Space b (58 :: c)) (hc : Space c d)
      (ht : Value d t e) (he : Space e (125 :: r)) : Members s [(k, t)] r
  | more {s k b c d e f r : Text} {t : Tree} {ms : List (Text × Tree)} (hs : Space s (k ++ b)) (hk : IsString k)
      (hb : Space b (58 :: c)) (hc : Space c d) (ht : Value d t e) (he : Space e (44 :: f)) (h : Members f ms r) :
      Members s ((k, t) :: ms) r

end

/-- One value with optional white space around it. -/
def Document (s : Text) (t : Tree) : Prop := ∃ a b, Space s a ∧ Value a t b ∧ Space b []

/-! ## The recursive descent -/

def skipWs (s : Text) : Text := s.dropWhile isWs

/-- A token, and the text behind it. -/
abbrev Scanned := Option (Text × Text)

def Scanned.after (front : Text) (r : Scanned) : Scanned := r.map fun r => (front ++ r.1, r.2)

/-- A string behind its first quote. -/
def scanChars : Text → Scanned
  | 92 :: 117 :: a :: b :: c :: d :: s =>
    if isHex a && isHex b && isHex c && isHex d then Scanned.after [92, 117, a, b, c, d] (scanChars s) else none
  | 92 :: u :: s => if u ∈ simpleEscapes then Scanned.after [92, u] (scanChars s) else none
  | 34 :: s => some ([34], s)
  | u :: s => if u = 92 ∨ u < 32 then none else Scanned.after [u] (scanChars s)
  | [] => none

def scanString : Text → Scanned
  | 34 :: s => Scanned.after [34] (scanChars s)
  | _ => none

def scanInteger : Text → Scanned
  | 48 :: s => some ([48], s)
  | u :: s => if isDigit u then some (u :: s.takeWhile isDigit, s.dropWhile isDigit) else none
  | [] => none

/-- An optional part of a number: `front`, and at least one digit. -/
def scanDigits (front s rest : Text) : Text × Text :=
  if (rest.takeWhile isDigit).isEmpty then ([], s) else (front ++ rest.takeWhile isDigit, rest.dropWhile isDigit)

def scanFraction (s : Text) : Text × Text :=
  match s with
  | 46 :: rest => scanDigits [46] s rest
  | _ => ([], s)

def scanExponent (s : Text) : Text × Text :=
  match s with
  | u :: rest =>
    if u = 101 ∨ u = 69 then
      match rest with
      | v :: rest' => if v = 43 ∨ v = 45 then scanDigits [u, v] s rest' else scanDigits [u] s rest
      | [] => ([], s)
    else ([], s)
  | [] => ([], s)

/-- A number behind its sign. -/
def scanUnsigned (s : Text) : Scanned :=
  (scanInteger s).map fun i =>
    let f := scanFraction i.2
    let e := scanExponent f.2
    (i.1 ++ f.1 ++ e.1, e.2)

def scanNumber : Text → Scanned
  | 45 :: s => Scanned.after [45] (scanUnsigned s)
  | s => scanUnsigned s

def scanLiteral (word s : Text) : Scanned := if word.isPrefixOf s then some (word, s.drop word.length) else none

/-- A leaf, with what makes one of its token. -/
def leaf (f : Text → Tree) (r : Scanned) : Option (Tree × Text) := r.map fun r => (f r.1, r.2)

mutual

def readValue : ℕ → Text → Option (Tree × Text)
  | 0, _ => none
  | n + 1, s =>
    match skipWs s with
    | [] => none
    | 123 :: s =>
      match skipWs s with
      | 125 :: s => some (.object [], s)
      | _ => (readMembers n s).map fun r => (.object r.1, r.2)
    | 91 :: s =>
      match skipWs s with
      | 93 :: s => some (.array [], s)
      | _ => (readItems n s).map fun r => (.array r.1, r.2)
    | 34 :: s => leaf .string (scanString (34 :: s))
    | 116 :: s => leaf .literal (scanLiteral (text "true") (116 :: s))
    | 102 :: s => leaf .literal (scanLiteral (text "false") (102 :: s))
    | 110 :: s => leaf .literal (scanLiteral (text "null") (110 :: s))
    | u :: s => if u = 45 ∨ isDigit u then leaf .number (scanNumber (u :: s)) else none

def readMembers : ℕ → Text → Option (List (Text × Tree) × Text)
  | 0, _ => none
  | n + 1, s => do
    let key ← scanString (skipWs s)
    match skipWs key.2 with
    | 58 :: s =>
      let value ← readValue n s
      match skipWs value.2 with
      | 44 :: s => (readMembers n s).map fun r => ((key.1, value.1) :: r.1, r.2)
      | 125 :: s => some ([(key.1, value.1)], s)
      | _ => none
    | _ => none

def readItems : ℕ → Text → Option (List Tree × Text)
  | 0, _ => none
  | n + 1, s => do
    let value ← readValue n s
    match skipWs value.2 with
    | 44 :: s => (readItems n s).map fun r => (value.1 :: r.1, r.2)
    | 93 :: s => some ([value.1], s)
    | _ => none

end

/-- The document of a text. -/
def readTree (s : Text) : Option Tree :=
  match readValue (2 * s.length + 2) s with
  | some (t, rest) => if (skipWs rest).isEmpty then some t else none
  | none => none

/-! ## What it reads -/

theorem space_skipWs (s : Text) : Space s (skipWs s) := by
  induction s with
  | nil => exact .nil []
  | cons u s ih =>
    by_cases hu : isWs u = true
    · rw [skipWs, List.dropWhile_cons_of_pos hu]
      exact .cons hu ih
    · rw [skipWs, List.dropWhile_cons_of_neg hu]
      exact .nil _

theorem Scanned.of_after {front : Text} {r : Scanned} {w rest : Text} (h : Scanned.after front r = some (w, rest)) :
    ∃ v, r = some (v, rest) ∧ w = front ++ v := by
  obtain ⟨⟨v, rest'⟩, hr, heq⟩ := Option.map_eq_some_iff.1 h
  obtain ⟨rfl, rfl⟩ := Prod.mk.inj heq
  exact ⟨v, hr, rfl⟩

theorem scanChars_sound {s w r : Text} (h : scanChars s = some (w, r)) : s = w ++ r ∧ ∃ cs, Chars cs ∧ w = cs ++ [34] := by
  fun_induction scanChars s generalizing w with
  | case1 a b c d s hhex ih =>
    obtain ⟨v, hv, rfl⟩ := Scanned.of_after h
    obtain ⟨rfl, cs, hcs, rfl⟩ := ih hv
    simp only [Bool.and_eq_true] at hhex
    exact ⟨rfl, _, .unit hhex.1.1.1 hhex.1.1.2 hhex.1.2 hhex.2 hcs, rfl⟩
  | case2 => cases h
  | case3 u s hne hu ih =>
    obtain ⟨v, hv, rfl⟩ := Scanned.of_after h
    obtain ⟨rfl, cs, hcs, rfl⟩ := ih hv
    exact ⟨rfl, _, .escaped hu hcs, rfl⟩
  | case4 => cases h
  | case5 s =>
    cases h
    exact ⟨rfl, [], .nil, rfl⟩
  | case6 => cases h
  | case7 u s h₁ h₂ hq hu ih =>
    obtain ⟨v, hv, rfl⟩ := Scanned.of_after h
    obtain ⟨rfl, cs, hcs, rfl⟩ := ih hv
    rw [not_or] at hu
    exact ⟨rfl, _, .unescaped (UInt16.not_lt.1 hu.2) (fun h => hq h) hu.1 hcs, rfl⟩
  | case8 => cases h

theorem scanString_sound {s w r : Text} (h : scanString s = some (w, r)) : s = w ++ r ∧ IsString w := by
  unfold scanString at h
  split at h
  · obtain ⟨v, hv, rfl⟩ := Scanned.of_after h
    obtain ⟨rfl, cs, hcs, rfl⟩ := scanChars_sound hv
    exact ⟨rfl, cs, hcs, rfl⟩
  · cases h

theorem digits_takeWhile {s : Text} (h : (s.takeWhile isDigit).isEmpty = false) : Digits (s.takeWhile isDigit) := by
  refine ⟨?_, fun u hu => List.mem_takeWhile_imp hu⟩
  intro hnil
  rw [hnil] at h
  cases h

theorem scanInteger_sound {s w r : Text} (h : scanInteger s = some (w, r)) : s = w ++ r ∧ IsInteger w := by
  unfold scanInteger at h
  split at h
  · cases h
    exact ⟨rfl, .inl rfl⟩
  · next u s hne =>
    split at h
    · next hu =>
      cases h
      refine ⟨by simp, .inr ⟨⟨List.cons_ne_nil _ _, ?_⟩, ?_⟩⟩
      · intro v hv
        rcases List.mem_cons.1 hv with rfl | hv
        · exact hu
        · exact List.mem_takeWhile_imp hv
      · intro h48
        exact hne (Option.some.inj h48)
    · cases h
  · cases h

theorem scanDigits_sound {front s rest w r : Text} (hs : s = front ++ rest) (h : scanDigits front s rest = (w, r)) :
    s = w ++ r ∧ (w = [] ∨ ∃ ds, Digits ds ∧ w = front ++ ds) := by
  unfold scanDigits at h
  split at h
  · cases h
    exact ⟨rfl, .inl rfl⟩
  · next hne =>
    cases h
    rw [hs, List.append_assoc, List.takeWhile_append_dropWhile]
    exact ⟨rfl, .inr ⟨_, digits_takeWhile (eq_false_of_ne_true hne), rfl⟩⟩

theorem scanFraction_sound {s w r : Text} (h : scanFraction s = (w, r)) : s = w ++ r ∧ IsFraction w := by
  unfold scanFraction at h
  split at h
  · exact scanDigits_sound rfl h
  · cases h
    exact ⟨rfl, .inl rfl⟩

theorem scanExponent_sound {s w r : Text} (h : scanExponent s = (w, r)) : s = w ++ r ∧ IsExponent w := by
  unfold scanExponent at h
  split at h
  · next u rest =>
    split at h
    · next hu =>
      split at h
      · next v rest' =>
        split at h
        · next hv =>
          obtain ⟨hs, hw⟩ := scanDigits_sound rfl h
          refine ⟨hs, hw.imp_right ?_⟩
          rintro ⟨ds, hds, rfl⟩
          rcases hv with rfl | rfl
          · exact ⟨u, [43], ds, hu, .inr (.inl rfl), hds, rfl⟩
          · exact ⟨u, [45], ds, hu, .inr (.inr rfl), hds, rfl⟩
        · obtain ⟨hs, hw⟩ := scanDigits_sound rfl h
          refine ⟨hs, hw.imp_right ?_⟩
          rintro ⟨ds, hds, rfl⟩
          exact ⟨u, [], ds, hu, .inl rfl, hds, rfl⟩
      · cases h
        exact ⟨rfl, .inl rfl⟩
    · cases h
      exact ⟨rfl, .inl rfl⟩
  · cases h
    exact ⟨rfl, .inl rfl⟩

theorem scanUnsigned_sound {s w r : Text} (h : scanUnsigned s = some (w, r)) :
    s = w ++ r ∧ ∃ i f e, IsInteger i ∧ IsFraction f ∧ IsExponent e ∧ w = i ++ (f ++ e) := by
  obtain ⟨⟨i, ri⟩, hi, heq⟩ := Option.map_eq_some_iff.1 h
  obtain ⟨hs, hint⟩ := scanInteger_sound hi
  rcases hf : scanFraction ri with ⟨f, rf⟩
  rcases he : scanExponent rf with ⟨e, re⟩
  obtain ⟨hrf, hfrac⟩ := scanFraction_sound hf
  obtain ⟨hre, hexp⟩ := scanExponent_sound he
  simp only [hf, he, Prod.mk.injEq] at heq
  obtain ⟨rfl, rfl⟩ := heq
  refine ⟨?_, i, f, e, hint, hfrac, hexp, List.append_assoc _ _ _⟩
  rw [hs, hrf, hre, List.append_assoc, List.append_assoc]

theorem scanNumber_sound {s w r : Text} (h : scanNumber s = some (w, r)) : s = w ++ r ∧ IsNumber w := by
  unfold scanNumber at h
  split at h
  · obtain ⟨v, hv, rfl⟩ := Scanned.of_after h
    obtain ⟨rfl, i, f, e, hi, hf, he, rfl⟩ := scanUnsigned_sound hv
    exact ⟨rfl, [45], i, f, e, .inr rfl, hi, hf, he, rfl⟩
  · obtain ⟨hs, i, f, e, hi, hf, he, hw⟩ := scanUnsigned_sound h
    exact ⟨hs, [], i, f, e, .inl rfl, hi, hf, he, hw⟩

theorem scanLiteral_sound {word s w r : Text} (h : scanLiteral word s = some (w, r)) : s = w ++ r ∧ w = word := by
  unfold scanLiteral at h
  split at h
  · next hp =>
    cases h
    obtain ⟨t, rfl⟩ := List.isPrefixOf_iff_prefix.1 hp
    simp
  · cases h

theorem leaf_eq_some {f : Text → Tree} {r : Scanned} {t : Tree} {rest : Text} (h : leaf f r = some (t, rest)) :
    ∃ w, r = some (w, rest) ∧ t = f w := by
  obtain ⟨⟨w, rest'⟩, hr, heq⟩ := Option.map_eq_some_iff.1 h
  obtain ⟨rfl, rfl⟩ := Prod.mk.inj heq
  exact ⟨w, hr, rfl⟩

/-- **What is read is in the grammar.** -/
theorem sound (n : ℕ) :
    (∀ s t r, readValue n s = some (t, r) → ∃ a, Space s a ∧ Value a t r) ∧
      (∀ s ts r, readItems n s = some (ts, r) → Items s ts r) ∧
      ∀ s ms r, readMembers n s = some (ms, r) → Members s ms r := by
  induction n with
  | zero => exact ⟨nofun, nofun, nofun⟩
  | succ n ih =>
    obtain ⟨ihvalue, ihitems, ihmembers⟩ := ih
    refine ⟨?_, ?_, ?_⟩
    · intro s t r h
      refine ⟨skipWs s, space_skipWs s, ?_⟩
      unfold readValue at h
      split at h
      · cases h
      · next s' hs =>
        rw [hs]
        have hspace := space_skipWs s'
        split at h
        · next s'' hs' =>
          cases h
          exact .emptyObject (hs' ▸ hspace)
        · obtain ⟨⟨ms, r'⟩, hms, heq⟩ := Option.map_eq_some_iff.1 h
          obtain ⟨rfl, rfl⟩ := Prod.mk.inj heq
          exact .object (ihmembers _ _ _ hms)
      · next s' hs =>
        rw [hs]
        have hspace := space_skipWs s'
        split at h
        · next s'' hs' =>
          cases h
          exact .emptyArray (hs' ▸ hspace)
        · obtain ⟨⟨ts, r'⟩, hts, heq⟩ := Option.map_eq_some_iff.1 h
          obtain ⟨rfl, rfl⟩ := Prod.mk.inj heq
          exact .array (ihitems _ _ _ hts)
      · next s' hs =>
        obtain ⟨w, hw, rfl⟩ := leaf_eq_some h
        obtain ⟨hs', hstring⟩ := scanString_sound hw
        rw [hs, hs']
        exact .string hstring
      · next s' hs =>
        obtain ⟨w, hw, rfl⟩ := leaf_eq_some h
        obtain ⟨hs', rfl⟩ := scanLiteral_sound hw
        rw [hs, hs']
        exact .literal (by decide)
      · next s' hs =>
        obtain ⟨w, hw, rfl⟩ := leaf_eq_some h
        obtain ⟨hs', rfl⟩ := scanLiteral_sound hw
        rw [hs, hs']
        exact .literal (by decide)
      · next s' hs =>
        obtain ⟨w, hw, rfl⟩ := leaf_eq_some h
        obtain ⟨hs', rfl⟩ := scanLiteral_sound hw
        rw [hs, hs']
        exact .literal (by decide)
      · next u s' _ _ _ _ _ _ hs =>
        split at h
        · obtain ⟨w, hw, rfl⟩ := leaf_eq_some h
          obtain ⟨hs', hnumber⟩ := scanNumber_sound hw
          rw [hs, hs']
          exact .number hnumber
        · cases h
    · intro s ts r h
      unfold readItems at h
      obtain ⟨⟨t, b⟩, hvalue, h⟩ := Option.bind_eq_some_iff.1 h
      obtain ⟨a, ha, hvalue⟩ := ihvalue _ _ _ hvalue
      have hspace := space_skipWs b
      dsimp only at h
      split at h
      · next c hc =>
        obtain ⟨⟨ts', r'⟩, hts, heq⟩ := Option.map_eq_some_iff.1 h
        obtain ⟨rfl, rfl⟩ := Prod.mk.inj heq
        exact .more ha hvalue (hc ▸ hspace) (ihitems _ _ _ hts)
      · next c hc =>
        cases h
        exact .last ha hvalue (hc ▸ hspace)
      · cases h
    · intro s ms r h
      unfold readMembers at h
      obtain ⟨⟨k, b⟩, hkey, h⟩ := Option.bind_eq_some_iff.1 h
      obtain ⟨hs, hk⟩ := scanString_sound hkey
      have hspace := space_skipWs s
      rw [hs] at hspace
      have hcolon := space_skipWs b
      dsimp only at h
      split at h
      · next c hc =>
        obtain ⟨⟨t, e⟩, hvalue, h⟩ := Option.bind_eq_some_iff.1 h
        obtain ⟨d, hd, hvalue⟩ := ihvalue _ _ _ hvalue
        have hend := space_skipWs e
        dsimp only at h
        split at h
        · next f hf =>
          obtain ⟨⟨ms', r'⟩, hms, heq⟩ := Option.map_eq_some_iff.1 h
          obtain ⟨rfl, rfl⟩ := Prod.mk.inj heq
          exact .more hspace hk (hc ▸ hcolon) hd hvalue (hf ▸ hend) (ihmembers _ _ _ hms)
        · next f hf =>
          cases h
          exact .last hspace hk (hc ▸ hcolon) hd hvalue (hf ▸ hend)
        · cases h
      · cases h

/-! ## What it accepts -/

section numbers
variable {r : Text}

/-- The text does not go on with the number in front of it. -/
def NumberEnds (r : Text) : Prop := ∀ u ∈ r.head?, isDigit u = false ∧ u ≠ 46 ∧ u ≠ 101 ∧ u ≠ 69

theorem isDigit_range {u : UInt16} (h : isDigit u = true) : 48 ≤ u.toNat ∧ u.toNat ≤ 57 := by
  simpa [isDigit, UInt16.le_iff_toNat_le] using h

theorem ne_of_isDigit {u v : UInt16} (h : isDigit u = true) (hv : isDigit v = false) : u ≠ v := by
  rintro rfl
  rw [h] at hv
  cases hv

theorem scanDigits_append {ds : Text} (front s : Text) (hds : Digits ds) (hr : ∀ u ∈ r.head?, isDigit u = false) :
    scanDigits front s (ds ++ r) = (front ++ ds, r) := by
  obtain ⟨htake, hdrop⟩ := takeWhile_stop hds.2 hr
  rw [scanDigits, htake, hdrop, if_neg (by simp [hds.1])]

theorem scanInteger_append {i : Text} (hi : IsInteger i) (hr : ∀ u ∈ r.head?, isDigit u = false) :
    scanInteger (i ++ r) = some (i, r) := by
  rcases hi with rfl | ⟨⟨hne, hdigits⟩, hzero⟩
  · rfl
  · obtain ⟨d, ds, rfl⟩ := List.exists_cons_of_ne_nil hne
    have hd := hdigits d List.mem_cons_self
    obtain ⟨htake, hdrop⟩ := takeWhile_stop (fun u hu => hdigits u (List.mem_cons_of_mem _ hu)) hr
    have h48 : d ≠ 48 := fun h => hzero (congrArg some h)
    rw [List.cons_append, scanInteger, if_pos hd, htake, hdrop]
    exact h48

theorem scanFraction_append {f : Text} (hf : IsFraction f) (hr : ∀ u ∈ r.head?, isDigit u = false ∧ u ≠ 46) :
    scanFraction (f ++ r) = (f, r) := by
  rcases hf with rfl | ⟨ds, hds, rfl⟩
  · unfold scanFraction
    split
    · next rest h => exact absurd rfl (hr 46 (by rw [List.nil_append] at h; rw [h]; rfl)).2
    · rfl
  · exact scanDigits_append _ _ hds fun u hu => (hr u hu).1

theorem scanExponent_append {e : Text} (he : IsExponent e) (hr : NumberEnds r) : scanExponent (e ++ r) = (e, r) := by
  have hdigit : ∀ u ∈ r.head?, isDigit u = false := fun u hu => (hr u hu).1
  rcases he with rfl | ⟨m, sign, ds, hm, hsign, hds, rfl⟩
  · unfold scanExponent
    split
    · next u rest h =>
      have hu := hr u (by rw [List.nil_append] at h; rw [h]; rfl)
      rw [if_neg (not_or.2 ⟨hu.2.2.1, hu.2.2.2⟩)]
      rfl
    · rfl
  · rw [List.cons_append]
    simp only [scanExponent, if_pos hm]
    rcases hsign with rfl | rfl | rfl
    · obtain ⟨d, ds', rfl⟩ := List.exists_cons_of_ne_nil hds.1
      have hd := hds.2 d List.mem_cons_self
      have hsign : ¬(d = 43 ∨ d = 45) := not_or.2 ⟨ne_of_isDigit hd (by decide), ne_of_isDigit hd (by decide)⟩
      have hscan := scanDigits_append [m] (m :: (d :: ds' ++ r)) hds hdigit
      simp only [List.nil_append, List.cons_append, if_neg hsign]
      exact hscan
    · exact scanDigits_append [m, 43] _ hds hdigit
    · exact scanDigits_append [m, 45] _ hds hdigit

theorem head_exponent {e : Text} (he : IsExponent e) (hr : NumberEnds r) :
    ∀ u ∈ (e ++ r).head?, isDigit u = false ∧ u ≠ 46 := by
  intro u hu
  rcases he with rfl | ⟨m, sign, ds, hm, -, -, rfl⟩
  · exact ⟨(hr u hu).1, (hr u hu).2.1⟩
  · obtain rfl := Option.some.inj hu
    rcases hm with rfl | rfl
    · decide
    · decide

theorem head_fraction {f e : Text} (hf : IsFraction f) (he : IsExponent e) (hr : NumberEnds r) :
    ∀ u ∈ (f ++ (e ++ r)).head?, isDigit u = false := by
  intro u hu
  rcases hf with rfl | ⟨ds, -, rfl⟩
  · exact (head_exponent he hr u hu).1
  · obtain rfl := Option.some.inj hu
    decide

theorem scanUnsigned_append {i f e : Text} (hi : IsInteger i) (hf : IsFraction f) (he : IsExponent e) (hr : NumberEnds r) :
    scanUnsigned (i ++ (f ++ (e ++ r))) = some (i ++ (f ++ e), r) := by
  simp only [scanUnsigned, scanInteger_append hi (head_fraction hf he hr), Option.map_some,
    scanFraction_append hf (head_exponent he hr), scanExponent_append he hr, List.append_assoc]

theorem head_integer {i : Text} (hi : IsInteger i) : ∃ d s, i = d :: s ∧ isDigit d = true := by
  rcases hi with rfl | ⟨⟨hne, hdigits⟩, -⟩
  · exact ⟨48, [], rfl, by decide⟩
  · obtain ⟨d, ds, rfl⟩ := List.exists_cons_of_ne_nil hne
    exact ⟨d, ds, rfl, hdigits d List.mem_cons_self⟩

theorem scanNumber_append {w : Text} (hw : IsNumber w) (hr : NumberEnds r) : scanNumber (w ++ r) = some (w, r) := by
  obtain ⟨sign, i, f, e, hsign, hi, hf, he, rfl⟩ := hw
  have hscan := scanUnsigned_append hi hf he hr
  rcases hsign with rfl | rfl
  · obtain ⟨d, s, rfl, hd⟩ := head_integer hi
    simp only [List.nil_append, List.append_assoc, List.cons_append] at hscan ⊢
    rw [scanNumber, hscan]
    intro t ht
    exact ne_of_isDigit hd (by decide) (List.cons.inj ht).1
  · simp only [List.append_assoc, List.cons_append, List.nil_append, scanNumber, hscan]
    rfl

theorem head_number {w : Text} (hw : IsNumber w) : ∃ u s, w = u :: s ∧ (u = 45 ∨ isDigit u = true) := by
  obtain ⟨sign, i, f, e, hsign, hi, -, -, rfl⟩ := hw
  rcases hsign with rfl | rfl
  · obtain ⟨d, s, rfl, hd⟩ := head_integer hi
    exact ⟨d, _, rfl, .inr hd⟩
  · exact ⟨45, _, rfl, .inl rfl⟩

end numbers

theorem scanChars_append {cs : Text} (hcs : Chars cs) (r : Text) : scanChars (cs ++ 34 :: r) = some (cs ++ [34], r) := by
  induction hcs with
  | nil => rfl
  | @unescaped u s h32 hq hb h ih =>
    rw [List.cons_append, scanChars, if_neg (not_or.2 ⟨hb, UInt16.not_lt.2 h32⟩), ih]
    · rfl
    · intro a b c d t h92
      exact absurd h92 hb
    · intro v t h92
      exact absurd h92 hb
    · exact hq
  | @escaped u s hu h ih =>
    rw [List.cons_append, List.cons_append, scanChars, if_pos hu, ih]
    · rfl
    · rintro a b c d t rfl
      exact absurd hu (by decide)
  | @unit a b c d s ha hb hc hd h ih =>
    simp only [List.cons_append, scanChars, ha, hb, hc, hd, ih, Bool.and_self, if_true]
    rfl

theorem scanString_append {w : Text} (hw : IsString w) (r : Text) : scanString (w ++ r) = some (w, r) := by
  obtain ⟨cs, hcs, rfl⟩ := hw
  rw [List.cons_append, List.append_assoc, List.singleton_append, scanString, scanChars_append hcs]
  rfl

/-! ### White space -/

theorem skipWs_of_space {s a : Text} (h : Space s a) (ha : ∀ u ∈ a.head?, isWs u = false) : skipWs s = a := by
  induction h with
  | nil s =>
    cases s with
    | nil => rfl
    | cons u s => exact List.dropWhile_cons_of_neg (by simp [ha u rfl])
  | cons hu h ih =>
    rw [skipWs, List.dropWhile_cons_of_pos hu]
    exact ih ha

theorem length_space {s a : Text} (h : Space s a) : a.length ≤ s.length := by
  induction h with
  | nil s => exact le_rfl
  | cons hu h ih =>
    rw [List.length_cons]
    omega

/-- What may be behind a value. -/
def Follow (r : Text) : Prop := ∀ u ∈ r.head?, isWs u = true ∨ u = 44 ∨ u = 93 ∨ u = 125

theorem follow_of_space {b r : Text} (h : Space b r) (hr : Follow r) : Follow b := by
  cases h with
  | nil s => exact hr
  | cons hu h =>
    intro v hv
    obtain rfl := Option.some.inj hv
    exact .inl hu

theorem numberEnds_of_follow {r : Text} (h : Follow r) : NumberEnds r := by
  intro u hu
  rcases h u hu with hws | rfl | rfl | rfl
  · simp only [isWs, Bool.or_eq_true, beq_iff_eq] at hws
    rcases hws with ((rfl | rfl) | rfl) | rfl <;> decide
  · decide
  · decide
  · decide

/-- What a value begins with. -/
theorem head_value {a r : Text} {t : Tree} (h : Value a t r) : ∃ u s, a = u :: s ∧ isWs u = false ∧ u ≠ 93 := by
  cases h with
  | literal h =>
    simp only [literals, List.mem_cons, List.not_mem_nil, or_false] at h
    rcases h with rfl | rfl | rfl
    · exact ⟨116, _, rfl, by decide⟩
    · exact ⟨102, _, rfl, by decide⟩
    · exact ⟨110, _, rfl, by decide⟩
  | number h =>
    obtain ⟨u, s, rfl, hu⟩ := head_number h
    refine ⟨u, _, rfl, ?_⟩
    rcases hu with rfl | hu
    · decide
    · have hrange := isDigit_range hu
      refine ⟨?_, ne_of_isDigit hu (by decide)⟩
      rw [← Bool.not_eq_true]
      intro hws
      simp only [isWs, Bool.or_eq_true, beq_iff_eq, ← UInt16.toNat_inj] at hws
      simp at hws
      omega
  | string h =>
    obtain ⟨cs, -, rfl⟩ := h
    exact ⟨34, _, rfl, by decide⟩
  | emptyArray h | array h => exact ⟨91, _, rfl, by decide⟩
  | emptyObject h | object h => exact ⟨123, _, rfl, by decide⟩

theorem skipWs_of_value {s a r : Text} {t : Tree} (hs : Space s a) (h : Value a t r) : skipWs s = a := by
  obtain ⟨u, s', rfl, hu, -⟩ := head_value h
  apply skipWs_of_space hs
  intro v hv
  obtain rfl := Option.some.inj hv
  exact hu

theorem skipWs_of_unit {s r : Text} {u : UInt16} (hs : Space s (u :: r)) (hu : isWs u = false) : skipWs s = u :: r := by
  apply skipWs_of_space hs
  intro v hv
  obtain rfl := Option.some.inj hv
  exact hu

/-! ### The length of what is read -/

theorem length_pos_of_number {w : Text} (h : IsNumber w) : 0 < w.length := by
  obtain ⟨u, s, rfl, -⟩ := head_number h
  exact Nat.succ_pos _

theorem length_pos_of_string {w : Text} (h : IsString w) : 0 < w.length := by
  obtain ⟨cs, -, rfl⟩ := h
  exact Nat.succ_pos _

mutual

theorem length_value : ∀ (t : Tree) {a r : Text}, Value a t r → r.length < a.length
  | .literal w, _, r, .literal h => by
    have hpos : ∀ w ∈ literals, 0 < w.length := by decide
    have := hpos w h
    rw [List.length_append]
    omega
  | .number w, _, r, .number h => by
    have := length_pos_of_number h
    rw [List.length_append]
    omega
  | .string w, _, r, .string h => by
    have := length_pos_of_string h
    rw [List.length_append]
    omega
  | .array [], _, _, .emptyArray h => by
    have := length_space h
    simp only [List.length_cons] at *
    omega
  | .array ts, _, _, .array h => by
    have := length_items ts h
    rw [List.length_cons]
    omega
  | .object [], _, _, .emptyObject h => by
    have := length_space h
    simp only [List.length_cons] at *
    omega
  | .object ms, _, _, .object h => by
    have := length_members ms h
    rw [List.length_cons]
    omega

theorem length_items : ∀ (ts : List Tree) {s r : Text}, Items s ts r → r.length < s.length
  | [t], _, _, .last ha ht hb => by
    have := length_space ha
    have := length_value t ht
    have := length_space hb
    simp only [List.length_cons] at *
    omega
  | t :: ts, _, _, .more ha ht hb h => by
    have := length_space ha
    have := length_value t ht
    have := length_space hb
    have := length_items ts h
    simp only [List.length_cons] at *
    omega

theorem length_members : ∀ (ms : List (Text × Tree)) {s r : Text}, Members s ms r → r.length < s.length
  | [(_, t)], _, _, .last hs hk hb hc ht he => by
    have := length_space hs
    have := length_space hb
    have := length_space hc
    have := length_value t ht
    have := length_space he
    simp only [List.length_cons, List.length_append] at *
    omega
  | (_, t) :: ms, _, _, .more hs hk hb hc ht he h => by
    have := length_space hs
    have := length_space hb
    have := length_space hc
    have := length_value t ht
    have := length_space he
    have := length_members ms h
    simp only [List.length_cons, List.length_append] at *
    omega

end

/-! ### The descent -/

theorem readValue_number {n : ℕ} {s a : Text} {u : UInt16} (hs : skipWs s = u :: a) (hu : u = 45 ∨ isDigit u = true) :
    readValue (n + 1) s = leaf .number (scanNumber (u :: a)) := by
  have hne : ∀ v : UInt16, v ≠ 45 → isDigit v = false → u ≠ v := by
    intro v h45 hv
    rcases hu with rfl | hu
    · exact h45.symm
    · exact ne_of_isDigit hu hv
  unfold readValue
  rw [hs]
  split
  · next h => cases h
  · next h => exact absurd (List.cons.inj h).1 (hne 123 (by decide) (by decide))
  · next h => exact absurd (List.cons.inj h).1 (hne 91 (by decide) (by decide))
  · next h => exact absurd (List.cons.inj h).1 (hne 34 (by decide) (by decide))
  · next h => exact absurd (List.cons.inj h).1 (hne 116 (by decide) (by decide))
  · next h => exact absurd (List.cons.inj h).1 (hne 102 (by decide) (by decide))
  · next h => exact absurd (List.cons.inj h).1 (hne 110 (by decide) (by decide))
  · next h =>
    obtain ⟨rfl, rfl⟩ := List.cons.inj h
    exact if_pos hu

theorem readValue_literal {n : ℕ} {s w r : Text} (hs : skipWs s = w ++ r) (hw : w ∈ literals) :
    readValue (n + 1) s = some (.literal w, r) := by
  simp only [literals, List.mem_cons, List.not_mem_nil, or_false] at hw
  unfold readValue
  rw [hs]
  rcases hw with rfl | rfl | rfl
  · rfl
  · rfl
  · rfl

theorem skipWs_of_key {s k b : Text} (hs : Space s (k ++ b)) (hk : IsString k) : skipWs s = k ++ b := by
  obtain ⟨cs, -, rfl⟩ := hk
  exact skipWs_of_unit hs (by decide)

theorem length_key {s k b c d : Text} (hs : Space s (k ++ b)) (hk : IsString k) (hb : Space b (58 :: c)) (hc : Space c d) :
    c.length + 1 < s.length ∧ d.length ≤ c.length := by
  have hs := length_space hs
  have hk := length_pos_of_string hk
  have hb := length_space hb
  have hc := length_space hc
  simp only [List.length_append, List.length_cons] at hs hb
  omega

/-- **What is in the grammar is read.** -/
theorem complete (n : ℕ) :
    (∀ s a t r, Space s a → Value a t r → Follow r → 2 * s.length + 1 ≤ n → readValue n s = some (t, r)) ∧
      (∀ s ts r, Items s ts r → 2 * s.length + 2 ≤ n → readItems n s = some (ts, r)) ∧
      ∀ s ms r, Members s ms r → 2 * s.length + 2 ≤ n → readMembers n s = some (ms, r) := by
  induction n with
  | zero => exact ⟨fun _ _ _ _ _ _ _ h => absurd h (by omega), fun _ _ _ _ h => absurd h (by omega),
      fun _ _ _ _ h => absurd h (by omega)⟩
  | succ n ih =>
    obtain ⟨ihvalue, ihitems, ihmembers⟩ := ih
    have hcomma : ∀ r : Text, Follow (44 :: r) := fun r u hu => .inr (.inl (Option.some.inj hu).symm)
    have hbracket : ∀ r : Text, Follow (93 :: r) := fun r u hu => .inr (.inr (.inl (Option.some.inj hu).symm))
    have hbrace : ∀ r : Text, Follow (125 :: r) := fun r u hu => .inr (.inr (.inr (Option.some.inj hu).symm))
    refine ⟨?_, ?_, ?_⟩
    · intro s a t r hs h hr hn
      have hskip := skipWs_of_value hs h
      have hlen := length_space hs
      cases h with
      | literal h => exact readValue_literal hskip h
      | @number w r h =>
        obtain ⟨u, s', rfl, hu⟩ := head_number h
        have hscan := scanNumber_append h (numberEnds_of_follow hr)
        rw [readValue_number hskip hu]
        exact congrArg (leaf .number) hscan
      | @string w r h =>
        have hscan := scanString_append h r
        obtain ⟨cs, hcs, rfl⟩ := h
        unfold readValue
        rw [hskip]
        simp only [List.cons_append] at hscan ⊢
        rw [hscan]
        rfl
      | emptyArray h | emptyObject h =>
        unfold readValue
        rw [hskip]
        simp only [skipWs_of_unit h (by decide)]
      | @array s' r ts h =>
        have hread := ihitems _ _ _ h (by rw [List.length_cons] at hlen; omega)
        have hfirst : ∀ r', skipWs s' ≠ 93 :: r' := by
          intro r'
          cases h with
          | last ha ht hb | more ha ht hb h =>
            obtain ⟨u, b, rfl, -, hu⟩ := head_value ht
            rw [skipWs_of_value ha ht]
            exact fun heq => hu (List.cons.inj heq).1
        -- the text goes on with what `hfirst` says
        simp only [readValue, hskip, hread, Option.map_some]
      | @object s' r ms h =>
        have hread := ihmembers _ _ _ h (by rw [List.length_cons] at hlen; omega)
        have hfirst : ∀ r', skipWs s' ≠ 125 :: r' := by
          intro r'
          cases h with
          | last hs hk hb hc ht he | more hs hk hb hc ht he h =>
            rw [skipWs_of_key hs hk]
            obtain ⟨cs, -, rfl⟩ := hk
            exact fun heq => absurd (List.cons.inj heq).1 (by decide)
        -- the text goes on with what `hfirst` says
        simp only [readValue, hskip, hread, Option.map_some]
    · intro s ts r h hn
      cases h with
      | @last _ a b _ t ha ht hb =>
        have hread := ihvalue _ _ _ _ ha ht (follow_of_space hb (hbracket r)) (by omega)
        simp only [readItems, hread, Option.bind_eq_bind, Option.bind_some, skipWs_of_unit hb (by decide)]
      | @more _ a b c _ t ts ha ht hb h =>
        have hread := ihvalue _ _ _ _ ha ht (follow_of_space hb (hcomma c)) (by omega)
        have ha := length_space ha
        have ht := length_value _ ht
        have hb' := length_space hb
        rw [List.length_cons] at hb'
        have hrest := ihitems _ _ _ h (by omega)
        simp only [readItems, hread, Option.bind_eq_bind, Option.bind_some, skipWs_of_unit hb (by decide), hrest, Option.map_some]
    · intro s ms r h hn
      cases h with
      | @last _ k b c d e _ t hs hk hb hc ht he =>
        have hlen := length_key hs hk hb hc
        have hread := ihvalue _ _ _ _ hc ht (follow_of_space he (hbrace r)) (by omega)
        simp only [readMembers, skipWs_of_key hs hk, scanString_append hk, Option.bind_eq_bind, Option.bind_some,
          skipWs_of_unit hb (by decide), hread, skipWs_of_unit he (by decide)]
      | @more _ k b c d e f _ t ms hs hk hb hc ht he h =>
        have hlen := length_key hs hk hb hc
        have hread := ihvalue _ _ _ _ hc ht (follow_of_space he (hcomma f)) (by omega)
        have hd := length_space hc
        have ht := length_value _ ht
        have he' := length_space he
        rw [List.length_cons] at he'
        have hrest := ihmembers _ _ _ h (by omega)
        simp only [readMembers, skipWs_of_key hs hk, scanString_append hk, Option.bind_eq_bind, Option.bind_some,
          skipWs_of_unit hb (by decide), hread, skipWs_of_unit he (by decide), hrest, Option.map_some]

/-- **The descent accepts just the grammar.** -/
theorem readTree_iff {s : Text} {t : Tree} : readTree s = some t ↔ Document s t := by
  unfold readTree
  constructor
  · intro h
    split at h
    · next t' rest hread =>
      split at h
      · next hrest =>
        obtain rfl := Option.some.inj h
        obtain ⟨a, ha, hvalue⟩ := (sound _).1 _ _ _ hread
        have hspace := space_skipWs rest
        rw [List.isEmpty_iff.1 hrest] at hspace
        exact ⟨a, rest, ha, hvalue, hspace⟩
      · cases h
    · cases h
  · rintro ⟨a, b, ha, hvalue, hb⟩
    have hfollow : Follow b := follow_of_space hb (by intro u hu; cases hu)
    have hrest : skipWs b = [] := skipWs_of_space hb (by intro u hu; cases hu)
    rw [(complete _).1 _ _ _ _ ha hvalue hfollow (by omega)]
    simp [hrest]

/-- **The grammar is unambiguous.** -/
theorem document_unique {s : Text} {t t' : Tree} (h : Document s t) (h' : Document s t') : t = t' :=
  Option.some.inj ((readTree_iff.2 h).symm.trans (readTree_iff.2 h'))

/-! ## Tokens and white space -/

/-- Tokens, with white space in front of each, in front of the rest of a text. -/
inductive Spaced : List Text → Text → Text → Prop where
  | nil (s : Text) : Spaced [] s s
  | cons {w s b r : Text} {ws : List Text} (hs : Space s (w ++ b)) (h : Spaced ws b r) : Spaced (w :: ws) s r

theorem Space.trans {a b c : Text} (hab : Space a b) (hbc : Space b c) : Space a c := by
  induction hab with
  | nil s => exact hbc
  | cons hu h ih => exact .cons hu (ih hbc)

theorem Spaced.append {xs ys : List Text} {a b c : Text} (hx : Spaced xs a b) (hy : Spaced ys b c) : Spaced (xs ++ ys) a c := by
  induction hx with
  | nil s => exact hy
  | cons hs h ih => exact .cons hs (ih hy)

theorem Spaced.behind {ws : List Text} {s a r : Text} (hs : Space s a) (h : Spaced ws a r) (hne : ws ≠ []) : Spaced ws s r := by
  cases h with
  | nil s => exact absurd rfl hne
  | cons ha h => exact .cons (hs.trans ha) h

theorem Spaced.token (w r : Text) : Spaced [w] (w ++ r) r := .cons (.nil _) (.nil r)

theorem Spaced.unit {s r : Text} {u : UInt16} (h : Space s (u :: r)) : Spaced [[u]] s r := .cons (b := r) h (.nil r)

theorem Spaced.length {ws : List Text} {s r : Text} (h : Spaced ws s r) : ws.flatten.length + r.length ≤ s.length := by
  induction h with
  | nil s => simp
  | cons hs h ih =>
    have hs := length_space hs
    simp only [List.flatten_cons, List.length_append] at hs ⊢
    omega

theorem tokens_ne_nil (t : Tree) : tokens t ≠ [] := by
  cases t <;> simp [tokens]

theorem itemTokens_cons (t : Tree) {ts : List Tree} (h : ts ≠ []) : itemTokens (t :: ts) = tokens t ++ [44] :: itemTokens ts := by
  obtain ⟨t', ts, rfl⟩ := List.exists_cons_of_ne_nil h
  rw [itemTokens]
  simp

theorem memberTokens_cons (m : Text × Tree) {ms : List (Text × Tree)} (h : ms ≠ []) :
    memberTokens (m :: ms) = memberToken m ++ [44] :: memberTokens ms := by
  obtain ⟨m', ms, rfl⟩ := List.exists_cons_of_ne_nil h
  rw [memberTokens]
  simp

theorem Items.ne_nil {s r : Text} {ts : List Tree} (h : Items s ts r) : ts ≠ [] := by
  cases h <;> exact List.cons_ne_nil _ _

theorem Members.ne_nil {s r : Text} {ms : List (Text × Tree)} (h : Members s ms r) : ms ≠ [] := by
  cases h <;> exact List.cons_ne_nil _ _

mutual

/-- A value is its tokens, and white space. -/
theorem spaced_value : ∀ (t : Tree) {a r : Text}, Value a t r → Spaced (tokens t) a r
  | .literal w, _, r, .literal _ => .token w r
  | .number w, _, r, .number _ => .token w r
  | .string w, _, r, .string _ => .token w r
  | .array [], _, _, .emptyArray h => .cons (b := _) (.nil _) (.unit h)
  | .array ts, _, _, .array h => .cons (b := _) (.nil _) (spaced_items ts h)
  | .object [], _, _, .emptyObject h => .cons (b := _) (.nil _) (.unit h)
  | .object ms, _, _, .object h => .cons (b := _) (.nil _) (spaced_members ms h)

theorem spaced_items : ∀ (ts : List Tree) {s r : Text}, Items s ts r → Spaced (itemTokens ts) s r
  | [t], _, _, .last ha ht hb => ((spaced_value t ht).behind ha (tokens_ne_nil t)).append (.unit hb)
  | t :: ts, _, _, .more ha ht hb h => by
    rw [itemTokens_cons t h.ne_nil]
    exact ((spaced_value t ht).behind ha (tokens_ne_nil t)).append ((Spaced.unit hb).append (spaced_items ts h))

theorem spaced_members : ∀ (ms : List (Text × Tree)) {s r : Text}, Members s ms r → Spaced (memberTokens ms) s r
  | [(k, t)], _, _, .last hs _ hb hc ht he =>
    .cons hs ((Spaced.unit hb).append (((spaced_value t ht).behind hc (tokens_ne_nil t)).append (.unit he)))
  | (k, t) :: ms, _, _, .more hs _ hb hc ht he h => by
    rw [memberTokens_cons _ h.ne_nil]
    have hvalue := (spaced_value t ht).behind hc (tokens_ne_nil t)
    exact .cons hs ((Spaced.unit hb).append (hvalue.append ((Spaced.unit he).append (spaced_members ms h))))

end

/-! ## Spelled without white space -/

theorem spellItems_one (t : Tree) (r : Text) : spellItems [t] ++ r = spell t ++ 93 :: r := by
  simp [spellItems, itemTokens, spell]

theorem spellItems_cons (t : Tree) {ts : List Tree} (h : ts ≠ []) (r : Text) :
    spellItems (t :: ts) ++ r = spell t ++ 44 :: (spellItems ts ++ r) := by
  simp [spellItems, itemTokens_cons t h, spell]

theorem spellMembers_one (k : Text) (t : Tree) (r : Text) :
    spellMembers [(k, t)] ++ r = k ++ 58 :: (spell t ++ 125 :: r) := by
  simp [spellMembers, memberTokens, memberToken, spell]

theorem spellMembers_cons (k : Text) (t : Tree) {ms : List (Text × Tree)} (h : ms ≠ []) (r : Text) :
    spellMembers ((k, t) :: ms) ++ r = k ++ 58 :: (spell t ++ 44 :: (spellMembers ms ++ r)) := by
  simp [spellMembers, memberTokens_cons _ h, memberToken, spell]

mutual

theorem value_spell : ∀ (t : Tree) {a r : Text}, Value a t r → ∀ r', Value (spell t ++ r') t r'
  | .literal w, _, _, .literal h, r' => by
    have : spell (.literal w) = w := List.flatten_singleton
    rw [this]
    exact .literal h
  | .number w, _, _, .number h, r' => by
    have : spell (.number w) = w := List.flatten_singleton
    rw [this]
    exact .number h
  | .string w, _, _, .string h, r' => by
    have : spell (.string w) = w := List.flatten_singleton
    rw [this]
    exact .string h
  | .array [], _, _, .emptyArray _, r' => .emptyArray (.nil _)
  | .array ts, _, _, .array h, r' => .array (items_spell ts h r')
  | .object [], _, _, .emptyObject _, r' => .emptyObject (.nil _)
  | .object ms, _, _, .object h, r' => .object (members_spell ms h r')

theorem items_spell : ∀ (ts : List Tree) {s r : Text}, Items s ts r → ∀ r', Items (spellItems ts ++ r') ts r'
  | [t], _, _, .last _ ht _, r' => by
    rw [spellItems_one]
    exact .last (.nil _) (value_spell t ht _) (.nil _)
  | t :: ts, _, _, .more _ ht _ h, r' => by
    rw [spellItems_cons t h.ne_nil]
    exact .more (.nil _) (value_spell t ht _) (.nil _) (items_spell ts h r')

theorem members_spell : ∀ (ms : List (Text × Tree)) {s r : Text}, Members s ms r → ∀ r', Members (spellMembers ms ++ r') ms r'
  | [(k, t)], _, _, .last _ hk _ _ ht _, r' => by
    rw [spellMembers_one]
    exact .last (.nil _) hk (.nil _) (.nil _) (value_spell t ht _) (.nil _)
  | (k, t) :: ms, _, _, .more _ hk _ _ ht _ h, r' => by
    rw [spellMembers_cons k t h.ne_nil]
    exact .more (.nil _) hk (.nil _) (.nil _) (value_spell t ht _) (.nil _) (members_spell ms h r')

end

variable {s : Text} {t : Tree}

/-- **Without its white space a document is the same document.** -/
theorem document_spell (h : Document s t) : Document (spell t) t := by
  obtain ⟨a, b, -, hvalue, -⟩ := h
  have hspell := value_spell t hvalue []
  rw [List.append_nil] at hspell
  exact ⟨_, [], .nil _, hspell, .nil _⟩

/-- The text of a document is its tokens, and white space. -/
theorem spaced_document (h : Document s t) : ∃ b, Spaced (tokens t) s b ∧ Space b [] := by
  obtain ⟨a, b, ha, hvalue, hb⟩ := h
  exact ⟨b, (spaced_value t hvalue).behind ha (tokens_ne_nil t), hb⟩

theorem length_spell (h : Document s t) : (spell t).length ≤ s.length := by
  obtain ⟨b, hspaced, -⟩ := spaced_document h
  have := hspaced.length
  unfold spell
  omega

end LlmGateway.Lib.JsonText
