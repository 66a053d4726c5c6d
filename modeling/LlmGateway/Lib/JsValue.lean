import LlmGateway.Lib.CodePoint
import LlmGateway.Lib.JsNumber

/-!
# The values of JSON texts

* `JsValue` — what `JSON.parse` gives; an object is the list of its members, each name once (the order of names that are whole
  numbers is left as it is in the text);
* `parse` — `JSON.parse`: the value of the document of a text; `none` is its SyntaxError;
* `Plain` — its numbers are whole numbers up to `safe`, and no name stands twice;
* `parse_stringify` — a plain value is read back.
-/

namespace LlmGateway.Lib

open Utf16 JsonText JsNumber

inductive JsValue where
  | null
  | boolean (b : Bool)
  | number (n : Number)
  | string (s : Text)
  | array (items : List JsValue)
  | object (members : List (Text × JsValue))

namespace JsValue

abbrev Members := List (Text × JsValue)

/-! ## Reading -/

def hexUnit (u : UInt16) : UInt16 := if u < 58 then u - 48 else if u < 71 then u - 55 else u - 87

/-- The text between the quotes, behind the first of them. -/
def decodeChars : Text → Text
  | 92 :: 117 :: a :: b :: c :: d :: s => (hexUnit a * 4096 + hexUnit b * 256 + hexUnit c * 16 + hexUnit d) :: decodeChars s
  | 92 :: u :: s => unescape u :: decodeChars s
  | 34 :: _ => []
  | u :: s => u :: decodeChars s
  | [] => []

/-- The text of a string token. -/
def stringValue (w : Text) : Text := decodeChars w.tail

/-- `object[name] = value` -/
def put (ms : Members) (m : Text × JsValue) : Members :=
  if ms.any (fun n => n.1 == m.1) then ms.map fun n => if n.1 = m.1 then m else n else ms ++ [m]

def literalValue (w : Text) : JsValue :=
  if w = text "true" then .boolean true else if w = text "false" then .boolean false else .null

mutual

def ofTree : Tree → JsValue
  | .literal w => literalValue w
  | .number w => .number (readNumber w)
  | .string w => .string (stringValue w)
  | .array ts => .array (ofTrees ts)
  | .object ms => .object (ofMembers [] ms)

def ofTrees : List Tree → List JsValue
  | [] => []
  | t :: ts => ofTree t :: ofTrees ts

/-- The members one after the other; of a name that comes again the last value counts. -/
def ofMembers (front : Members) : List (Text × Tree) → Members
  | [] => front
  | (k, t) :: ms => ofMembers (put front (stringValue k, ofTree t)) ms

end

/-- `JSON.parse(s)` -/
def parse (s : Text) : Option JsValue := (readTree s).map ofTree

/-- `members[name]`; `none` is `undefined`. -/
def get (name : String) (ms : Members) : Option JsValue := (ms.find? fun m => m.1 == text name).map Prod.snd

/-! ## Writing -/

/-- How numbers are written that are not whole, or too large to be safe. -/
structure NumberText where
  other : ℚ → Text

def numberTree (P : NumberText) : Number → Tree
  | .finite q => .number (if q.den = 1 ∧ 0 ≤ q.num ∧ q.num ≤ safe then numeral q.num.toNat else P.other q)
  | _ => .literal (text "null")

mutual

def tree (P : NumberText) : JsValue → Tree
  | .null => .literal (text "null")
  | .boolean true => .literal (text "true")
  | .boolean false => .literal (text "false")
  | .number n => numberTree P n
  | .string s => .string (quote s)
  | .array vs => .array (trees P vs)
  | .object ms => .object (memberTrees P ms)

def trees (P : NumberText) : List JsValue → List Tree
  | [] => []
  | v :: vs => tree P v :: trees P vs

def memberTrees (P : NumberText) : Members → List (Text × Tree)
  | [] => []
  | (k, v) :: ms => (quote k, tree P v) :: memberTrees P ms

end

/-- `JSON.stringify(v)` -/
def stringify (P : NumberText) (v : JsValue) : Text := spell (tree P v)

/-! ## Tokens read back -/

theorem hexUnit_hexDigit {n : UInt16} (h : n < 16) : hexUnit (hexDigit n) = n := by
  have hval := hexVal_hexDigit h
  unfold hexVal at hval
  unfold hexUnit
  split
  · next hd => rwa [if_pos hd] at hval
  · next hd =>
    rw [if_neg hd] at hval
    have hbounds := hexDigit_bounds n h
    simp only [UInt16.le_iff_toNat_le, UInt16.lt_iff_toNat_lt, UInt16.reduceToNat] at hbounds hd ⊢
    rwa [if_neg (by omega)]

theorem decodeChars_escape (u : UInt16) (r : Text) : decodeChars (escape u ++ r) = u :: decodeChars r := by
  obtain ⟨hdigits, hsum⟩ := hexDigits_spec u
  simp [escape, decodeChars, hexUnit_hexDigit, hdigits, hsum]

theorem decodeChars_quoteToken (lone : Bool) (u : UInt16) (r : Text) :
    decodeChars (quoteToken lone u ++ r) = u :: decodeChars r := by
  unfold quoteToken
  split
  · exact decodeChars_escape u r
  · unfold quoteUnit
    split_ifs with h1 h2 h3 h4 h5 h6 h7 h8
    · simp [decodeChars, unescape, h1]
    · simp [decodeChars, unescape, h2]
    · simp [decodeChars, unescape, h3]
    · simp [decodeChars, unescape, h4]
    · simp [decodeChars, unescape, h5]
    · simp [decodeChars, unescape, h6]
    · simp [decodeChars, unescape, h7]
    · exact decodeChars_escape u r
    · rw [List.singleton_append, decodeChars]
      · exact fun a b c d s hu => absurd hu h2
      · exact fun v s hu => absurd hu h2
      · exact fun hu => absurd hu h1

theorem decodeChars_quoteFrom (paired : Bool) (s r : Text) : decodeChars (quoteFrom paired s ++ 34 :: r) = s := by
  induction s generalizing paired with
  | nil => simp [quoteFrom, decodeChars]
  | cons u s ih => rw [quoteFrom, List.append_assoc, decodeChars_quoteToken, ih]

@[simp] theorem stringValue_quote (s : Text) : stringValue (quote s) = s := decodeChars_quoteFrom false s []

theorem isHex_hexDigit {n : UInt16} (h : n < 16) : isHex (hexDigit n) = true := by
  rcases hexDigit_bounds n h with h | h
  · simp [isHex, h]
  · simp [isHex, h]

theorem chars_escape {u : UInt16} {s : Text} (h : Chars s) : Chars (escape u ++ s) := by
  obtain ⟨⟨ha, hb, hc, hd⟩, -⟩ := hexDigits_spec u
  exact .unit (isHex_hexDigit ha) (isHex_hexDigit hb) (isHex_hexDigit hc) (isHex_hexDigit hd) h

theorem chars_quoteToken (lone : Bool) {u : UInt16} {s : Text} (h : Chars s) : Chars (quoteToken lone u ++ s) := by
  unfold quoteToken
  split
  · exact chars_escape h
  · unfold quoteUnit
    split_ifs with h1 h2 h3 h4 h5 h6 h7 h8
    iterate 7 exact .escaped (by decide) h
    · exact chars_escape h
    · exact .unescaped (UInt16.not_lt.1 h8) h1 h2 h

theorem chars_quoteFrom (paired : Bool) (s : Text) : Chars (quoteFrom paired s) := by
  induction s generalizing paired with
  | nil => exact .nil
  | cons u s ih => exact chars_quoteToken _ (ih _)

theorem isString_quote (s : Text) : IsString (quote s) := ⟨_, chars_quoteFrom false s, rfl⟩

/-! ## Plain values -/

mutual

/-- Its numbers are whole and safe, and the names of an object are different. -/
def Plain : JsValue → Prop
  | .number n => ∃ k : ℕ, k ≤ safe ∧ n = .finite k
  | .array vs => PlainItems vs
  | .object ms => (ms.map Prod.fst).Nodup ∧ PlainMembers ms
  | _ => True

def PlainItems : List JsValue → Prop
  | [] => True
  | v :: vs => Plain v ∧ PlainItems vs

def PlainMembers : Members → Prop
  | [] => True
  | (_, v) :: ms => Plain v ∧ PlainMembers ms

end

theorem plainItems_iff {vs : List JsValue} : PlainItems vs ↔ ∀ v ∈ vs, Plain v := by
  induction vs with
  | nil => simp [PlainItems]
  | cons v vs ih => simp [PlainItems, ih]

variable {P : NumberText}

theorem numberTree_natCast {k : ℕ} (h : k ≤ safe) : numberTree P (.finite k) = .number (numeral k) := by
  simp [numberTree, h]

theorem put_of_new {ms : Members} {m : Text × JsValue} (h : m.1 ∉ ms.map Prod.fst) : put ms m = ms ++ [m] := by
  unfold put
  rw [if_neg]
  simp only [List.any_eq_true, beq_iff_eq, not_exists, not_and]
  intro n hn hname
  exact h (hname ▸ List.mem_map_of_mem hn)

theorem trees_ne_nil (v : JsValue) (vs : List JsValue) : trees P (v :: vs) ≠ [] := by
  rw [trees]
  exact List.cons_ne_nil _ _

theorem memberTrees_ne_nil (m : Text × JsValue) (ms : Members) : memberTrees P (m :: ms) ≠ [] := by
  rw [memberTrees]
  exact List.cons_ne_nil _ _

mutual

/-- All its numbers have a property. -/
def Numbers (p : Number → Prop) : JsValue → Prop
  | .number n => p n
  | .array vs => NumbersItems p vs
  | .object ms => NumbersMembers p ms
  | _ => True

def NumbersItems (p : Number → Prop) : List JsValue → Prop
  | [] => True
  | v :: vs => Numbers p v ∧ NumbersItems p vs

def NumbersMembers (p : Number → Prop) : Members → Prop
  | [] => True
  | (_, v) :: ms => Numbers p v ∧ NumbersMembers p ms

end

section
variable {p q : Number → Prop}

theorem numbersItems_iff {vs : List JsValue} : NumbersItems p vs ↔ ∀ v ∈ vs, Numbers p v := by
  induction vs with
  | nil => simp [NumbersItems]
  | cons v vs ih => simp [NumbersItems, ih]

theorem numbersMembers_iff {ms : Members} : NumbersMembers p ms ↔ ∀ m ∈ ms, Numbers p m.2 := by
  induction ms with
  | nil => simp [NumbersMembers]
  | cons m ms ih => simp [NumbersMembers, ih]

mutual

theorem Numbers.imp (h : ∀ n, p n → q n) : ∀ v, Numbers p v → Numbers q v
  | .null, _ => trivial
  | .boolean _, _ => trivial
  | .string _, _ => trivial
  | .number n, hv => h n hv
  | .array vs, hv => NumbersItems.imp h vs hv
  | .object ms, hv => NumbersMembers.imp h ms hv

theorem NumbersItems.imp (h : ∀ n, p n → q n) : ∀ vs, NumbersItems p vs → NumbersItems q vs
  | [], _ => trivial
  | v :: vs, hvs => ⟨Numbers.imp h v hvs.1, NumbersItems.imp h vs hvs.2⟩

theorem NumbersMembers.imp (h : ∀ n, p n → q n) : ∀ ms, NumbersMembers p ms → NumbersMembers q ms
  | [], _ => trivial
  | (_, v) :: ms, hms => ⟨Numbers.imp h v hms.1, NumbersMembers.imp h ms hms.2⟩

end

mutual

theorem numbers_of_plain : ∀ v, Plain v → Numbers (fun n => ∃ k : ℕ, k ≤ safe ∧ n = .finite k) v
  | .null, _ => trivial
  | .boolean _, _ => trivial
  | .string _, _ => trivial
  | .number _, h => h
  | .array vs, h => numbers_of_plainItems vs h
  | .object ms, h => numbers_of_plainMembers ms h.2

theorem numbers_of_plainItems : ∀ vs, PlainItems vs → NumbersItems (fun n => ∃ k : ℕ, k ≤ safe ∧ n = .finite k) vs
  | [], _ => trivial
  | v :: vs, h => ⟨numbers_of_plain v h.1, numbers_of_plainItems vs h.2⟩

theorem numbers_of_plainMembers : ∀ ms, PlainMembers ms →
    NumbersMembers (fun n => ∃ k : ℕ, k ≤ safe ∧ n = .finite k) ms
  | [], _ => trivial
  | (_, v) :: ms, h => ⟨numbers_of_plain v h.1, numbers_of_plainMembers ms h.2⟩

end

end

/-- A document is written for the number. -/
def Legible (P : NumberText) (n : Number) : Prop := ∀ r, Value (spell (numberTree P n) ++ r) (numberTree P n) r

theorem legible_number {n : Number} {w : Text} (h : numberTree P n = .number w) (hw : IsNumber w) : Legible P n := by
  intro r
  rw [h, spell, tokens, List.flatten_singleton]
  exact .number hw

theorem legible_of_plain {n : Number} (h : ∃ k : ℕ, k ≤ safe ∧ n = .finite k) : Legible P n := by
  obtain ⟨k, hk, rfl⟩ := h
  exact legible_number (numberTree_natCast hk) (isNumber_numeral k)

mutual

/-- A document is written for a value whose numbers are legible. -/
theorem value_tree : ∀ v, Numbers (Legible P) v → ∀ r, Value (stringify P v ++ r) (tree P v) r
  | .null, _, r => .literal (w := text "null") (r := r) (by decide)
  | .boolean true, _, r => .literal (w := text "true") (r := r) (by decide)
  | .boolean false, _, r => .literal (w := text "false") (r := r) (by decide)
  | .number n, h, r => by
    unfold stringify
    rw [tree]
    exact h r
  | .string s, _, r => by
    have hspell : stringify P (.string s) = quote s := List.flatten_singleton
    rw [hspell]
    exact .string (isString_quote s)
  | .array [], _, r => .emptyArray (.nil _)
  | .array (v :: vs), h, r => .array (items_trees (v :: vs) (List.cons_ne_nil _ _) h r)
  | .object [], _, r => .emptyObject (.nil _)
  | .object (m :: ms), h, r => .object (members_memberTrees (m :: ms) (List.cons_ne_nil _ _) h r)

theorem items_trees : ∀ vs, vs ≠ [] → NumbersItems (Legible P) vs → ∀ r, Items (spellItems (trees P vs) ++ r) (trees P vs) r
  | [v], _, h, r => by
    rw [trees, trees, spellItems_one]
    exact .last (.nil _) (value_tree v h.1 _) (.nil _)
  | v :: v' :: vs, _, h, r => by
    rw [trees, spellItems_cons _ (trees_ne_nil v' vs)]
    exact .more (.nil _) (value_tree v h.1 _) (.nil _) (items_trees (v' :: vs) (List.cons_ne_nil _ _) h.2 r)

theorem members_memberTrees : ∀ ms, ms ≠ [] → NumbersMembers (Legible P) ms →
    ∀ r, JsonText.Members (spellMembers (memberTrees P ms) ++ r) (memberTrees P ms) r
  | [(k, v)], _, h, r => by
    rw [memberTrees, memberTrees, spellMembers_one]
    exact .last (.nil _) (isString_quote k) (.nil _) (.nil _) (value_tree v h.1 _) (.nil _)
  | (k, v) :: m :: ms, _, h, r => by
    rw [memberTrees, spellMembers_cons _ _ (memberTrees_ne_nil m ms)]
    exact .more (.nil _) (isString_quote k) (.nil _) (.nil _) (value_tree v h.1 _) (.nil _)
      (members_memberTrees (m :: ms) (List.cons_ne_nil _ _) h.2 r)

end

mutual

theorem ofTree_tree : ∀ v, Plain v → ofTree (tree P v) = v
  | .null, _ => rfl
  | .boolean true, _ => rfl
  | .boolean false, _ => rfl
  | .number n, h => by
    obtain ⟨k, hk, rfl⟩ := h
    rw [tree, numberTree_natCast hk, ofTree, readNumber_numeral hk]
  | .string s, _ => by rw [tree, ofTree, stringValue_quote]
  | .array vs, h => by rw [tree, ofTree, ofTrees_trees vs h]
  | .object ms, h => by
    rw [tree, ofTree, ofMembers_memberTrees [] ms h.2 h.1]
    rfl

theorem ofTrees_trees : ∀ vs, PlainItems vs → ofTrees (trees P vs) = vs
  | [], _ => rfl
  | v :: vs, h => by rw [trees, ofTrees, ofTree_tree v h.1, ofTrees_trees vs h.2]

theorem ofMembers_memberTrees : ∀ front ms, PlainMembers ms → ((front ++ ms).map Prod.fst).Nodup →
    ofMembers front (memberTrees P ms) = front ++ ms
  | front, [], _, _ => by rw [memberTrees, ofMembers, List.append_nil]
  | front, (k, v) :: ms, h, hnodup => by
    have hnew : k ∉ front.map Prod.fst := by
      rw [List.map_append, List.nodup_append] at hnodup
      intro hk
      exact hnodup.2.2 k hk k List.mem_cons_self rfl
    rw [memberTrees, ofMembers, stringValue_quote, ofTree_tree v h.1, put_of_new hnew, ofMembers_memberTrees _ ms h.2,
      List.append_assoc, List.singleton_append]
    rwa [List.append_assoc, List.singleton_append]

end

/-- What has been written for a value is read as the document of the value. -/
theorem readTree_stringify {v : JsValue} (h : Numbers (Legible P) v) : readTree (stringify P v) = some (tree P v) := by
  have hvalue := value_tree v h []
  rw [List.append_nil] at hvalue
  exact readTree_iff.2 ⟨_, [], .nil _, hvalue, .nil _⟩

/-- **A plain value is read back.** -/
theorem parse_stringify {v : JsValue} (h : Plain v) : parse (stringify P v) = some v := by
  have hlegible := (numbers_of_plain v h).imp (q := Legible P) (fun _ => legible_of_plain) v
  rw [parse, readTree_stringify hlegible, Option.map_some, ofTree_tree v h]

/-! ## Values that are written alike -/

/-- Finite numbers are written as numbers of JSON, and no two of them alike. -/
structure NumberText.Lawful (P : NumberText) : Prop where
  isNumber : ∀ q, IsNumber (P.other q)
  ascii : ∀ q, ∀ u ∈ P.other q, isSurrogate u = false
  distinct : ∀ q q', numberTree P (.finite q) = numberTree P (.finite q') → q = q'

def Finite (n : Number) : Prop := ∃ q, n = .finite q

theorem legible_of_finite (hP : P.Lawful) {n : Number} (h : Finite n) : Legible P n := by
  obtain ⟨q, rfl⟩ := h
  refine legible_number rfl ?_
  split_ifs
  · exact isNumber_numeral _
  · exact hP.isNumber q

theorem quote_injective : Function.Injective quote := selfDelimiting_quote.injective

mutual

theorem tree_injective (hP : P.Lawful) : ∀ v w, Numbers Finite v → Numbers Finite w → tree P v = tree P w → v = w
  | .null, w, _, hw, h => by
    cases w with
    | null => rfl
    | boolean b => cases b <;> simp [tree] at h <;> exact absurd h (by decide)
    | number n =>
      obtain ⟨q, rfl⟩ := hw
      simp [tree, numberTree] at h
    | _ => simp [tree] at h
  | .boolean b, w, _, hw, h => by
    cases w with
    | null => cases b <;> simp [tree] at h <;> exact absurd h (by decide)
    | boolean b' => cases b <;> cases b' <;> simp [tree] at h ⊢ <;> exact absurd h (by decide)
    | number n =>
      obtain ⟨q, rfl⟩ := hw
      cases b <;> simp [tree, numberTree] at h
    | _ => cases b <;> simp [tree] at h
  | .number n, w, hv, hw, h => by
    obtain ⟨q, rfl⟩ := hv
    cases w with
    | boolean b => cases b <;> simp [tree, numberTree] at h
    | number n' =>
      obtain ⟨q', rfl⟩ := hw
      simp only [tree] at h
      rw [hP.distinct q q' h]
    | _ => simp [tree, numberTree] at h
  | .string s, w, _, hw, h => by
    cases w with
    | boolean b => cases b <;> simp [tree] at h
    | number n =>
      obtain ⟨q, rfl⟩ := hw
      simp [tree, numberTree] at h
    | string s' =>
      simp only [tree, JsonText.Tree.string.injEq] at h
      rw [quote_injective h]
    | _ => simp [tree] at h
  | .array vs, w, hv, hw, h => by
    cases w with
    | boolean b => cases b <;> simp [tree] at h
    | number n =>
      obtain ⟨q, rfl⟩ := hw
      simp [tree, numberTree] at h
    | array ws =>
      simp only [tree, JsonText.Tree.array.injEq] at h
      rw [trees_injective hP vs ws hv hw h]
    | _ => simp [tree] at h
  | .object ms, w, hv, hw, h => by
    cases w with
    | boolean b => cases b <;> simp [tree] at h
    | number n =>
      obtain ⟨q, rfl⟩ := hw
      simp [tree, numberTree] at h
    | object ns =>
      simp only [tree, JsonText.Tree.object.injEq] at h
      rw [memberTrees_injective hP ms ns hv hw h]
    | _ => simp [tree] at h

theorem trees_injective (hP : P.Lawful) : ∀ vs ws, NumbersItems Finite vs → NumbersItems Finite ws →
    trees P vs = trees P ws → vs = ws
  | [], [], _, _, _ => rfl
  | [], w :: ws, _, _, h => by simp [trees] at h
  | v :: vs, [], _, _, h => by simp [trees] at h
  | v :: vs, w :: ws, hvs, hws, h => by
    rw [trees, trees, List.cons.injEq] at h
    rw [tree_injective hP v w hvs.1 hws.1 h.1, trees_injective hP vs ws hvs.2 hws.2 h.2]

theorem memberTrees_injective (hP : P.Lawful) : ∀ ms ns, NumbersMembers Finite ms → NumbersMembers Finite ns →
    memberTrees P ms = memberTrees P ns → ms = ns
  | [], [], _, _, _ => rfl
  | [], n :: ns, _, _, h => by simp [memberTrees] at h
  | m :: ms, [], _, _, h => by simp [memberTrees] at h
  | (k, v) :: ms, (k', v') :: ns, hms, hns, h => by
    rw [memberTrees, memberTrees, List.cons.injEq, Prod.mk.injEq] at h
    rw [quote_injective h.1.1, tree_injective hP v v' hms.1 hns.1 h.1.2, memberTrees_injective hP ms ns hms.2 hns.2 h.2]

end

/-- **Values of finite numbers are not written alike.** -/
theorem stringify_injective (hP : P.Lawful) {v w : JsValue} (hv : Numbers Finite v) (hw : Numbers Finite w)
    (h : stringify P v = stringify P w) : v = w := by
  have hread := readTree_stringify (hv.imp (q := Legible P) (fun _ => legible_of_finite hP) v)
  rw [h, readTree_stringify (hw.imp (q := Legible P) (fun _ => legible_of_finite hP) w)] at hread
  exact tree_injective hP v w hv hw (Option.some.inj hread).symm

/-- The numerator and the denominator of a number, as a numeral with an exponent. -/
def fractionText : NumberText where
  other q := (if q.num < 0 then [45] else []) ++ (numeral q.num.natAbs ++ 101 :: numeral q.den)

theorem numeral_injective : Function.Injective numeral := by
  intro m n h
  rw [← digitsValue_numeral m, h, digitsValue_numeral]

theorem fractionText_eq {m n d e : ℕ} (h : numeral m ++ 101 :: numeral d = numeral n ++ 101 :: numeral e) : m = n ∧ d = e := by
  have hstop (k j : ℕ) := takeWhile_stop (p := isDigit) (t := 101 :: numeral j) (fun u hu => isDigit_of_mem_numeral hu)
    (by simp [isDigit]) (l := numeral k)
  have hfront : numeral m = numeral n := by
    rw [← (hstop m d).1, h, (hstop n e).1]
  rw [hfront] at h
  have hback := (List.cons.inj (List.append_cancel_left h)).2
  exact ⟨numeral_injective hfront, numeral_injective hback⟩

theorem minus_notMem (m d : ℕ) : 45 ∉ numeral m ++ 101 :: numeral d := by
  simp only [List.mem_append, List.mem_cons]
  rintro (hu | hu | hu)
  · exact absurd (isDigit_of_mem_numeral hu) (by decide)
  · exact absurd hu (by decide)
  · exact absurd (isDigit_of_mem_numeral hu) (by decide)

/-- There are texts for all finite numbers. -/
theorem lawful_fractionText : fractionText.Lawful where
  isNumber q := by
    have hdigits {n : ℕ} : Digits (numeral n) := ⟨numeral_ne_nil n, fun u hu => isDigit_of_mem_numeral hu⟩
    refine ⟨if q.num < 0 then [45] else [], numeral q.num.natAbs, [], 101 :: numeral q.den, ?_, ?_, .inl rfl, ?_,
      by simp [fractionText]⟩
    · split_ifs
      · exact .inr rfl
      · exact .inl rfl
    · by_cases h : q.num.natAbs = 0
      · rw [h]
        exact .inl (by decide)
      · exact .inr ⟨hdigits, head_numeral h⟩
    · exact .inr ⟨101, [], numeral q.den, .inl rfl, .inl rfl, hdigits, rfl⟩
  ascii q u hu := by
    have hdigit {n : ℕ} (h : u ∈ numeral n) : isSurrogate u = false := by
      have hrange := isDigit_range (isDigit_of_mem_numeral h)
      simp only [isSurrogate, isLead, isTrail, Bool.or_eq_false_iff, Bool.and_eq_false_iff, decide_eq_false_iff_not,
        UInt16.le_iff_toNat_le, UInt16.lt_iff_toNat_lt, UInt16.reduceToNat]
      omega
    simp only [fractionText, List.mem_append, List.mem_cons] at hu
    rcases hu with hu | hu | rfl | hu
    · split_ifs at hu
      · simp only [List.mem_singleton] at hu
        subst hu
        decide
      · cases hu
    · exact hdigit hu
    · decide
    · exact hdigit hu
  distinct q q' h := by
    have hdigits (n : ℕ) (s : Text) (hs : 45 ∈ s ∨ 101 ∈ s) : numeral n ≠ s := by
      rintro rfl
      rcases hs with hs | hs <;> exact absurd (isDigit_of_mem_numeral hs) (by decide)
    have hmark (q : ℚ) : 101 ∈ fractionText.other q := by simp [fractionText]
    simp only [numberTree, Tree.number.injEq] at h
    split_ifs at h with hq hq' hq'
    · have hnum : q.num = q'.num := by
        have := numeral_injective h
        omega
      exact Rat.ext hnum (hq.1.trans hq'.1.symm)
    · exact absurd h (hdigits _ _ (.inr (hmark q')))
    · exact absurd h.symm (hdigits _ _ (.inr (hmark q)))
    · simp only [fractionText] at h
      split_ifs at h with hneg hneg' hneg'
      · obtain ⟨hnum, hden⟩ := fractionText_eq (List.append_cancel_left h)
        exact Rat.ext (by omega) hden
      · exact absurd (h ▸ List.mem_append_left _ List.mem_cons_self : (45 : UInt16) ∈ [] ++ _) (minus_notMem _ _)
      · exact absurd (h.symm ▸ List.mem_append_left _ List.mem_cons_self : (45 : UInt16) ∈ [] ++ _) (minus_notMem _ _)
      · obtain ⟨hnum, hden⟩ := fractionText_eq (List.append_cancel_left h)
        exact Rat.ext (by omega) hden

/-! ## Surrogates -/

theorem wellFormed_flatten {ws : List Text} (h : ∀ w ∈ ws, WellFormed w) : WellFormed ws.flatten := by
  induction ws with
  | nil => rfl
  | cons w ws ih =>
    rw [List.flatten_cons]
    exact (h w List.mem_cons_self).append (ih fun v hv => h v (List.mem_cons_of_mem w hv))

theorem wellFormed_numberTree (hP : P.Lawful) (n : Number) : ∀ w ∈ tokens (numberTree P n), WellFormed w := by
  intro w hw
  match n with
  | .nan | .infinite _ =>
    obtain rfl := List.mem_singleton.1 hw
    decide
  | .finite q =>
    rw [numberTree, tokens, List.mem_singleton] at hw
    rw [hw]
    split_ifs
    · refine wellFormed_of_not_surrogate fun u hu => ?_
      have hdigit : u.toNat ≤ 57 := UInt16.le_iff_toNat_le.1 (digit_of_mem_numeral hu).2
      rw [isSurrogate, Bool.or_eq_false_iff]
      constructor <;> apply eq_false_of_ne_true
      · rw [isLead_iff]
        omega
      · rw [isTrail_iff]
        omega
    · exact wellFormed_of_not_surrogate (hP.ascii q)

mutual

theorem wellFormed_tokens (hP : P.Lawful) : ∀ v, ∀ w ∈ tokens (tree P v), WellFormed w
  | .null, w, hw => by
    obtain rfl := List.mem_singleton.1 hw
    decide
  | .boolean true, w, hw => by
    obtain rfl := List.mem_singleton.1 hw
    decide
  | .boolean false, w, hw => by
    obtain rfl := List.mem_singleton.1 hw
    decide
  | .number n, w, hw => wellFormed_numberTree hP n w hw
  | .string s, w, hw => by
    obtain rfl := List.mem_singleton.1 hw
    exact wellFormed_quote s
  | .array vs, w, hw => by
    rcases List.mem_cons.1 hw with rfl | hw
    · decide
    · exact wellFormed_itemTokens hP vs w hw
  | .object ms, w, hw => by
    rcases List.mem_cons.1 hw with rfl | hw
    · decide
    · exact wellFormed_memberTokens hP ms w hw

theorem wellFormed_itemTokens (hP : P.Lawful) : ∀ vs, ∀ w ∈ itemTokens (trees P vs), WellFormed w
  | [], w, hw => by
    obtain rfl := List.mem_singleton.1 hw
    decide
  | [v], w, hw => by
    rcases List.mem_append.1 hw with hw | hw
    · exact wellFormed_tokens hP v w hw
    · obtain rfl := List.mem_singleton.1 hw
      decide
  | v :: v' :: vs, w, hw => by
    rw [trees, trees, itemTokens, List.mem_append, List.mem_cons] at hw
    rcases hw with hw | rfl | hw
    · exact wellFormed_tokens hP v w hw
    · decide
    · exact wellFormed_itemTokens hP (v' :: vs) w (by rwa [trees])
    · exact List.cons_ne_nil _ _

theorem wellFormed_memberTokens (hP : P.Lawful) : ∀ ms, ∀ w ∈ memberTokens (memberTrees P ms), WellFormed w
  | [], w, hw => by
    obtain rfl := List.mem_singleton.1 hw
    decide
  | [(k, v)], w, hw => by
    rw [memberTrees, memberTrees, memberTokens, memberToken, List.mem_append, List.mem_cons, List.mem_cons] at hw
    rcases hw with (rfl | rfl | hw) | hw
    · exact wellFormed_quote k
    · decide
    · exact wellFormed_tokens hP v w hw
    · obtain rfl := List.mem_singleton.1 hw
      decide
  | (k, v) :: m :: ms, w, hw => by
    rw [memberTrees, memberTokens, memberToken, List.mem_append, List.mem_cons, List.mem_cons, List.mem_cons] at hw
    rcases hw with (rfl | rfl | hw) | rfl | hw
    · exact wellFormed_quote k
    · decide
    · exact wellFormed_tokens hP v w hw
    · decide
    · exact wellFormed_memberTokens hP (m :: ms) w hw
    · exact memberTrees_ne_nil m ms

end

/-- **What is written for a value has no lone surrogates.** -/
theorem wellFormed_stringify (hP : P.Lawful) (v : JsValue) : WellFormed (stringify P v) :=
  wellFormed_flatten (wellFormed_tokens hP v)

end JsValue

end LlmGateway.Lib
