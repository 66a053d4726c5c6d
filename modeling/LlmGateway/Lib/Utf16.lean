import Mathlib.Tactic.Common
import Mathlib.Data.List.Basic

/-!
# UTF-16 texts, and the JSON texts made of them

* `Text` — a text, as its code units; they need not be well formed;
* `quote` — `JSON.stringify` of a text; `jsonArray` — of an array;
* `SelfDelimiting enc` — what `enc` wrote can be read back in front of any text: `quote` is, and arrays of such items are
  (`selfDelimiting_quote`, `selfDelimiting_jsonArray`);
* `WellFormed` — no surrogate without its partner; `quote` writes well-formed texts only (`wellFormed_quote`).
-/

namespace LlmGateway.Lib.Utf16

abbrev Text := List UInt16

instance lawfulBEqText : LawfulBEq Text := inferInstance

-- a statement about the units of a text is decided unit by unit, not for all code units there are
instance (priority := 1100) decidableForallMem {α : Type*} (p : α → Prop) [DecidablePred p] (l : List α) :
    Decidable (∀ a ∈ l, p a) :=
  List.decidableBAll p l

/-- The code units of an ASCII text. -/
def text (s : String) : Text := s.toList.map fun c => c.toNat.toUInt16

def isLead (u : UInt16) : Bool := 0xD800 ≤ u && u < 0xDC00

def isTrail (u : UInt16) : Bool := 0xDC00 ≤ u && u < 0xE000

def isSurrogate (u : UInt16) : Bool := isLead u || isTrail u

/-! ## Texts in JSON -/

def hexDigit (n : UInt16) : UInt16 := if n < 10 then 48 + n else 87 + n

/-- `\uXXXX` -/
def escape (u : UInt16) : Text :=
  [92, 117, hexDigit (u / 4096), hexDigit (u / 256 % 16), hexDigit (u / 16 % 16), hexDigit (u % 16)]

/-- A code unit that is not a lone surrogate. -/
def quoteUnit (u : UInt16) : Text :=
  if u = 34 then [92, 34]
  else if u = 92 then [92, 92]
  else if u = 8 then [92, 98]
  else if u = 9 then [92, 116]
  else if u = 10 then [92, 110]
  else if u = 12 then [92, 102]
  else if u = 13 then [92, 114]
  else if u < 32 then escape u
  else [u]

/-- A code unit; a lone surrogate is escaped. -/
def quoteToken (lone : Bool) (u : UInt16) : Text := if lone then escape u else quoteUnit u

/-- The text inside the quotes; `paired` says that the first code unit is the partner of the one before. -/
def quoteFrom (paired : Bool) : Text → Text
  | [] => []
  | u :: s =>
    let opens := !paired && isLead u && s.head?.any isTrail
    quoteToken (isSurrogate u && !paired && !opens) u ++ quoteFrom opens s

/-- `JSON.stringify(s)` -/
def quote (s : Text) : Text := 34 :: (quoteFrom false s ++ [34])

/-- The items after the first. -/
def arrayTail {α : Type*} (enc : α → Text) : List α → Text
  | [] => [93]
  | x :: xs => 44 :: (enc x ++ arrayTail enc xs)

/-- `JSON.stringify` of an array, its items written by `enc`. -/
def jsonArray {α : Type*} (enc : α → Text) : List α → Text
  | [] => [91, 93]
  | x :: xs => 91 :: (enc x ++ arrayTail enc xs)

/-! ## Reading back -/

/-- What `enc` wrote can be read back in front of any text. -/
def SelfDelimiting {α β : Type*} (enc : α → List β) : Prop :=
  ∀ a b r r', enc a ++ r = enc b ++ r' → a = b ∧ r = r'

theorem SelfDelimiting.injective {α β : Type*} {enc : α → List β} (h : SelfDelimiting enc) :
    Function.Injective enc := by
  intro a b he
  exact (h a b [] [] (by rw [he])).1

def hexVal (d : UInt16) : UInt16 := if d < 58 then d - 48 else d - 87

def unescape (d : UInt16) : UInt16 :=
  if d = 98 then 8 else if d = 116 then 9 else if d = 110 then 10 else if d = 102 then 12 else if d = 114 then 13 else d

/-- The first code unit of a text inside quotes, and what follows its token. -/
def readToken : Text → Option (UInt16 × Text)
  | [] => none
  | c :: r =>
    if c = 92 then
      match r with
      | [] => none
      | d :: r =>
        if d = 117 then
          match r with
          | h₃ :: h₂ :: h₁ :: h₀ :: r => some (hexVal h₃ * 4096 + hexVal h₂ * 256 + hexVal h₁ * 16 + hexVal h₀, r)
          | _ => none
        else some (unescape d, r)
    else some (c, r)

theorem hexVal_hexDigit {n : UInt16} (h : n < 16) : hexVal (hexDigit n) = n := by
  unfold hexVal hexDigit
  rw [UInt16.lt_iff_toNat_lt] at h
  apply UInt16.toNat_inj.1
  simp only [UInt16.lt_iff_toNat_lt, apply_ite UInt16.toNat, UInt16.toNat_add, UInt16.toNat_sub]
  simp at *
  split <;> split <;> omega

/-- The four hexadecimal digits of a code unit. -/
theorem hexDigits_spec (u : UInt16) : (u / 4096 < 16 ∧ u / 256 % 16 < 16 ∧ u / 16 % 16 < 16 ∧ u % 16 < 16) ∧
    u / 4096 * 4096 + u / 256 % 16 * 256 + u / 16 % 16 * 16 + u % 16 = u := by
  have hu := u.toNat_lt
  constructor
  · simp only [UInt16.lt_iff_toNat_lt]
    simp
    omega
  · apply UInt16.toNat_inj.1
    simp
    omega

theorem readToken_escape (u : UInt16) (r : Text) : readToken (escape u ++ r) = some (u, r) := by
  obtain ⟨hdigits, hsum⟩ := hexDigits_spec u
  simp [readToken, escape, hexVal_hexDigit, hdigits, hsum]

theorem readToken_quoteToken (lone : Bool) (u : UInt16) (r : Text) : readToken (quoteToken lone u ++ r) = some (u, r) := by
  unfold quoteToken
  split
  · exact readToken_escape u r
  · unfold quoteUnit
    split_ifs with h1 h2 h3 h4 h5 h6 h7 h8
    · simp [readToken, unescape, h1]
    · simp [readToken, unescape, h2]
    · simp [readToken, unescape, h3]
    · simp [readToken, unescape, h4]
    · simp [readToken, unescape, h5]
    · simp [readToken, unescape, h6]
    · simp [readToken, unescape, h7]
    · exact readToken_escape u r
    · simp [readToken, h2]

theorem quoteToken_append_inj {lone lone' : Bool} {u u' : UInt16} {r r' : Text}
    (h : quoteToken lone u ++ r = quoteToken lone' u' ++ r') : u = u' ∧ r = r' := by
  have hread := readToken_quoteToken lone u r
  rw [h, readToken_quoteToken, Option.some.injEq, Prod.mk.injEq] at hread
  exact ⟨hread.1.symm, hread.2.symm⟩

/-- No token begins with a quote. -/
theorem head_quoteToken (lone : Bool) (u : UInt16) : ∃ c t, quoteToken lone u = c :: t ∧ c ≠ 34 := by
  unfold quoteToken
  split
  · exact ⟨_, _, rfl, by decide⟩
  · unfold quoteUnit
    split_ifs with h1
    iterate 8 exact ⟨_, _, rfl, by decide⟩
    exact ⟨u, [], rfl, h1⟩

theorem quoteFrom_append_inj (s : Text) : ∀ (paired paired' : Bool) (s' r r' : Text),
    quoteFrom paired s ++ 34 :: r = quoteFrom paired' s' ++ 34 :: r' → s = s' ∧ r = r' := by
  induction s with
  | nil =>
    intro paired paired' s' r r' h
    cases s' with
    | nil => simpa [quoteFrom] using h
    | cons u' s' =>
      obtain ⟨c, t, hc, hne⟩ := head_quoteToken (isSurrogate u' && !paired' &&
        !(!paired' && isLead u' && s'.head?.any isTrail)) u'
      simp only [quoteFrom, hc, List.nil_append, List.cons_append, List.cons.injEq] at h
      exact absurd h.1.symm hne
  | cons u s ih =>
    intro paired paired' s' r r' h
    cases s' with
    | nil =>
      obtain ⟨c, t, hc, hne⟩ := head_quoteToken (isSurrogate u && !paired &&
        !(!paired && isLead u && s.head?.any isTrail)) u
      simp only [quoteFrom, hc, List.nil_append, List.cons_append, List.cons.injEq] at h
      exact absurd h.1 hne
    | cons u' s' =>
      simp only [quoteFrom, List.append_assoc] at h
      obtain ⟨rfl, hrest⟩ := quoteToken_append_inj h
      obtain ⟨rfl, rfl⟩ := ih _ _ _ _ _ hrest
      exact ⟨rfl, rfl⟩

/-- **A quoted text can be read back.** -/
theorem selfDelimiting_quote : SelfDelimiting quote := by
  intro s s' r r' h
  simp only [quote, List.cons_append, List.append_assoc, List.cons.injEq, true_and, List.nil_append] at h
  exact quoteFrom_append_inj s false false s' r r' h

section arrays
variable {α : Type*} {enc : α → Text}

theorem selfDelimiting_arrayTail (henc : SelfDelimiting enc) : SelfDelimiting (arrayTail enc) := by
  intro xs
  induction xs with
  | nil =>
    intro ys r r' h
    cases ys with
    | nil => simpa [arrayTail] using h
    | cons y ys => simp [arrayTail] at h
  | cons x xs ih =>
    intro ys r r' h
    cases ys with
    | nil => simp [arrayTail] at h
    | cons y ys =>
      simp only [arrayTail, List.cons_append, List.append_assoc, List.cons.injEq, true_and] at h
      obtain ⟨rfl, hrest⟩ := henc _ _ _ _ h
      obtain ⟨rfl, rfl⟩ := ih _ _ _ hrest
      exact ⟨rfl, rfl⟩

/-- **An array of self-delimiting items can be read back**, when no item begins like the end of an array. -/
theorem selfDelimiting_jsonArray (henc : SelfDelimiting enc) (hhead : ∀ x, ∃ c t, enc x = c :: t ∧ c ≠ 93) :
    SelfDelimiting (jsonArray enc) := by
  intro xs ys r r' h
  cases xs with
  | nil =>
    cases ys with
    | nil => simpa [jsonArray] using h
    | cons y ys =>
      obtain ⟨c, t, hc, hne⟩ := hhead y
      simp only [jsonArray, hc, List.cons_append, List.cons.injEq, true_and] at h
      exact absurd h.1.symm hne
  | cons x xs =>
    cases ys with
    | nil =>
      obtain ⟨c, t, hc, hne⟩ := hhead x
      simp only [jsonArray, hc, List.cons_append, List.cons.injEq, true_and] at h
      exact absurd h.1 hne
    | cons y ys =>
      simp only [jsonArray, List.cons_append, List.append_assoc, List.cons.injEq, true_and] at h
      obtain ⟨rfl, hrest⟩ := henc _ _ _ _ h
      obtain ⟨rfl, rfl⟩ := selfDelimiting_arrayTail henc _ _ _ _ hrest
      exact ⟨rfl, rfl⟩

theorem head_quote (s : Text) : ∃ c t, quote s = c :: t ∧ c ≠ 93 := ⟨34, _, rfl, by decide⟩

theorem jsonArray_eq_cons (enc : α → Text) (xs : List α) : ∃ t, jsonArray enc xs = 91 :: t := by
  cases xs with
  | nil | cons x xs => exact ⟨_, rfl⟩

theorem head_jsonArray (xs : List α) : ∃ c t, jsonArray enc xs = c :: t ∧ c ≠ 93 := by
  obtain ⟨t, ht⟩ := jsonArray_eq_cons enc xs
  exact ⟨91, t, ht, by decide⟩

end arrays

/-! ## Well-formed texts -/

/-- No surrogate without its partner; `lead` says that a lead came before. -/
def wellFormedFrom (lead : Bool) : Text → Bool
  | [] => !lead
  | u :: s =>
    if lead then isTrail u && wellFormedFrom false s
    else if isLead u then wellFormedFrom true s
    else !isTrail u && wellFormedFrom false s

def WellFormed (s : Text) : Prop := wellFormedFrom false s = true

instance (s : Text) : Decidable (WellFormed s) := inferInstanceAs (Decidable (_ = true))

theorem wellFormedFrom_append {lead : Bool} {s r : Text} (hs : wellFormedFrom lead s = true)
    (hr : wellFormedFrom false r = true) : wellFormedFrom lead (s ++ r) = true := by
  induction s generalizing lead with
  | nil =>
    cases lead with
    | false => exact hr
    | true => cases hs
  | cons u s ih =>
    rw [List.cons_append]
    unfold wellFormedFrom at hs ⊢
    split
    · rename_i hl
      rw [if_pos hl, Bool.and_eq_true] at hs
      rw [hs.1, ih hs.2, Bool.and_true]
    · rename_i hl
      rw [if_neg hl] at hs
      split
      · rename_i hu
        rw [if_pos hu] at hs
        exact ih hs
      · rename_i hu
        rw [if_neg hu, Bool.and_eq_true] at hs
        rw [hs.1, ih hs.2, Bool.and_true]

theorem WellFormed.append {s r : Text} (hs : WellFormed s) (hr : WellFormed r) : WellFormed (s ++ r) :=
  wellFormedFrom_append hs hr

/-- A text without surrogates. -/
theorem wellFormed_of_not_surrogate {s : Text} (h : ∀ u ∈ s, isSurrogate u = false) : WellFormed s := by
  induction s with
  | nil => rfl
  | cons u s ih =>
    have hu := h u List.mem_cons_self
    rw [isSurrogate, Bool.or_eq_false_iff] at hu
    rw [WellFormed, wellFormedFrom, if_neg Bool.false_ne_true, if_neg (by simp [hu.1]), hu.2]
    exact ih fun v hv => h v (List.mem_cons_of_mem u hv)

theorem isSurrogate_iff {u : UInt16} : isSurrogate u = true ↔ 0xD800 ≤ u.toNat ∧ u.toNat < 0xE000 := by
  simp only [isSurrogate, isLead, isTrail, Bool.or_eq_true, Bool.and_eq_true, decide_eq_true_eq,
    UInt16.le_iff_toNat_le, UInt16.lt_iff_toNat_lt]
  simp
  omega

theorem isSurrogate_of_lt {u : UInt16} (h : u.toNat < 0xD800) : isSurrogate u = false := by
  rw [← Bool.not_eq_true, isSurrogate_iff]
  omega

theorem hexDigit_lt {n : UInt16} (h : n < 16) : (hexDigit n).toNat < 0xD800 := by
  rw [UInt16.lt_iff_toNat_lt] at h
  unfold hexDigit
  simp only [apply_ite UInt16.toNat, UInt16.toNat_add]
  simp at *
  split <;> omega

theorem wellFormed_escape (u : UInt16) : WellFormed (escape u) := by
  obtain ⟨hdigits, -⟩ := hexDigits_spec u
  refine wellFormed_of_not_surrogate fun v hv => isSurrogate_of_lt ?_
  simp only [escape, List.mem_cons, List.not_mem_nil, or_false] at hv
  rcases hv with rfl | rfl | rfl | rfl | rfl | rfl
  · decide
  · decide
  · exact hexDigit_lt hdigits.1
  · exact hexDigit_lt hdigits.2.1
  · exact hexDigit_lt hdigits.2.2.1
  · exact hexDigit_lt hdigits.2.2.2

theorem quoteUnit_of_surrogate {u : UInt16} (h : isSurrogate u = true) : quoteUnit u = [u] := by
  rw [isSurrogate_iff] at h
  have hne : ∀ v : UInt16, v.toNat < 0xD800 → u ≠ v := by
    rintro v hv rfl
    omega
  have hlt : ¬u < 32 := by
    rw [UInt16.lt_iff_toNat_lt]
    simp
    omega
  simp [quoteUnit, hlt, hne]

theorem wellFormed_quoteUnit {u : UInt16} (h : isSurrogate u = false) : WellFormed (quoteUnit u) := by
  unfold quoteUnit
  split_ifs
  · decide
  · decide
  · decide
  · decide
  · decide
  · decide
  · decide
  · exact wellFormed_escape u
  · refine wellFormed_of_not_surrogate fun v hv => ?_
    rwa [List.mem_singleton.1 hv]

theorem wellFormedFrom_quoteFrom {paired : Bool} {s : Text} (h : paired = true → s.head?.any isTrail = true) :
    wellFormedFrom paired (quoteFrom paired s) = true := by
  induction s generalizing paired with
  | nil =>
    cases paired with
    | false => rfl
    | true => cases h rfl
  | cons u s ih =>
    cases paired with
    | true =>
      have ht : isTrail u = true := by simpa using h rfl
      have htoken : quoteUnit u = [u] := quoteUnit_of_surrogate (by simp [isSurrogate, ht])
      have hrest := @ih false fun hc => absurd hc Bool.false_ne_true
      simpa [quoteFrom, quoteToken, htoken, wellFormedFrom, ht] using hrest
    | false =>
      by_cases hopens : (isLead u && s.head?.any isTrail) = true
      · have hboth := hopens
        rw [Bool.and_eq_true] at hboth
        have htoken : quoteUnit u = [u] := quoteUnit_of_surrogate (by simp [isSurrogate, hboth.1])
        have hrest := @ih true fun _ => hboth.2
        simpa [quoteFrom, quoteToken, htoken, wellFormedFrom, hboth.1, hboth.2] using hrest
      · rw [Bool.not_eq_true] at hopens
        have hrest := @ih false fun hc => absurd hc Bool.false_ne_true
        simp only [quoteFrom, Bool.not_false, Bool.true_and, Bool.and_true, hopens]
        refine WellFormed.append ?_ hrest
        unfold quoteToken
        split
        · exact wellFormed_escape u
        · rename_i hlone
          exact wellFormed_quoteUnit (by simpa using hlone)

theorem wellFormed_quote (s : Text) : WellFormed (quote s) := by
  have hinner : WellFormed (quoteFrom false s ++ [34]) := by
    refine WellFormed.append ?_ (by decide)
    exact wellFormedFrom_quoteFrom fun h => absurd h Bool.false_ne_true
  exact (by decide : WellFormed [34]).append hinner

theorem wellFormed_arrayTail {α : Type*} {enc : α → Text} (henc : ∀ x, WellFormed (enc x)) (xs : List α) :
    WellFormed (arrayTail enc xs) := by
  induction xs with
  | nil => exact (by decide : WellFormed [93])
  | cons x xs ih => exact (by decide : WellFormed [44]).append ((henc x).append ih)

theorem wellFormed_jsonArray {α : Type*} {enc : α → Text} (henc : ∀ x, WellFormed (enc x)) (xs : List α) :
    WellFormed (jsonArray enc xs) := by
  cases xs with
  | nil => exact (by decide : WellFormed [91, 93])
  | cons x xs => exact (by decide : WellFormed [91]).append ((henc x).append (wellFormed_arrayTail henc xs))

end LlmGateway.Lib.Utf16
