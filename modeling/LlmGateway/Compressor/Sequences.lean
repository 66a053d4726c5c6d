import LlmGateway.Compressor.Ansi
import Mathlib.Data.List.Infix

/-!
# Control sequences, read once

* `lex` — one reading of a text from left to right: each control sequence is one token, from its introducer to its end;
* `Separate` — no pass works inside the sequence of another one, and what it leaves reads as before;
* `stripEscapes_eq_visible_iff` — the passes show what the reading shows.
-/

namespace LlmGateway.Compressor

open LlmGateway.Lib.Utf16

/-! ### Removing the matches -/

section Removing

variable {m : Text → Option Text} {w r : Text}

theorem removeAll_skip (m : Text → Option Text) (n : ℕ) (s : Text) : removeAll m n s = removeAll m 0 (s.drop n) := by
  induction s generalizing n with
  | nil => cases n <;> rfl
  | cons u s ih =>
    cases n with
    | zero => rfl
    | succ n => exact ih n

theorem removeAll_match (hw : w ≠ []) (h : m (w ++ r) = some r) : removeAll m 0 (w ++ r) = removeAll m 0 r := by
  obtain ⟨u, w, rfl⟩ := List.exists_cons_of_ne_nil hw
  rw [List.cons_append] at h ⊢
  rw [removeAll, h]
  simp only
  rw [removeAll_skip, List.length_append, Nat.add_sub_cancel, List.drop_left]

theorem removeAll_cons {u : UInt16} {s : Text} (h : m (u :: s) = none) : removeAll m 0 (u :: s) = u :: removeAll m 0 s := by
  rw [removeAll, h]

/-- A part in which nothing matches. -/
theorem removeAll_kept (h : ∀ t, t ≠ [] → t <:+ w → m (t ++ r) = none) : removeAll m 0 (w ++ r) = w ++ removeAll m 0 r := by
  induction w with
  | nil => rfl
  | cons u w ih =>
    have hu : m (u :: (w ++ r)) = none := h (u :: w) (by simp) List.suffix_rfl
    rw [List.cons_append, removeAll_cons hu, ih fun t ht hsuffix => h t ht (hsuffix.trans (List.suffix_cons u w))]
    rfl

/-- A part whose matches are those that it has by itself. -/
theorem removeAll_append (h : ∀ t, t ≠ [] → t <:+ w → m (t ++ r) = (m t).map (· ++ r)) :
    removeAll m 0 (w ++ r) = removeAll m 0 w ++ removeAll m 0 r := by
  induction hn : w.length using Nat.strong_induction_on generalizing w with
  | _ n ih =>
    cases w with
    | nil => rfl
    | cons u w =>
      have hu := h (u :: w) (by simp) List.suffix_rfl
      have hrest : ∀ k, removeAll m 0 (w.drop k ++ r) = removeAll m 0 (w.drop k) ++ removeAll m 0 r := by
        intro k
        refine ih (w.drop k).length (by simp at hn ⊢; omega) (fun t ht hsuffix => h t ht ?_) rfl
        exact hsuffix.trans ((List.drop_suffix k w).trans (List.suffix_cons u w))
      rw [List.cons_append] at hu ⊢
      cases hmatch : m (u :: w) with
      | none =>
        rw [hmatch] at hu
        rw [removeAll_cons hu, removeAll_cons hmatch]
        exact congrArg (u :: ·) (hrest 0)
      | some q =>
        rw [hmatch] at hu
        rw [removeAll, removeAll, hu, hmatch]
        simp only [Option.map_some]
        rw [removeAll_skip, removeAll_skip m _ w, List.length_append, List.length_append, Nat.add_sub_add_right,
          List.drop_append_of_le_length (Nat.sub_le _ _)]
        exact hrest _

end Removing

/-! ### The reading -/

/-- `incomplete` is the introducer of a CSI sequence without an end, `other` a code unit that begins nothing. -/
inductive Kind where
  | osc
  | string
  | csi
  | incomplete
  | twoByte
  | other
deriving DecidableEq

structure Token where
  kind : Kind
  text : Text
deriving DecidableEq

/-- What begins at the start of a text, and what is behind it. -/
def sequence (s : Text) : Option (Kind × Text) :=
  match matchOsc s, matchString s, matchCsi s, matchTwoByte s, s with
  | some rest, _, _, _, _ => some (.osc, rest)
  | none, some rest, _, _, _ => some (.string, rest)
  | none, none, some (_, _, rest), _, _ => some (.csi, rest)
  | none, none, none, some rest, _ => some (.twoByte, rest)
  | none, none, none, none, 27 :: 91 :: rest => some (.incomplete, rest)
  | _, _, _, _, _ => none

/-- `skip` more code units belong to a token. -/
def lexFrom : ℕ → Text → List Token
  | _, [] => []
  | skip + 1, _ :: s => lexFrom skip s
  | 0, u :: s =>
    match sequence (u :: s) with
    | some (kind, rest) => ⟨kind, u :: s.take (s.length - rest.length)⟩ :: lexFrom (s.length - rest.length) s
    | none => ⟨.other, [u]⟩ :: lexFrom 0 s

def lex (s : Text) : List Token := lexFrom 0 s

def spell (tokens : List Token) : Text := tokens.flatMap Token.text

/-- C0 controls other than tab, newline and carriage return. -/
def isControl (u : UInt16) : Bool := u < 32 && u != 9 && u != 10 && u != 13

/-- The text outside the control sequences. -/
def visible (tokens : List Token) : Text :=
  (spell (tokens.filter fun tok => tok.kind = .other)).filter fun u => !isControl u

/-! ### Where sequences end -/

theorem behindTerminator_suffix {bel : Bool} {s rest : Text} (h : behindTerminator bel s = some rest) :
    ∃ x, s = x ++ rest := by
  fun_induction behindTerminator bel s with
  | case1 s =>
    cases h
    exact ⟨[27, 92], rfl⟩
  | case2 u s hst hbel =>
    cases h
    exact ⟨[u], rfl⟩
  | case3 u s hst hbel ih =>
    obtain ⟨x, rfl⟩ := ih h
    exact ⟨u :: x, rfl⟩
  | case4 => cases h

theorem matchCsi_spec {s rest params : Text} {final : UInt16} (h : matchCsi s = some (params, final, rest)) :
    ∃ x, s = 27 :: 91 :: x ++ rest ∧ 27 ∉ x := by
  unfold matchCsi at h
  split at h
  · next s =>
    dsimp only at h
    split at h
    · next f rest' hbehind =>
      split at h
      · next hfinal =>
        cases h
        let isParameter : UInt16 → Bool := fun u => 48 ≤ u && u ≤ 63
        let isIntermediate : UInt16 → Bool := fun u => 32 ≤ u && u ≤ 47
        refine ⟨s.takeWhile isParameter ++ (s.dropWhile isParameter).takeWhile isIntermediate ++ [final], ?_, ?_⟩
        · have hs : s = s.takeWhile isParameter ++ s.dropWhile isParameter := List.takeWhile_append_dropWhile.symm
          have hd : s.dropWhile isParameter = (s.dropWhile isParameter).takeWhile isIntermediate ++ final :: rest := by
            rw [← hbehind]
            exact List.takeWhile_append_dropWhile.symm
          conv_lhs => rw [hs, hd]
          simp
        · intro hmem
          rcases List.mem_append.1 hmem with hmem | hmem
          · rcases List.mem_append.1 hmem with hmem | hmem
            · exact absurd (List.mem_takeWhile_imp hmem) (by decide)
            · exact absurd (List.mem_takeWhile_imp hmem) (by decide)
          · rw [← List.mem_singleton.1 hmem] at hfinal
            exact absurd hfinal.1 (by decide)
      · cases h
    · cases h
  · cases h

/-- What a token is, in front of `r`. -/
inductive Reads (r : Text) : Token → Prop
  | osc {x} (h : matchOsc (27 :: 93 :: x ++ r) = some r) : Reads r ⟨.osc, 27 :: 93 :: x⟩
  | string {u x} (hosc : matchOsc (27 :: u :: x ++ r) = none) (h : matchString (27 :: u :: x ++ r) = some r) :
    Reads r ⟨.string, 27 :: u :: x⟩
  | csi {x p f} (hx : 27 ∉ x) (h : matchCsi (27 :: 91 :: x ++ r) = some (p, f, r)) : Reads r ⟨.csi, 27 :: 91 :: x⟩
  | incomplete (h : matchCsi (27 :: 91 :: r) = none) : Reads r ⟨.incomplete, [27, 91]⟩
  | twoByte {u} (hu : u ≠ 27) (hosc : matchOsc (27 :: u :: r) = none) (hstring : matchString (27 :: u :: r) = none)
    (hcsi : matchCsi (27 :: u :: r) = none) (h : matchTwoByte (27 :: u :: r) = some r) : Reads r ⟨.twoByte, [27, u]⟩
  | other {u} (hosc : matchOsc (u :: r) = none) (hstring : matchString (u :: r) = none) (hcsi : matchCsi (u :: r) = none)
    (htwo : matchTwoByte (u :: r) = none) : Reads r ⟨.other, [u]⟩

theorem sequence_reads {s r : Text} {k : Kind} (h : sequence s = some (k, r)) : ∃ w, s = w ++ r ∧ w ≠ [] ∧ Reads r ⟨k, w⟩ := by
  unfold sequence at h
  split at h
  · next rest hosc =>
    cases h
    have hspec := hosc
    unfold matchOsc at hspec
    split at hspec
    · obtain ⟨x, rfl⟩ := behindTerminator_suffix hspec
      exact ⟨27 :: 93 :: x, rfl, by simp, .osc hosc⟩
    · cases hspec
  · next rest hosc hstring =>
    cases h
    have hspec := hstring
    unfold matchString at hspec
    split at hspec
    · split at hspec
      · obtain ⟨x, rfl⟩ := behindTerminator_suffix hspec
        exact ⟨27 :: _ :: x, rfl, by simp, .string hosc hstring⟩
      · cases hspec
    · cases hspec
  · next params final rest hosc hstring hcsi =>
    cases h
    obtain ⟨x, rfl, hx⟩ := matchCsi_spec hcsi
    exact ⟨27 :: 91 :: x, rfl, by simp, .csi hx hcsi⟩
  · next rest hosc hstring hcsi htwo =>
    cases h
    have hspec := htwo
    unfold matchTwoByte at hspec
    split at hspec
    · next u s =>
      split at hspec
      · next hu =>
        cases hspec
        refine ⟨[27, u], rfl, by simp, .twoByte ?_ hosc hstring hcsi htwo⟩
        rintro rfl
        revert hu
        decide
      · cases hspec
    · cases hspec
  · next rest hosc hstring hcsi htwo =>
    cases h
    exact ⟨[27, 91], rfl, by simp, .incomplete hcsi⟩
  · cases h

theorem sequence_none {u : UInt16} {s : Text} (h : sequence (u :: s) = none) : Reads s ⟨.other, [u]⟩ := by
  cases hosc : matchOsc (u :: s) with
  | some rest => simp [sequence, hosc] at h
  | none =>
    cases hstring : matchString (u :: s) with
    | some rest => simp [sequence, hosc, hstring] at h
    | none =>
      cases hcsi : matchCsi (u :: s) with
      | some q => simp [sequence, hosc, hstring, hcsi] at h
      | none =>
        cases htwo : matchTwoByte (u :: s) with
        | some rest => simp [sequence, hosc, hstring, hcsi, htwo] at h
        | none => exact .other hosc hstring hcsi htwo

theorem lexFrom_skip (n : ℕ) (s : Text) : lexFrom n s = lex (s.drop n) := by
  induction s generalizing n with
  | nil => cases n <;> rfl
  | cons u s ih =>
    cases n with
    | zero => rfl
    | succ n => exact ih n

/-- The reading of a text, token by token. -/
theorem lex_cons {s : Text} (hs : s ≠ []) :
    ∃ tok r, s = tok.text ++ r ∧ tok.text ≠ [] ∧ Reads r tok ∧ lex s = tok :: lex r := by
  obtain ⟨u, s, rfl⟩ := List.exists_cons_of_ne_nil hs
  cases h : sequence (u :: s) with
  | none =>
    refine ⟨⟨.other, [u]⟩, s, rfl, by simp, sequence_none h, ?_⟩
    unfold lex
    rw [lexFrom, h]
  | some q =>
    obtain ⟨k, r⟩ := q
    obtain ⟨w, hw, hne, hreads⟩ := sequence_reads h
    obtain ⟨v, x, rfl⟩ := List.exists_cons_of_ne_nil hne
    obtain ⟨rfl, rfl⟩ := List.cons.inj hw
    refine ⟨⟨k, u :: x⟩, r, rfl, by simp, hreads, ?_⟩
    unfold lex
    rw [lexFrom, h]
    simp only
    rw [lexFrom_skip, List.append_eq, List.length_append, Nat.add_sub_cancel, List.take_left, List.drop_left]
    rfl

/-- **Induction along the reading.** -/
theorem lex_induction {P : Text → List Token → Prop} (nil : P [] [])
    (cons : ∀ tok r, tok.text ≠ [] → Reads r tok → P r (lex r) → P (tok.text ++ r) (tok :: lex r)) (s : Text) : P s (lex s) := by
  induction hn : s.length using Nat.strong_induction_on generalizing s with
  | _ n ih =>
    by_cases hs : s = []
    · rw [hs]
      exact nil
    · obtain ⟨tok, r, rfl, hne, hreads, hlex⟩ := lex_cons hs
      rw [hlex]
      refine cons tok r hne hreads (ih r.length ?_ r rfl)
      have := List.length_pos_iff.2 hne
      rw [List.length_append] at hn
      omega

theorem spell_lex (s : Text) : spell (lex s) = s := by
  induction s using lex_induction with
  | nil => rfl
  | cons tok r hne hreads ih => simpa [spell] using ih

/-! ### The passes -/

/-- Each OSC introducer in the text has a BEL behind it there. -/
def Closed (w : Text) : Prop := ∀ t ∈ w.tails, [27, 93] <+: t → 7 ∈ t

/-- A string token without the OSC strings in it. -/
def Token.inner (tok : Token) : Token :=
  if tok.kind = .string then { tok with text := removeAll matchOsc 0 tok.text } else tok

def without (k : Kind) (tokens : List Token) : List Token := tokens.filter fun tok => tok.kind ≠ k

def withoutOsc (tokens : List Token) : List Token := (without .osc tokens).map Token.inner

section Passes

variable {m : Text → Option Text} {r x : Text} {u : UInt16}

/-- A matcher of sequences that begin with ESC. -/
def Escapes (m : Text → Option Text) : Prop := ∀ v s, v ≠ 27 → m (v :: s) = none

theorem escapes_osc : Escapes matchOsc := by
  intro v s hv
  unfold matchOsc
  split
  · next h => exact absurd (List.cons.inj h).1 hv
  · rfl

theorem escapes_string : Escapes matchString := by
  intro v s hv
  unfold matchString
  split
  · next h => exact absurd (List.cons.inj h).1 hv
  · rfl

theorem escapes_csi : Escapes fun t => (matchCsi t).map fun q => q.2.2 := by
  intro v s hv
  show (matchCsi (v :: s)).map _ = none
  unfold matchCsi
  split
  · next h => exact absurd (List.cons.inj h).1 hv
  · rfl

theorem escapes_twoByte : Escapes matchTwoByte := by
  intro v s hv
  unfold matchTwoByte
  split
  · next h => exact absurd (List.cons.inj h).1 hv
  · rfl

/-- A token that matches at its start if at all, and does not. -/
theorem removeAll_token (hm : Escapes m) (hx : 27 ∉ x) (h : m (u :: x ++ r) = none) :
    removeAll m 0 (u :: x ++ r) = u :: x ++ removeAll m 0 r := by
  refine removeAll_kept fun t ht hsuffix => ?_
  rcases List.suffix_cons_iff.1 hsuffix with rfl | hsuffix
  · exact h
  · obtain ⟨v, t, rfl⟩ := List.exists_cons_of_ne_nil ht
    refine hm v (t ++ r) ?_
    rintro rfl
    exact hx (hsuffix.subset List.mem_cons_self)

theorem behindTerminator_append {bel : Bool} {q y : Text} (h : behindTerminator bel q = some y) (r : Text) :
    behindTerminator bel (q ++ r) = some (y ++ r) := by
  fun_induction behindTerminator bel q with
  | case1 s =>
    cases h
    rfl
  | case2 u s hst hbel =>
    cases h
    rw [List.cons_append, behindTerminator]
    · rw [if_pos hbel]
    · rw [hbel.2]
      intro s' hs'
      cases hs'
  | case3 u s hst hbel ih =>
    rw [List.cons_append, behindTerminator]
    · rw [if_neg hbel]
      exact ih h
    · intro s' hu hs'
      cases s with
      | nil => cases h
      | cons v s =>
        rw [List.cons_append] at hs'
        exact hst s hu (by rw [(List.cons.inj hs').1])
  | case4 => cases h

theorem behindTerminator_of_bel {q : Text} (h : 7 ∈ q) : ∃ y, behindTerminator true q = some y := by
  fun_induction behindTerminator true q with
  | case1 s => exact ⟨s, rfl⟩
  | case2 u s hst hbel => exact ⟨s, rfl⟩
  | case3 u s hst hbel ih =>
    refine ih ((List.mem_cons.1 h).resolve_left ?_)
    rintro rfl
    exact hbel ⟨rfl, rfl⟩
  | case4 => cases h

theorem behindTerminator_string {s rest : Text} (h : behindTerminator false s = some rest) : ∃ y, s = y ++ 27 :: 92 :: rest := by
  fun_induction behindTerminator false s with
  | case1 s =>
    cases h
    exact ⟨[], rfl⟩
  | case2 u s hst hbel => cases hbel.1
  | case3 u s hst hbel ih =>
    obtain ⟨y, rfl⟩ := ih h
    exact ⟨u :: y, rfl⟩
  | case4 => cases h

theorem matchString_spec {u : UInt16} {x r : Text} (h : matchString (27 :: u :: x ++ r) = some r) : ∃ y, x = y ++ [27, 92] := by
  have hstring : behindTerminator false (x ++ r) = some r := by
    by_cases hu : u = 80 ∨ u = 88 ∨ u = 94 ∨ u = 95
    · exact (if_pos hu).symm.trans h
    · cases (if_neg hu).symm.trans h
  obtain ⟨y, hy⟩ := behindTerminator_string hstring
  refine ⟨y, (List.append_left_inj r).1 ?_⟩
  rw [hy, List.append_assoc]
  rfl

/-- The OSC strings in a string of another kind, with what is behind that string. -/
theorem matchOsc_append {w t : Text} (hclosed : Closed w) (hend : w.getLast? ≠ some 27) (ht : t ≠ []) (hsuffix : t <:+ w)
    (r : Text) : matchOsc (t ++ r) = (matchOsc t).map (· ++ r) := by
  obtain ⟨v, q, rfl⟩ := List.exists_cons_of_ne_nil ht
  by_cases hv : v = 27
  · subst hv
    cases q with
    | nil =>
      obtain ⟨z, rfl⟩ := hsuffix
      simp at hend
    | cons v q =>
      by_cases hv : v = 93
      · subst hv
        have hbel : 7 ∈ 27 :: 93 :: q := hclosed _ ((List.mem_tails _ _).2 hsuffix) ⟨q, rfl⟩
        obtain ⟨y, hy⟩ := behindTerminator_of_bel (show 7 ∈ q by simpa using hbel)
        show behindTerminator true (q ++ r) = (behindTerminator true q).map _
        rw [behindTerminator_append hy, hy]
        rfl
      · have hnone : ∀ s, matchOsc (27 :: v :: s) = none := by
          intro s
          unfold matchOsc
          split
          · next h => exact absurd (List.cons.inj (List.cons.inj h).2).1 hv
          · rfl
        rw [List.cons_append, List.cons_append, hnone, hnone]
        rfl
  · rw [List.cons_append, escapes_osc v _ hv, escapes_osc v _ hv]
    rfl

theorem removeAll_osc (s : Text) (h : ∀ tok ∈ lex s, tok.kind = .string → Closed tok.text) :
    removeAll matchOsc 0 s = spell (withoutOsc (lex s)) := by
  induction s using lex_induction with
  | nil => rfl
  | cons tok r hne hreads ih =>
    have hr := ih fun tok htok => h tok (List.mem_cons_of_mem _ htok)
    have hclosed := h tok List.mem_cons_self
    cases hreads with
    | osc hmatch => exact (removeAll_match hne hmatch).trans hr
    | @string u x hosc hmatch =>
      obtain ⟨y, rfl⟩ := matchString_spec hmatch
      have hend : (27 :: u :: (y ++ [27, 92])).getLast? ≠ some 27 := by
        rw [List.getLast?_cons_cons, ← List.cons_append, List.getLast?_append]
        show some (92 : UInt16) ≠ some 27
        decide
      rw [removeAll_append fun t ht hsuffix => matchOsc_append (hclosed rfl) hend ht hsuffix r, hr]
      rfl
    | @csi x p f hx hmatch =>
      have hx' : 27 ∉ 91 :: x := by simp [hx]
      rw [removeAll_token escapes_osc hx' rfl, hr]
      rfl
    | incomplete hmatch =>
      rw [removeAll_token escapes_osc (by decide) rfl, hr]
      rfl
    | @twoByte u hu hosc hstring hcsi hmatch =>
      have hx' : 27 ∉ [u] := by simpa using hu.symm
      rw [removeAll_token escapes_osc hx' hosc, hr]
      rfl
    | other hosc hstring hcsi htwo =>
      rw [removeAll_token escapes_osc (by simp) hosc, hr]
      rfl

theorem removeAll_string (s : Text) (h : ∀ tok ∈ lex s, tok.kind ≠ .osc) :
    removeAll matchString 0 s = spell (without .string (lex s)) := by
  induction s using lex_induction with
  | nil => rfl
  | cons tok r hne hreads ih =>
    have hr := ih fun tok htok => h tok (List.mem_cons_of_mem _ htok)
    have hkind := h tok List.mem_cons_self
    cases hreads with
    | osc hmatch => exact absurd rfl hkind
    | string hosc hmatch => exact (removeAll_match hne hmatch).trans hr
    | @csi x p f hx hmatch =>
      have hx' : 27 ∉ 91 :: x := by simp [hx]
      rw [removeAll_token escapes_string hx' rfl, hr]
      rfl
    | incomplete hmatch =>
      rw [removeAll_token escapes_string (by decide) rfl, hr]
      rfl
    | @twoByte u hu hosc hstring hcsi hmatch =>
      have hx' : 27 ∉ [u] := by simpa using hu.symm
      rw [removeAll_token escapes_string hx' hstring, hr]
      rfl
    | other hosc hstring hcsi htwo =>
      rw [removeAll_token escapes_string (by simp) hstring, hr]
      rfl

theorem removeAll_csi (s : Text) (h : ∀ tok ∈ lex s, tok.kind ≠ .osc ∧ tok.kind ≠ .string) :
    removeAll (fun t => (matchCsi t).map fun q => q.2.2) 0 s = spell (without .csi (lex s)) := by
  induction s using lex_induction with
  | nil => rfl
  | cons tok r hne hreads ih =>
    have hr := ih fun tok htok => h tok (List.mem_cons_of_mem _ htok)
    have hkind := h tok List.mem_cons_self
    cases hreads with
    | osc hmatch => exact absurd rfl hkind.1
    | string hosc hmatch => exact absurd rfl hkind.2
    | csi hx hmatch => exact (removeAll_match hne (congrArg (Option.map fun q => q.2.2) hmatch)).trans hr
    | incomplete hmatch =>
      rw [removeAll_token escapes_csi (by decide) (congrArg (Option.map fun q => q.2.2) hmatch), hr]
      rfl
    | @twoByte u hu hosc hstring hcsi hmatch =>
      have hx' : 27 ∉ [u] := by simpa using hu.symm
      rw [removeAll_token escapes_csi hx' (congrArg (Option.map fun q => q.2.2) hcsi), hr]
      rfl
    | other hosc hstring hcsi htwo =>
      rw [removeAll_token escapes_csi (by simp) (congrArg (Option.map fun q => q.2.2) hcsi), hr]
      rfl

theorem removeAll_twoByte (s : Text) (h : ∀ tok ∈ lex s, tok.kind ≠ .osc ∧ tok.kind ≠ .string ∧ tok.kind ≠ .csi) :
    removeAll matchTwoByte 0 s = spell (without .twoByte (lex s)) := by
  induction s using lex_induction with
  | nil => rfl
  | cons tok r hne hreads ih =>
    have hr := ih fun tok htok => h tok (List.mem_cons_of_mem _ htok)
    have hkind := h tok List.mem_cons_self
    cases hreads with
    | osc hmatch => exact absurd rfl hkind.1
    | string hosc hmatch => exact absurd rfl hkind.2.1
    | csi hx hmatch => exact absurd rfl hkind.2.2
    | incomplete hmatch =>
      rw [removeAll_token escapes_twoByte (by decide) rfl, hr]
      rfl
    | twoByte hu hosc hstring hcsi hmatch => exact (removeAll_match hne hmatch).trans hr
    | other hosc hstring hcsi htwo =>
      rw [removeAll_token escapes_twoByte (by simp) htwo, hr]
      rfl

end Passes

/-! ### The whole -/

/-- The OSC strings in other strings end there, and what is left when the OSC strings, then the others, and then the CSI sequences
are taken out reads as the sequences that are left. -/
structure Separate (s : Text) : Prop where
  closed : ∀ tok ∈ lex s, tok.kind = .string → Closed tok.text
  osc : lex (spell (withoutOsc (lex s))) = withoutOsc (lex s)
  string : lex (spell (without .string (withoutOsc (lex s)))) = without .string (withoutOsc (lex s))
  csi : lex (spell (without .csi (without .string (withoutOsc (lex s))))) = without .csi (without .string (withoutOsc (lex s)))

/-- Every introducer of a CSI sequence has its end. -/
def Completed (s : Text) : Prop := ∀ tok ∈ lex s, tok.kind ≠ .incomplete

theorem mem_without {k : Kind} {tokens : List Token} {tok : Token} :
    tok ∈ without k tokens ↔ tok ∈ tokens ∧ tok.kind ≠ k := by simp [without]

@[simp] theorem Token.kind_inner (tok : Token) : tok.inner.kind = tok.kind := by
  unfold Token.inner
  split <;> rfl

theorem kind_withoutOsc {tokens : List Token} {tok : Token} (h : tok ∈ withoutOsc tokens) : tok.kind ≠ .osc := by
  obtain ⟨tok, hmem, rfl⟩ := List.mem_map.1 h
  rw [Token.kind_inner]
  exact (mem_without.1 hmem).2

/-- What the four passes leave. -/
def Token.isText (tok : Token) : Bool := tok.kind = .incomplete || tok.kind = .other

theorem without_all (tokens : List Token) :
    without .twoByte (without .csi (without .string (withoutOsc tokens))) = tokens.filter Token.isText := by
  induction tokens with
  | nil => rfl
  | cons tok tokens ih =>
    obtain ⟨kind, w⟩ := tok
    cases kind with
    | osc => exact ih
    | string => exact ih
    | csi => exact ih
    | twoByte => exact ih
    | incomplete => exact congrArg (_ :: ·) ih
    | other => exact congrArg (_ :: ·) ih

theorem stripEscapes_eq {s : Text} (h : Separate s) :
    stripEscapes s = (spell ((lex s).filter Token.isText)).filter fun u => !isStrayC0 u := by
  have hosc := removeAll_osc s h.closed
  have hstring := removeAll_string (spell (withoutOsc (lex s))) (by
    rw [h.osc]
    exact fun tok htok => kind_withoutOsc htok)
  have hcsi := removeAll_csi (spell (without .string (withoutOsc (lex s)))) (by
    rw [h.string]
    intro tok htok
    obtain ⟨htok, hkind⟩ := mem_without.1 htok
    exact ⟨kind_withoutOsc htok, hkind⟩)
  have htwo := removeAll_twoByte (spell (without .csi (without .string (withoutOsc (lex s))))) (by
    rw [h.csi]
    intro tok htok
    obtain ⟨htok, hcsi⟩ := mem_without.1 htok
    obtain ⟨htok, hstring⟩ := mem_without.1 htok
    exact ⟨kind_withoutOsc htok, hstring, hcsi⟩)
  rw [h.osc] at hstring
  rw [h.string] at hcsi
  rw [h.csi, without_all] at htwo
  unfold stripEscapes
  simp only
  rw [hosc, hstring, hcsi, htwo]

/-- The texts of the tokens that have one. -/
theorem text_of_mem_lex {s : Text} {tok : Token} (h : tok ∈ lex s) :
    (∀ u ∈ tok.text, u ∈ s) ∧ (tok.kind = .incomplete → tok.text = [27, 91]) := by
  constructor
  · intro u hu
    rw [← spell_lex s]
    exact List.mem_flatMap.2 ⟨tok, h, hu⟩
  · revert h
    induction s using lex_induction with
    | nil => intro h; cases h
    | cons first r hne hreads ih =>
      intro h hkind
      rcases List.mem_cons.1 h with rfl | h
      · cases hreads <;> first | rfl | cases hkind
      · exact ih h hkind

theorem not_dangerous {s : Text} (h : hasDangerousSequences s = false) : 8 ∉ s := by
  intro hmem
  have hcontains : s.contains 8 = true := List.contains_iff_mem.2 hmem
  unfold hasDangerousSequences at h
  rw [hcontains] at h
  cases h

theorem isStrayC0_eq {u : UInt16} (h : u ≠ 8) : isStrayC0 u = isControl u := by
  have h8 : u.toNat ≠ 8 := fun hn => h (UInt16.toNat_inj.1 hn)
  rw [Bool.eq_iff_iff]
  simp only [isStrayC0, isControl, Bool.or_eq_true, Bool.and_eq_true, decide_eq_true_eq, beq_iff_eq, bne_iff_ne, ne_eq,
    UInt16.le_iff_toNat_le, UInt16.lt_iff_toNat_lt, ← UInt16.toNat_inj]
  simp only [UInt16.reduceToNat]
  omega

/-- The code units that the passes leave, beside those that are visible: a `[` of each introducer that has no end. -/
theorem text_filter {tokens : List Token} (h : ∀ tok ∈ tokens, 8 ∉ tok.text ∧ (tok.kind = .incomplete → tok.text = [27, 91])) :
    ((spell (tokens.filter Token.isText)).filter fun u => !isStrayC0 u) =
      tokens.flatMap fun tok => if tok.kind = .incomplete then [91] else visible [tok] := by
  induction tokens with
  | nil => rfl
  | cons tok tokens ih =>
    have ih := ih fun tok htok => h tok (List.mem_cons_of_mem _ htok)
    obtain ⟨h8, hincomplete⟩ := h tok List.mem_cons_self
    obtain ⟨kind, w⟩ := tok
    rw [List.flatMap_cons, ← ih]
    cases kind with
    | osc => rfl
    | string => rfl
    | csi => rfl
    | twoByte => rfl
    | incomplete =>
      obtain rfl : w = [27, 91] := hincomplete rfl
      rfl
    | other =>
      have hw : w.filter (fun u => !isStrayC0 u) = w.filter fun u => !isControl u :=
        List.filter_congr fun u hu => by rw [isStrayC0_eq fun h => h8 (h ▸ hu)]
      simp [spell, visible, Token.isText, hw]

theorem visible_eq_flatMap (tokens : List Token) : visible tokens = tokens.flatMap fun tok => visible [tok] := by
  induction tokens with
  | nil => rfl
  | cons tok tokens ih =>
    rw [List.flatMap_cons, ← ih]
    by_cases hkind : tok.kind = .other
    · simp [visible, spell, hkind]
    · simp [visible, spell, hkind]

theorem length_flatMap_incomplete (tokens : List Token) :
    (tokens.flatMap fun tok => if tok.kind = .incomplete then [91] else visible [tok]).length =
      (tokens.flatMap fun tok => visible [tok]).length + tokens.countP fun tok => tok.kind = .incomplete := by
  induction tokens with
  | nil => rfl
  | cons tok tokens ih =>
    rw [List.flatMap_cons, List.flatMap_cons, List.length_append, List.length_append, ih, List.countP_cons]
    by_cases hkind : tok.kind = .incomplete
    · have hnone : visible [tok] = [] := by simp [visible, spell, hkind]
      simp only [if_pos hkind, hnone, decide_eq_true_eq, List.length_cons, List.length_nil]
      omega
    · simp only [if_neg hkind, decide_eq_true_eq]
      omega

/-- **Escape stripping is one reading** of a text whose sequences are separate, exactly if each CSI sequence has its end. -/
theorem stripEscapes_eq_visible_iff (s : Text) (hsafe : hasDangerousSequences s = false) (h : Separate s) :
    stripEscapes s = visible (lex s) ↔ Completed s := by
  rw [stripEscapes_eq h, text_filter, visible_eq_flatMap]
  · constructor
    · intro heq tok htok hkind
      have hlength := length_flatMap_incomplete (lex s)
      rw [heq] at hlength
      have hcount : (lex s).countP (fun tok => tok.kind = .incomplete) = 0 := by omega
      exact List.countP_eq_zero.1 hcount tok htok (by simpa using hkind)
    · intro hcompleted
      rw [List.flatMap_def, List.flatMap_def, List.map_congr_left fun tok htok => if_neg (hcompleted tok htok)]
  · intro tok htok
    obtain ⟨hmem, hincomplete⟩ := text_of_mem_lex htok
    exact ⟨fun h8 => not_dangerous hsafe (hmem 8 h8), hincomplete⟩

instance (s : Text) : Decidable (Completed s) := inferInstanceAs (Decidable (∀ tok ∈ lex s, tok.kind ≠ .incomplete))

instance (w : Text) : Decidable (Closed w) := inferInstanceAs (Decidable (∀ t ∈ w.tails, [27, 93] <+: t → 7 ∈ t))

/-- A link with a colour, and a string with a title in it. -/
def link : Text := text "\x1b]8;;x\x07\x1b[31mred\x1b]8;;\x07\x1bPa\x1b]0;t\x07b\x1b\\c"

theorem stripEscapes_eq_visible_iff_link : stripEscapes link = visible (lex link) ↔ Completed link :=
  stripEscapes_eq_visible_iff link (by decide +kernel)
    ⟨by decide +kernel, by decide +kernel, by decide +kernel, by decide +kernel⟩

/-- An OSC string that takes the end of the string around it: its `a` is shown. -/
theorem stripEscapes_nested :
    hasDangerousSequences (text "\x1bPa\x1b]b\x1b\\c") = false ∧
      stripEscapes (text "\x1bPa\x1b]b\x1b\\c") = text "ac" ∧ visible (lex (text "\x1bPa\x1b]b\x1b\\c")) = text "c" := by
  decide +kernel

end LlmGateway.Compressor
