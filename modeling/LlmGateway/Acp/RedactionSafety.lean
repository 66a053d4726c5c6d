import LlmGateway.Acp.Redaction
import LlmGateway.Lib.JsonText
import Mathlib.Data.List.Infix

/-!
# JSON bodies in ACP messages

* `Body.run`, `Above`, `Closes`, `Open` — the scanner in an open body: what keeps it open, and what closes it;
* `pass` — what becomes of the rest of a message; `pass_pass` — a second time nothing is left to do;
* `bodies_hidden` — what a message tells of an object in it.
-/

namespace LlmGateway.Acp.Redaction

open LlmGateway.Lib.Utf16 LlmGateway.Lib.Regex LlmGateway.Lib.JsonText

/-! ## An open body -/

def Body.run (b : Body) (s : Text) : Body := s.foldl Body.next b

theorem Body.run_append (b : Body) (s t : Text) : b.run (s ++ t) = (b.run s).run t := List.foldl_append

theorem Body.text_next (b : Body) (u : UInt16) : (b.next u).text = b.text ++ [u] := by
  unfold Body.next
  dsimp only
  split_ifs
  · rfl
  · rfl
  · rfl
  · rfl
  · cases closing u <;> rfl
  · cases closing u <;> rfl

theorem Body.text_run (b : Body) (s : Text) : (b.run s).text = b.text ++ s := by
  induction s generalizing b with
  | nil => exact (List.append_nil _).symm
  | cons u s ih =>
    change ((b.next u).run s).text = _
    rw [ih, b.text_next, List.append_assoc]
    rfl

/-- The body stays open, with `k` at the bottom of its stack. -/
def Above (k : List UInt16) : Body → Text → Prop
  | _, [] => True
  | b, u :: s => k <:+ (b.next u).stack ∧ Above k (b.next u) s

/-- The last unit of the text closes the body, and none before it. -/
def Closes : Body → Text → Prop
  | _, [] => False
  | b, u :: s => if (b.next u).stack = [] then s = [] else Closes (b.next u) s

/-- The body is never closed. -/
def Open : Body → Text → Prop
  | _, [] => True
  | b, u :: s => (b.next u).stack ≠ [] ∧ Open (b.next u) s

theorem above_append {k : List UInt16} {b : Body} {s t : Text} : Above k b (s ++ t) ↔ Above k b s ∧ Above k (b.run s) t := by
  induction s generalizing b with
  | nil => exact ⟨fun h => ⟨trivial, h⟩, fun h => h.2⟩
  | cons u s ih => exact (and_congr_right fun _ => ih).trans and_assoc.symm

theorem Above.weaken {k k' : List UInt16} {b : Body} {s : Text} (h : Above k b s) (hk : k' <:+ k) : Above k' b s := by
  induction s generalizing b with
  | nil => trivial
  | cons u s ih => exact ⟨hk.trans h.1, ih h.2⟩

theorem Above.open {k : List UInt16} {b : Body} {s : Text} (h : Above k b s) (hk : k ≠ []) : Open b s := by
  induction s generalizing b with
  | nil => trivial
  | cons u s ih =>
    refine ⟨fun hnil => hk ?_, ih h.2⟩
    have hsuffix := h.1
    rw [hnil] at hsuffix
    exact List.suffix_nil.1 hsuffix

theorem Above.run {k : List UInt16} {b : Body} {s : Text} (h : Above k b s) (hk : k <:+ b.stack) : k <:+ (b.run s).stack := by
  induction s generalizing b with
  | nil => exact hk
  | cons u s ih => exact ih h.2 h.1

theorem open_append {b : Body} {s t : Text} : Open b (s ++ t) ↔ Open b s ∧ Open (b.run s) t := by
  induction s generalizing b with
  | nil => exact ⟨fun h => ⟨trivial, h⟩, fun h => h.2⟩
  | cons u s ih => exact (and_congr_right fun _ => ih).trans and_assoc.symm

/-- An open body is closed somewhere, or nowhere. -/
theorem closes_or_open (b : Body) (s : Text) : (∃ v rest, s = v ++ rest ∧ Closes b v) ∨ Open b s := by
  induction s generalizing b with
  | nil => exact .inr trivial
  | cons u s ih =>
    by_cases hnil : (b.next u).stack = []
    · exact .inl ⟨[u], s, rfl, by rw [Closes, if_pos hnil]⟩
    · rcases ih (b.next u) with ⟨v, rest, rfl, hv⟩ | hopen
      · exact .inl ⟨u :: v, rest, rfl, by rw [Closes, if_neg hnil]; exact hv⟩
      · exact .inr ⟨hnil, hopen⟩

/-! ## The rest of a message -/

/-- What becomes of the rest of a message, behind the body that is open. -/
def pass (body : Option Body) (s : Text) : Text := (s.foldl Scan.next ⟨[], [], body⟩).finish

section Next

variable (out plain : Text)

theorem Scan.next_plain {u : UInt16} (hu : closing u = none) :
    Scan.next ⟨out, plain, none⟩ u = ⟨out, plain ++ [u], none⟩ := by
  unfold Scan.next
  rw [hu]

theorem Scan.next_opening {u close : UInt16} (hu : closing u = some close) :
    Scan.next ⟨out, plain, none⟩ u = ⟨out, plain, some ⟨[u], [close], false, false⟩⟩ := by
  unfold Scan.next
  rw [hu]

theorem Scan.next_closed {b : Body} {u : UInt16} (h : (b.next u).stack = []) :
    Scan.next ⟨out, plain, some b⟩ u = ⟨out ++ plain ++ (b.next u).shown, [], none⟩ := if_pos (by rw [h]; rfl)

theorem Scan.next_open {b : Body} {u : UInt16} (h : (b.next u).stack ≠ []) :
    Scan.next ⟨out, plain, some b⟩ u = ⟨out, plain, some (b.next u)⟩ := if_neg (by simpa using h)

end Next

theorem finish_foldl (out plain : Text) (body : Option Body) (s : Text) :
    (s.foldl Scan.next ⟨out, plain, body⟩).finish = out ++ plain ++ pass body s := by
  have hfront (s : Text) : ∀ out plain plain' body, (s.foldl Scan.next ⟨out, plain ++ plain', body⟩).finish =
      out ++ plain ++ (s.foldl Scan.next ⟨[], plain', body⟩).finish := by
    induction s with
    | nil =>
      intro out plain plain' body
      cases body <;> simp [Scan.finish]
    | cons u s ih =>
      intro out plain plain' body
      rw [List.foldl_cons, List.foldl_cons]
      cases body with
      | none =>
        cases hu : closing u with
        | none => rw [Scan.next_plain _ _ hu, Scan.next_plain _ _ hu, List.append_assoc, ih]
        | some close => rw [Scan.next_opening _ _ hu, Scan.next_opening _ _ hu, ih]
      | some b =>
        by_cases hnil : (b.next u).stack = []
        · have hleft := ih (out ++ (plain ++ plain') ++ (b.next u).shown) [] [] none
          have hright := ih (plain' ++ (b.next u).shown) [] [] none
          rw [Scan.next_closed _ _ hnil, Scan.next_closed _ _ hnil]
          simp only [List.append_nil, List.nil_append] at hleft hright ⊢
          rw [hleft, hright]
          simp
        · rw [Scan.next_open _ _ hnil, Scan.next_open _ _ hnil, ih]
  have h := hfront s out plain [] body
  rw [List.append_nil] at h
  exact h

theorem redactJsonLikeBodies_eq (s : Text) : redactJsonLikeBodies s = pass none s := rfl

theorem pass_none_cons {u : UInt16} (hu : closing u = none) (s : Text) : pass none (u :: s) = u :: pass none s := by
  rw [pass, List.foldl_cons, Scan.next_plain _ _ hu, finish_foldl]
  rfl

theorem pass_opening {u close : UInt16} (hu : closing u = some close) (s : Text) :
    pass none (u :: s) = pass (some ⟨[u], [close], false, false⟩) s := by
  rw [pass, List.foldl_cons, Scan.next_opening _ _ hu, finish_foldl]
  rfl

theorem pass_closed {b : Body} {u : UInt16} (h : (b.next u).stack = []) (s : Text) :
    pass (some b) (u :: s) = (b.next u).shown ++ pass none s := by
  rw [pass, List.foldl_cons, Scan.next_closed _ _ h, finish_foldl]
  simp

theorem pass_open {b : Body} {u : UInt16} (h : (b.next u).stack ≠ []) (s : Text) :
    pass (some b) (u :: s) = pass (some (b.next u)) s := by
  rw [pass, List.foldl_cons, Scan.next_open _ _ h, finish_foldl]
  rfl

theorem pass_of_closes {b : Body} {v : Text} (h : Closes b v) (rest : Text) :
    pass (some b) (v ++ rest) = (b.run v).shown ++ pass none rest := by
  induction v generalizing b with
  | nil => cases h
  | cons u v ih =>
    rw [List.cons_append]
    rw [Closes] at h
    split_ifs at h with hnil
    · subst h
      exact pass_closed hnil rest
    · rw [pass_open hnil]
      exact ih h

theorem pass_of_open {b : Body} {s : Text} (h : Open b s) : pass (some b) s = (b.run s).shown := by
  induction s generalizing b with
  | nil => rfl
  | cons u s ih =>
    rw [pass_open h.1]
    exact ih h.2

theorem pass_plain {s : Text} (h : ∀ u ∈ s, closing u = none) (rest : Text) : pass none (s ++ rest) = s ++ pass none rest := by
  induction s with
  | nil => rfl
  | cons u s ih =>
    rw [List.cons_append, pass_none_cons (h u List.mem_cons_self), ih fun v hv => h v (List.mem_cons_of_mem _ hv)]
    rfl

theorem closing_redactedJson : ∀ u ∈ redactedJson, closing u = none := by decide

theorem pass_redactedJson (rest : Text) : pass none (redactedJson ++ rest) = redactedJson ++ pass none rest :=
  pass_plain closing_redactedJson rest

/-- What is shown of a body that `u` opened and `s` is the rest of: the body itself, or the placeholder. -/
theorem shown_cases (u close : UInt16) (s : Text) :
    (Body.run ⟨[u], [close], false, false⟩ s).shown = redactedJson ∨
      (Body.run ⟨[u], [close], false, false⟩ s).shown = u :: s := by
  unfold Body.shown
  rw [Body.text_run]
  split_ifs
  · exact .inl rfl
  · exact .inr rfl

/-- **A second pass changes nothing.** -/
theorem pass_pass (s : Text) : pass none (pass none s) = pass none s := by
  induction hn : s.length using Nat.strong_induction_on generalizing s with
  | _ n ih =>
    cases s with
    | nil => rfl
    | cons u s =>
      cases hu : closing u with
      | none => rw [pass_none_cons hu, pass_none_cons hu, ih s.length (by rw [← hn]; exact Nat.lt_succ_self _) s rfl]
      | some close =>
        rw [pass_opening hu]
        rcases closes_or_open ⟨[u], [close], false, false⟩ s with ⟨v, rest, rfl, hclosed⟩ | hopen
        · have hrest : pass none (pass none rest) = pass none rest := by
            refine ih rest.length ?_ rest rfl
            rw [← hn, List.length_cons, List.length_append]
            omega
          rw [pass_of_closes hclosed]
          rcases shown_cases u close v with hshown | hshown
          · rw [hshown, pass_redactedJson, hrest]
          · -- the body is scanned again, and closed by the same unit
            rw [hshown, List.cons_append, pass_opening hu, pass_of_closes hclosed, hshown, hrest]
            rfl
        · rw [pass_of_open hopen]
          rcases shown_cases u close s with hshown | hshown
          · rw [hshown]
            exact pass_redactedJson []
          · rw [hshown, pass_opening hu, pass_of_open hopen, hshown]

/-! ## JSON texts -/

/-- No bracket, no quote, no backslash. -/
def isNeutral (u : UInt16) : Bool := u != 34 && u != 92 && u != 123 && u != 91 && u != 125 && u != 93

theorem closing_of_isNeutral {u : UInt16} (h : isNeutral u = true) : closing u = none := by
  simp only [isNeutral, Bool.and_eq_true, bne_iff_ne] at h
  unfold closing
  rw [if_neg h.1.1.1.2, if_neg h.1.1.2]

/-- A state of the scanner in a body. -/
structure At where
  holds : Body → Prop
  text : ∀ b t, holds b → holds { b with text := t }

/-- The text leaves a body where it was, and does not reach below its stack. -/
def Keeps (P : At) (v : Text) : Prop := ∀ b : Body, P.holds b → b.run v = { b with text := b.text ++ v } ∧ Above b.stack b v

theorem Keeps.nil (P : At) : Keeps P [] := fun b _ => ⟨by rw [List.append_nil]; rfl, trivial⟩

theorem Keeps.append {P : At} {v w : Text} (hv : Keeps P v) (hw : Keeps P w) : Keeps P (v ++ w) := by
  intro b hb
  obtain ⟨hrun, habove⟩ := hv b hb
  obtain ⟨hrun', habove'⟩ := hw _ (P.text b (b.text ++ v) hb)
  refine ⟨?_, above_append.2 ⟨habove, ?_⟩⟩
  · rw [Body.run_append, hrun, hrun', List.append_assoc]
  · rw [hrun]
    exact habove'

theorem Keeps.unit {P : At} {u : UInt16} (h : ∀ b, P.holds b → b.next u = { b with text := b.text ++ [u] }) : Keeps P [u] := by
  intro b hb
  refine ⟨h b hb, ?_, trivial⟩
  rw [h b hb]

theorem Keeps.units {P : At} {v : Text} (h : ∀ u ∈ v, Keeps P [u]) : Keeps P v := by
  induction v with
  | nil => exact .nil P
  | cons u v ih => exact .append (h u List.mem_cons_self) (ih fun w hw => h w (List.mem_cons_of_mem _ hw))

/-- Between brackets, outside of strings. -/
def between : At where
  holds b := b.inString = false ∧ b.escaped = false ∧ ∀ c ∈ b.stack, c = 125 ∨ c = 93
  text _ _ h := h

def inside : At where
  holds b := b.inString = true ∧ b.escaped = false
  text _ _ h := h

theorem keeps_neutral {u : UInt16} (hu : isNeutral u = true) : Keeps between [u] := by
  refine .unit fun b hb => ?_
  have hclosing := closing_of_isNeutral hu
  simp only [isNeutral, Bool.and_eq_true, bne_iff_ne] at hu
  obtain ⟨⟨⟨⟨⟨hquote, hslash⟩, -⟩, -⟩, hbrace⟩, hbracket⟩ := hu
  have htop : b.stack.head? ≠ some u := by
    intro htop
    rcases hb.2.2 u (List.mem_of_head? htop) with rfl | rfl
    · exact hbrace rfl
    · exact hbracket rfl
  unfold Body.next
  simp [hb.1, hb.2.1, hquote, hslash, hclosing, htop]

theorem keeps_inside {u : UInt16} (hquote : u ≠ 34) (hslash : u ≠ 92) : Keeps inside [u] := by
  refine .unit fun b hb => ?_
  unfold Body.next
  simp [hb.1, hb.2, hquote, hslash]

theorem keeps_escape (u : UInt16) : Keeps inside [92, u] := by
  intro b hb
  have hslash : b.next 92 = { b with text := b.text ++ [92], escaped := true } := by
    unfold Body.next
    simp [hb.1, hb.2]
  have hnext : (b.next 92).next u = { b with text := b.text ++ [92, u] } := by
    rw [hslash]
    unfold Body.next
    simp [hb.2]
  refine ⟨hnext, ?_, ?_, trivial⟩
  · rw [hslash]
  · rw [hnext]

theorem ne_of_isHex {u : UInt16} (h : isHex u = true) : u ≠ 34 ∧ u ≠ 92 := by
  constructor
  · rintro rfl
    exact absurd h (by decide)
  · rintro rfl
    exact absurd h (by decide)

/-- The characters of a string. -/
theorem keeps_chars {cs : Text} (h : Chars cs) : Keeps inside cs := by
  induction h with
  | nil => exact .nil inside
  | @unescaped u s _ hq hb _ ih => exact .append (v := [u]) (keeps_inside hq hb) ih
  | @escaped u s _ _ ih => exact .append (v := [92, u]) (keeps_escape u) ih
  | @unit c d e f s hc hd he hf _ ih =>
    refine .append (v := [92, 117]) (keeps_escape 117) (.append (v := [c, d, e, f]) (.units fun u hu => ?_) ih)
    have hhex : isHex u = true := by
      simp only [List.mem_cons, List.not_mem_nil, or_false] at hu
      rcases hu with rfl | rfl | rfl | rfl <;> assumption
    exact keeps_inside (ne_of_isHex hhex).1 (ne_of_isHex hhex).2

theorem keeps_string {w : Text} (h : IsString w) : Keeps between w := by
  obtain ⟨cs, hcs, rfl⟩ := h
  intro b hb
  have hopening : b.next 34 = { b with text := b.text ++ [34], inString := true } := by
    unfold Body.next
    simp [hb.1, hb.2.1]
  obtain ⟨hrun, habove⟩ := keeps_chars hcs (b.next 34) (by rw [hopening]; exact ⟨rfl, hb.2.1⟩)
  have hclosing : ((b.next 34).run cs).next 34 = { b with text := b.text ++ 34 :: (cs ++ [34]) } := by
    rw [hrun, hopening]
    unfold Body.next
    simp [hb.1, hb.2.1]
  refine ⟨?_, ?_, above_append.2 ⟨?_, ?_, trivial⟩⟩
  · change (b.next 34).run (cs ++ [34]) = _
    rw [Body.run_append]
    exact hclosing
  · rw [hopening]
  · rw [hopening] at habove ⊢
    exact habove
  · rw [hclosing]

/-- What is between two brackets. -/
theorem keeps_brackets {o c : UInt16} (hoc : (o = 123 ∧ c = 125) ∨ (o = 91 ∧ c = 93)) {v : Text} (hv : Keeps between v) :
    Keeps between (o :: (v ++ [c])) := by
  intro b hb
  have hopening : b.next o = { b with text := b.text ++ [o], stack := c :: b.stack } := by
    unfold Body.next
    rcases hoc with ⟨rfl, rfl⟩ | ⟨rfl, rfl⟩
    · simp [hb.1, hb.2.1, closing]
    · simp [hb.1, hb.2.1, closing]
  have hstack : ∀ u ∈ c :: b.stack, u = 125 ∨ u = 93 := by
    intro u hu
    rcases List.mem_cons.1 hu with rfl | hu
    · exact hoc.imp And.right And.right
    · exact hb.2.2 u hu
  obtain ⟨hrun, habove⟩ := hv (b.next o) (by rw [hopening]; exact ⟨hb.1, hb.2.1, hstack⟩)
  have hclosing : ((b.next o).run v).next c = { b with text := b.text ++ o :: (v ++ [c]) } := by
    rw [hrun, hopening]
    unfold Body.next
    rcases hoc with ⟨rfl, rfl⟩ | ⟨rfl, rfl⟩
    · simp [hb.1, hb.2.1, closing]
    · simp [hb.1, hb.2.1, closing]
  refine ⟨?_, ?_, above_append.2 ⟨?_, ?_, trivial⟩⟩
  · change (b.next o).run (v ++ [c]) = _
    rw [Body.run_append]
    exact hclosing
  · rw [hopening]
    exact List.suffix_cons c b.stack
  · rw [hopening] at habove ⊢
    exact habove.weaken (List.suffix_cons c b.stack)
  · rw [hclosing]

/-! ## JSON values -/

theorem keeps_space {s r : Text} (h : Space s r) : ∃ w, s = w ++ r ∧ (∀ u ∈ w, isWs u = true) ∧ Keeps between w := by
  have hwhite : ∃ w, s = w ++ r ∧ ∀ u ∈ w, isWs u = true := by
    induction h with
    | nil s => exact ⟨[], rfl, fun u hu => absurd hu List.not_mem_nil⟩
    | @cons u s r hu _ ih =>
      obtain ⟨w, rfl, hw⟩ := ih
      refine ⟨u :: w, rfl, fun v hv => ?_⟩
      rcases List.mem_cons.1 hv with rfl | hv
      · exact hu
      · exact hw v hv
  obtain ⟨w, hs, hw⟩ := hwhite
  refine ⟨w, hs, hw, .units fun u hu => keeps_neutral ?_⟩
  have hwhite := hw u hu
  simp only [isWs, Bool.or_eq_true, beq_iff_eq] at hwhite
  rcases hwhite with ((rfl | rfl) | rfl) | rfl <;> decide

theorem isNeutral_of_isDigit {u : UInt16} (h : LlmGateway.Lib.JsonText.isDigit u = true) : isNeutral u = true := by
  have hne {v : UInt16} (hv : LlmGateway.Lib.JsonText.isDigit v = false) : u ≠ v := ne_of_isDigit h hv
  simp only [isNeutral, Bool.and_eq_true, bne_iff_ne]
  exact ⟨⟨⟨⟨⟨hne (by decide), hne (by decide)⟩, hne (by decide)⟩, hne (by decide)⟩, hne (by decide)⟩, hne (by decide)⟩

theorem keeps_number {w : Text} (h : IsNumber w) : Keeps between w := by
  have hdigits {ds : Text} (h : Digits ds) : Keeps between ds :=
    .units fun u hu => keeps_neutral (isNeutral_of_isDigit (h.2 u hu))
  have hunit {u : UInt16} (h : isNeutral u = true) : Keeps between [u] := keeps_neutral h
  obtain ⟨sign, i, f, e, hsign, hi, hf, he, rfl⟩ := h
  refine .append ?_ (.append ?_ (.append ?_ ?_))
  · rcases hsign with rfl | rfl
    · exact .nil between
    · exact hunit (by decide)
  · rcases hi with rfl | hi
    · exact hunit (by decide)
    · exact hdigits hi.1
  · rcases hf with rfl | ⟨ds, hds, rfl⟩
    · exact .nil between
    · exact .append (v := [46]) (hunit (by decide)) (hdigits hds)
  · rcases he with rfl | ⟨e, sign, ds, he, hsign, hds, rfl⟩
    · exact .nil between
    · refine .append (v := [e]) (hunit ?_) (.append ?_ (hdigits hds))
      · rcases he with rfl | rfl <;> decide
      · rcases hsign with rfl | rfl | rfl
        · exact .nil between
        · exact hunit (by decide)
        · exact hunit (by decide)

theorem keeps_literal {w : Text} (h : w ∈ literals) : Keeps between w := by
  have hneutral : ∀ w ∈ literals, ∀ u ∈ w, isNeutral u = true := by decide
  exact .units fun u hu => keeps_neutral (hneutral w h u hu)

mutual

theorem keeps_value : ∀ (t : Tree) {a r : Text}, Value a t r → ∃ v, a = v ++ r ∧ Keeps between v
  | .literal w, _, _, .literal h => ⟨w, rfl, keeps_literal h⟩
  | .number w, _, _, .number h => ⟨w, rfl, keeps_number h⟩
  | .string w, _, _, .string h => ⟨w, rfl, keeps_string h⟩
  | .array [], _, r, .emptyArray h => by
    obtain ⟨w, rfl, -, hw⟩ := keeps_space h
    exact ⟨91 :: (w ++ [93]), by simp, keeps_brackets (.inr ⟨rfl, rfl⟩) hw⟩
  | .array ts, _, r, .array h => by
    obtain ⟨v, rfl, hv⟩ := keeps_items ts h
    exact ⟨91 :: (v ++ [93]), by simp, keeps_brackets (.inr ⟨rfl, rfl⟩) hv⟩
  | .object [], _, r, .emptyObject h => by
    obtain ⟨w, rfl, -, hw⟩ := keeps_space h
    exact ⟨123 :: (w ++ [125]), by simp, keeps_brackets (.inl ⟨rfl, rfl⟩) hw⟩
  | .object ms, _, r, .object h => by
    obtain ⟨v, rfl, hv⟩ := keeps_members ms h
    exact ⟨123 :: (v ++ [125]), by simp, keeps_brackets (.inl ⟨rfl, rfl⟩) hv⟩

theorem keeps_items : ∀ (ts : List Tree) {s r : Text}, Items s ts r → ∃ v, s = v ++ 93 :: r ∧ Keeps between v
  | [t], _, r, .last ha ht hb => by
    obtain ⟨w, rfl, -, hw⟩ := keeps_space ha
    obtain ⟨v, rfl, hv⟩ := keeps_value t ht
    obtain ⟨w', rfl, -, hw'⟩ := keeps_space hb
    exact ⟨w ++ (v ++ w'), by simp, hw.append (hv.append hw')⟩
  | t :: ts, _, r, .more ha ht hb h => by
    obtain ⟨w, rfl, -, hw⟩ := keeps_space ha
    obtain ⟨v, rfl, hv⟩ := keeps_value t ht
    obtain ⟨w', rfl, -, hw'⟩ := keeps_space hb
    obtain ⟨rest, rfl, hrest⟩ := keeps_items ts h
    exact ⟨w ++ (v ++ (w' ++ ([44] ++ rest))), by simp, hw.append (hv.append (hw'.append ((keeps_neutral rfl).append hrest)))⟩

theorem keeps_members : ∀ (ms : List (Text × Tree)) {s r : Text}, Members s ms r → ∃ v, s = v ++ 125 :: r ∧ Keeps between v
  | [(k, t)], _, r, .last hs hk hb hc ht he => by
    obtain ⟨w, rfl, -, hw⟩ := keeps_space hs
    obtain ⟨w₁, rfl, -, hw₁⟩ := keeps_space hb
    obtain ⟨w₂, rfl, -, hw₂⟩ := keeps_space hc
    obtain ⟨v, rfl, hv⟩ := keeps_value t ht
    obtain ⟨w₃, rfl, -, hw₃⟩ := keeps_space he
    exact ⟨w ++ (k ++ (w₁ ++ ([58] ++ (w₂ ++ (v ++ w₃))))), by simp,
      hw.append ((keeps_string hk).append (hw₁.append ((keeps_neutral rfl).append (hw₂.append (hv.append hw₃)))))⟩
  | (k, t) :: ms, _, r, .more hs hk hb hc ht he h => by
    obtain ⟨w, rfl, -, hw⟩ := keeps_space hs
    obtain ⟨w₁, rfl, -, hw₁⟩ := keeps_space hb
    obtain ⟨w₂, rfl, -, hw₂⟩ := keeps_space hc
    obtain ⟨v, rfl, hv⟩ := keeps_value t ht
    obtain ⟨w₃, rfl, -, hw₃⟩ := keeps_space he
    obtain ⟨rest, rfl, hrest⟩ := keeps_members ms h
    have hmember := (keeps_string hk).append (hw₁.append ((keeps_neutral (u := 58) rfl).append (hw₂.append (hv.append hw₃))))
    exact ⟨w ++ ((k ++ (w₁ ++ ([58] ++ (w₂ ++ (v ++ w₃))))) ++ ([44] ++ rest)), by simp,
      hw.append (hmember.append ((keeps_neutral rfl).append hrest))⟩

end

/-! ## Keys -/

mutual

/-- The keys of the objects of a document, at any depth, each as it is spelled. -/
def keys : Tree → List Text
  | .array items => itemKeys items
  | .object members => memberKeys members
  | _ => []

def itemKeys : List Tree → List Text
  | [] => []
  | t :: ts => keys t ++ itemKeys ts

def memberKeys : List (Text × Tree) → List Text
  | [] => []
  | (k, t) :: ms => k :: keys t ++ memberKeys ms

end

/-- The key stands in front of `r`, with its colon. -/
def Shown (k a r : Text) : Prop := ∃ front gap back, a = front ++ (k ++ (gap ++ 58 :: (back ++ r))) ∧ ∀ u ∈ gap, isWs u = true

theorem Shown.behind {k a r : Text} (h : Shown k a r) (front : Text) : Shown k (front ++ a) r := by
  obtain ⟨front', gap, back, rfl, hgap⟩ := h
  exact ⟨front ++ front', gap, back, by simp, hgap⟩

theorem Shown.before {k a back r : Text} (h : Shown k a (back ++ r)) : Shown k a r := by
  obtain ⟨front, gap, back', rfl, hgap⟩ := h
  exact ⟨front, gap, back' ++ back, by simp, hgap⟩

mutual

theorem shown_value : ∀ (t : Tree) {a r : Text}, Value a t r → ∀ k ∈ keys t, Shown k a r
  | .literal _, _, _, _, _, hk => absurd hk List.not_mem_nil
  | .number _, _, _, _, _, hk => absurd hk List.not_mem_nil
  | .string _, _, _, _, _, hk => absurd hk List.not_mem_nil
  | .array [], _, _, _, _, hk => absurd hk List.not_mem_nil
  | .array (t :: ts), _, _, .array h, k, hk => (shown_items (t :: ts) h k hk).behind [91]
  | .object [], _, _, _, _, hk => absurd hk List.not_mem_nil
  | .object (m :: ms), _, _, .object h, k, hk => (shown_members (m :: ms) h k hk).behind [123]

theorem shown_items : ∀ (ts : List Tree) {s r : Text}, Items s ts r → ∀ k ∈ itemKeys ts, Shown k s r
  | [t], _, r, .last ha ht hb, k, hk => by
    obtain ⟨w, rfl, -, -⟩ := keeps_space ha
    obtain ⟨w', rfl, -, -⟩ := keeps_space hb
    have hk : k ∈ keys t := by simpa [itemKeys] using hk
    have hshown := (shown_value t ht k hk).behind w
    rw [show w' ++ 93 :: r = (w' ++ [93]) ++ r by simp] at hshown
    exact hshown.before
  | t :: ts, _, r, .more ha ht hb h, k, hk => by
    obtain ⟨w, rfl, -, -⟩ := keeps_space ha
    obtain ⟨v, rfl, -⟩ := keeps_value t ht
    obtain ⟨w', rfl, -, -⟩ := keeps_space hb
    rcases List.mem_append.1 hk with hk | hk
    · obtain ⟨rest, rfl, -⟩ := keeps_items ts h
      have hshown := (shown_value t ht k hk).behind w
      rw [show w' ++ 44 :: (rest ++ 93 :: r) = (w' ++ 44 :: (rest ++ [93])) ++ r by simp] at hshown
      simpa using hshown.before
    · have hshown := (shown_items ts h k hk).behind (w ++ (v ++ (w' ++ [44])))
      simpa using hshown

theorem shown_members : ∀ (ms : List (Text × Tree)) {s r : Text}, Members s ms r → ∀ k ∈ memberKeys ms, Shown k s r
  | [(key, t)], _, r, .last hs _ hb hc ht he, k, hk => by
    obtain ⟨w, rfl, -, -⟩ := keeps_space hs
    obtain ⟨w₁, rfl, hgap, -⟩ := keeps_space hb
    obtain ⟨w₂, rfl, -, -⟩ := keeps_space hc
    obtain ⟨w₃, rfl, -, -⟩ := keeps_space he
    rcases List.mem_cons.1 (show k ∈ key :: keys t by simpa [memberKeys] using hk) with rfl | hk
    · obtain ⟨v, rfl, -⟩ := keeps_value t ht
      exact ⟨w, w₁, w₂ ++ (v ++ (w₃ ++ [125])), by simp, hgap⟩
    · have hshown := (shown_value t ht k hk).behind (w ++ (key ++ (w₁ ++ 58 :: w₂)))
      rw [show w₃ ++ 125 :: r = (w₃ ++ [125]) ++ r by simp] at hshown
      simpa using hshown.before
  | (key, t) :: ms, _, r, .more hs _ hb hc ht he h, k, hk => by
    obtain ⟨w, rfl, -, -⟩ := keeps_space hs
    obtain ⟨w₁, rfl, hgap, -⟩ := keeps_space hb
    obtain ⟨w₂, rfl, -, -⟩ := keeps_space hc
    obtain ⟨w₃, rfl, -, -⟩ := keeps_space he
    rcases List.mem_append.1 (show k ∈ (key :: keys t) ++ memberKeys ms from hk) with hk | hk
    · obtain ⟨rest, rfl, -⟩ := keeps_members ms h
      rcases List.mem_cons.1 hk with rfl | hk
      · obtain ⟨v, rfl, -⟩ := keeps_value t ht
        exact ⟨w, w₁, w₂ ++ (v ++ (w₃ ++ 44 :: (rest ++ [125]))), by simp, hgap⟩
      · have hshown := (shown_value t ht k hk).behind (w ++ (key ++ (w₁ ++ 58 :: w₂)))
        rw [show w₃ ++ 44 :: (rest ++ 125 :: r) = (w₃ ++ 44 :: (rest ++ [125])) ++ r by simp] at hshown
        simpa using hshown.before
    · obtain ⟨v, rfl, -⟩ := keeps_value t ht
      have hshown := (shown_members ms h k hk).behind (w ++ (key ++ (w₁ ++ 58 :: (w₂ ++ (v ++ (w₃ ++ [44]))))))
      simpa using hshown

end

/-- The key ends with a run of letters, digits, underscores and dashes between two quotes. -/
def WordKey (k : Text) : Prop := ∃ w, w ≠ [] ∧ (∀ u ∈ w, isNameUnit u = true) ∧ 34 :: (w ++ [34]) <:+ k

/-- Such a run, with the quotes around it and the colon behind it, stands in the text. -/
def ShowsKey (s : Text) : Prop :=
  ∃ w gap, w ≠ [] ∧ (∀ u ∈ w, isNameUnit u = true) ∧ (∀ u ∈ gap, isSpace u = true) ∧ 34 :: (w ++ 34 :: (gap ++ [58])) <:+: s

theorem showsKey_of_shown {k v r : Text} (hk : WordKey k) (h : Shown k (v ++ r) r) : ShowsKey v := by
  obtain ⟨w, hne, hw, front, rfl⟩ := hk
  obtain ⟨front', gap, back, heq, hgap⟩ := h
  refine ⟨w, gap, hne, hw, fun u hu => ?_, front' ++ front, back, ?_⟩
  · have hwhite := hgap u hu
    simp only [isWs, Bool.or_eq_true, beq_iff_eq] at hwhite
    rcases hwhite with ((rfl | rfl) | rfl) | rfl <;> decide
  · refine (List.append_left_inj r).mp ?_
    rw [heq]
    simp

theorem ShowsKey.append {s : Text} (h : ShowsKey s) (t : Text) : ShowsKey (s ++ t) := by
  obtain ⟨w, gap, hne, hw, hgap, hin⟩ := h
  exact ⟨w, gap, hne, hw, hgap, hin.trans (List.prefix_append s t).isInfix⟩

theorem isLikelyJsonPayload_of_showsKey {s : Text} (h : ShowsKey s) : isLikelyJsonPayload s = true := by
  obtain ⟨w, gap, hne, hw, hgap, front, back, rfl⟩ := h
  refine isSome_search_iff.2 ⟨34 :: (w ++ 34 :: (gap ++ 58 :: back)), ⟨front, by simp⟩, List.ne_nil_of_mem (a := ((), back)) ?_⟩
  have hname {alternatives : List (Pattern UInt16 Text)} (rest : Text) :
      (w, rest) ∈ alternatives.foldr alt (alt apiKey (plus isNameUnit)) (w ++ rest) := by
    induction alternatives with
    | nil => exact List.mem_append_right _ (plus_mem hne hw rest)
    | cons m ms ih => exact List.mem_append_right _ ih
  refine mem_seq.2 ⟨_, unit_mem rfl _, mem_seq.2 ⟨_, hname _, mem_seq.2 ⟨_, unit_mem rfl _, mem_seq.2 ⟨_, star_mem hgap _, ?_⟩⟩⟩⟩
  exact mem_seq.2 ⟨_, unit_mem rfl _, List.mem_singleton_self _⟩

/-! ## Bodies in a message -/

theorem closes_concat {b : Body} {v : Text} {u : UInt16} (h : Open b v) (hu : ((b.run v).next u).stack = []) :
    Closes b (v ++ [u]) := by
  induction v generalizing b with
  | nil => rw [List.nil_append, Closes, if_pos (show (b.next u).stack = [] from hu)]
  | cons w v ih =>
    rw [List.cons_append, Closes, if_neg h.1]
    exact ih h.2 hu

/-- What a unit does to the stack. -/
theorem stack_next (b : Body) (u : UInt16) :
    (b.next u).stack = b.stack ∨ (b.next u).stack = b.stack.tail ∧ b.stack.head? = some u ∨
      ∃ close, closing u = some close ∧ (b.next u).stack = close :: b.stack := by
  unfold Body.next
  dsimp only
  cases hu : closing u with
  | none =>
    split_ifs with h₁ h₂ h₃ h₄ htop
    · exact .inl rfl
    · exact .inl rfl
    · exact .inl rfl
    · exact .inl rfl
    · exact .inr (.inl ⟨rfl, htop⟩)
    · exact .inl rfl
  | some close =>
    dsimp only
    split_ifs
    · exact .inl rfl
    · exact .inl rfl
    · exact .inl rfl
    · exact .inl rfl
    · exact .inr (.inr ⟨close, rfl, rfl⟩)

/-- Only brackets that close are on the stack. -/
theorem stack_run {b : Body} (h : ∀ c ∈ b.stack, c = 125 ∨ c = 93) (s : Text) : ∀ c ∈ (b.run s).stack, c = 125 ∨ c = 93 := by
  induction s generalizing b with
  | nil => exact h
  | cons u s ih =>
    refine ih (b := b.next u) fun c hc => ?_
    rcases stack_next b u with hstack | ⟨hstack, -⟩ | ⟨close, hclose, hstack⟩
    · exact h c (hstack ▸ hc)
    · exact h c (List.mem_of_mem_tail (hstack ▸ hc))
    · rw [hstack] at hc
      rcases List.mem_cons.1 hc with rfl | hc
      · unfold closing at hclose
        split_ifs at hclose
        · exact .inl (Option.some.inj hclose).symm
        · exact .inr (Option.some.inj hclose).symm
      · exact h c hc

/-- No bracket, no quote and no backslash stands in the text. -/
def Clean (s : Text) : Prop := ∀ u ∈ s, isNeutral u = true

/-- A body stays open in front of such a text. -/
theorem open_of_clean {b : Body} {s : Text} (hs : Clean s) (hne : b.stack ≠ []) (h : ∀ c ∈ b.stack, c = 125 ∨ c = 93) :
    Open b s := by
  induction s generalizing b with
  | nil => trivial
  | cons u s ih =>
    have hu := hs u List.mem_cons_self
    have hstack : (b.next u).stack = b.stack := by
      rcases stack_next b u with hstack | ⟨-, htop⟩ | ⟨close, hclose, -⟩
      · exact hstack
      · rcases h u (List.mem_of_head? htop) with rfl | rfl
        · cases hu
        · cases hu
      · rw [closing_of_isNeutral hu] at hclose
        cases hclose
    rw [← hstack] at hne h
    exact ⟨hne, ih (fun v hv => hs v (List.mem_cons_of_mem _ hv)) hne h⟩

/-- What is shown of a span that begins with the bracket of a body. -/
def shownBody (span : Text) : Text := if isLikelyJsonPayload span then redactedJson else span

theorem opened_between : between.holds ⟨[123], [125], false, false⟩ := ⟨rfl, rfl, by simp⟩

section Object

variable {o : Text} {ms : List (Text × Tree)} (h : Value o (.object ms) [])
include h

/-- An object is its braces and what keeps the body between them. -/
theorem object_eq : ∃ v, o = 123 :: (v ++ [125]) ∧ Keeps between v := by
  cases h with
  | emptyObject hs =>
    obtain ⟨w, rfl, -, hw⟩ := keeps_space hs
    exact ⟨w, rfl, hw⟩
  | object hms =>
    obtain ⟨v, rfl, hv⟩ := keeps_members ms hms
    exact ⟨v, rfl, hv⟩

/-- **An object between two texts.** -/
theorem pass_object {before behind : Text} (hbefore : Clean before) (hbehind : Clean behind) :
    pass none (before ++ o ++ behind) = before ++ shownBody o ++ behind := by
  obtain ⟨v, rfl, hv⟩ := object_eq h
  obtain ⟨hrun, habove⟩ := hv ⟨[123], [125], false, false⟩ opened_between
  have hclosed : Closes ⟨[123], [125], false, false⟩ (v ++ [125]) := by
    refine closes_concat (habove.open (List.cons_ne_nil _ _)) ?_
    rw [hrun]
    rfl
  have hplain (s : Text) (hs : Clean s) : ∀ u ∈ s, closing u = none := fun u hu => closing_of_isNeutral (hs u hu)
  have hrest : pass none behind = behind := by
    have hnil := pass_plain (hplain behind hbehind) []
    rwa [List.append_nil, show pass none [] = [] from rfl, List.append_nil] at hnil
  rw [List.append_assoc, pass_plain (hplain before hbefore), List.cons_append, pass_opening rfl, pass_of_closes hclosed, hrest,
    Body.shown, Body.text_run, List.append_assoc]
  rfl

/-- **An object that is cut off** takes what is behind it along. -/
theorem pass_cut {before behind p : Text} (hbefore : Clean before) (hbehind : Clean behind) (hp : p <+: o) (hne : p ≠ o)
    (hsome : p ≠ []) : pass none (before ++ p ++ behind) = before ++ shownBody (p ++ behind) := by
  obtain ⟨v, rfl, hv⟩ := object_eq h
  obtain ⟨-, habove⟩ := hv ⟨[123], [125], false, false⟩ opened_between
  cases p with
  | nil => exact absurd rfl hsome
  | cons u q =>
    obtain ⟨rfl, hq⟩ := List.cons_prefix_cons.1 hp
    -- the cut is in front of the last brace
    have hq : q <+: v := by
      rcases List.prefix_concat_iff.1 hq with rfl | hq
      · exact absurd rfl hne
      · exact hq
    obtain ⟨rest, rfl⟩ := hq
    have hopen : Open ⟨[123], [125], false, false⟩ (q ++ behind) := by
      have hfront := (above_append.1 habove).1
      refine open_append.2 ⟨hfront.open (List.cons_ne_nil _ _), open_of_clean hbehind ?_ (stack_run opened_between.2.2 q)⟩
      obtain ⟨top, htop⟩ := hfront.run List.suffix_rfl
      rw [← htop]
      exact List.append_ne_nil_of_right_ne_nil top (List.cons_ne_nil _ _)
    rw [List.append_assoc, pass_plain fun u hu => closing_of_isNeutral (hbefore u hu), List.cons_append, pass_opening rfl,
      pass_of_open hopen, Body.shown, Body.text_run]
    rfl

end Object

/-- **JSON bodies are hidden.**  An object with a key that reads as a name, at any depth and in any spelling, is replaced by the
placeholder, and one that is cut off behind such a key and its colon is replaced together with what is behind it; the messages
are then treated alike.  A second pass over the bodies finds nothing; nor does a second redaction, where the replacements find
nothing. -/
theorem bodies_hidden (before behind : Text) (hbefore : Clean before) (hbehind : Clean behind) {o : Text}
    {ms : List (Text × Tree)} (h : Value o (.object ms) []) :
    ((∃ k ∈ memberKeys ms, WordKey k) →
      redactAcpMessage (before ++ o ++ behind) = redactAcpMessage (before ++ redactedJson ++ behind)) ∧
    (∀ p, p <+: o → p ≠ o → ShowsKey p →
      redactAcpMessage (before ++ p ++ behind) = redactAcpMessage (before ++ redactedJson)) ∧
    (∀ s, redactJsonLikeBodies (redactJsonLikeBodies s) = redactJsonLikeBodies s) ∧
    ∀ s, (∀ m ∈ passes, replaceAll m id (redactJsonLikeBodies s) = redactJsonLikeBodies s) →
      redactAcpMessage (redactAcpMessage s) = redactAcpMessage s := by
  have hplaceholder (s : Text) (hs : Clean s) :
      redactJsonLikeBodies (before ++ redactedJson ++ s) = before ++ redactedJson ++ s := by
    have hnil := pass_plain (s := before ++ redactedJson ++ s) (fun u hu => ?_) []
    · rwa [List.append_nil, show pass none [] = [] from rfl, List.append_nil] at hnil
    · rcases List.mem_append.1 hu with hu | hu
      · rcases List.mem_append.1 hu with hu | hu
        · exact closing_of_isNeutral (hbefore u hu)
        · exact closing_redactedJson u hu
      · exact closing_of_isNeutral (hs u hu)
  have hshown {span : Text} (hspan : ShowsKey span) : shownBody span = redactedJson :=
    if_pos (isLikelyJsonPayload_of_showsKey hspan)
  refine ⟨?_, ?_, pass_pass, fun s hs => ?_⟩
  · rintro ⟨k, hk, hword⟩
    have hshows : ShowsKey o := showsKey_of_shown hword (by rw [List.append_nil]; exact shown_value (.object ms) h k hk)
    unfold redactAcpMessage
    rw [hplaceholder behind hbehind, redactJsonLikeBodies_eq, pass_object h hbefore hbehind, hshown hshows]
  · intro p hp hne hshows
    have hsome : p ≠ [] := by
      rintro rfl
      obtain ⟨w, gap, -, -, -, hin⟩ := hshows
      exact absurd (List.infix_nil.1 hin) (List.cons_ne_nil _ _)
    have halone := hplaceholder [] fun u hu => absurd hu List.not_mem_nil
    rw [List.append_nil] at halone
    unfold redactAcpMessage
    rw [halone, redactJsonLikeBodies_eq, pass_cut h hbefore hbehind hp hne hsome, hshown (hshows.append behind)]
  · have hquiet {ms : List (Option UInt16 → Pattern UInt16 Text)} (hms : ms ⊆ passes) :
        ms.foldl (fun out m => replaceAll m id out) (redactJsonLikeBodies s) = redactJsonLikeBodies s := by
      induction ms with
      | nil => rfl
      | cons m ms ih =>
        rw [List.foldl_cons, hs m (hms List.mem_cons_self)]
        exact ih fun m hm => hms (List.mem_cons_of_mem _ hm)
    have hsame : redactAcpMessage s = redactJsonLikeBodies s := hquiet (List.Subset.refl _)
    rw [hsame]
    unfold redactAcpMessage
    rw [redactJsonLikeBodies_eq, redactJsonLikeBodies_eq, pass_pass]
    exact hquiet (List.Subset.refl _)

/-- `{k:1}` -/
theorem value_member {cs : Text} (hcs : Chars cs) :
    Value (123 :: ((34 :: (cs ++ [34])) ++ [58, 49, 125])) (.object [(34 :: (cs ++ [34]), .number [49])]) [] :=
  .object (.last (.nil _) ⟨cs, hcs, rfl⟩ (.nil _) (.nil _)
    (.number (w := [49])
      ⟨[], [49], [], [], .inl rfl, .inr ⟨⟨List.cons_ne_nil _ _, by decide⟩, by decide⟩, .inl rfl, .inl rfl, rfl⟩)
    (.nil _))

theorem chars_of_plain {s : Text} (h : ∀ u ∈ s, 32 ≤ u ∧ u ≠ 34 ∧ u ≠ 92) : Chars s := by
  induction s with
  | nil => exact .nil
  | cons u s ih =>
    obtain ⟨h32, hq, hb⟩ := h u List.mem_cons_self
    exact .unescaped h32 hq hb (ih fun v hv => h v (List.mem_cons_of_mem _ hv))

theorem body_hidden : redactAcpMessage (text "at " ++ text "\x7b\"a\":1\x7d" ++ text " end") =
    redactAcpMessage (text "at " ++ redactedJson ++ text " end") :=
  (bodies_hidden (text "at ") (text " end") (by unfold Clean; decide) (by unfold Clean; decide)
    (value_member (chars_of_plain (s := text "a") (by decide)))).1
    ⟨_, List.mem_singleton_self _, text "a", by decide, by decide, List.suffix_rfl⟩

/-- A key with a blank gives the object away, and a placeholder reads as a secret the second time. -/
theorem blank_key_survives :
    Value (text "\x7b\"a b\":1\x7d") (.object [(text "\"a b\"", .number (text "1"))]) [] ∧
      Value (text "\x7b\"a\":1\x7d") (.object [(text "\"a\"", .number (text "1"))]) [] ∧
      redactAcpMessage (text "\x7b\"a b\":1\x7d") ≠ redactAcpMessage (text "\x7b\"a\":1\x7d") ∧
      redactAcpMessage (redactAcpMessage (text "sk-abcdefgh")) ≠ redactAcpMessage (text "sk-abcdefgh") :=
  ⟨value_member (chars_of_plain (s := text "a b") (by decide)), value_member (chars_of_plain (s := text "a") (by decide)),
    by decide +kernel, by decide +kernel⟩

end LlmGateway.Acp.Redaction
