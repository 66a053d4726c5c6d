import LlmGateway.Lib.ByteLength
import LlmGateway.Lib.Trim
import LlmGateway.Progress.Tracker
import Mathlib.Data.List.Chain

/-!
# The messages of events

* `clean_normalize` — what normalizing a text gives; `normalize_of_clean` — it then stays as it is;
* `projectEventMessage_idem` — reading a stored message back does not change it.
-/

namespace LlmGateway.Progress

open Lib Lib.Utf16

/-- Not both of them are white space. -/
def Apart (u v : UInt16) : Prop := isSpace u = false ∨ isSpace v = false

structure Clean (s : Text) : Prop where
  breaks : ∀ u ∈ s, isBreak u = false
  single : s.IsChain Apart
  head : ∀ u ∈ s.head?, isSpace u = false
  last : ∀ u ∈ s.getLast?, isSpace u = false

/-! ## Normalizing -/

theorem mem_joinBreaks {u : UInt16} {s : Text} (h : u ∈ joinBreaks s) : isBreak u = false ∧ (u = 32 ∨ u ∈ s) := by
  induction s with
  | nil => cases h
  | cons v s ih =>
    unfold joinBreaks at h
    split at h
    · split at h
      · exact ⟨(ih h).1, (ih h).2.imp_right (List.mem_cons_of_mem _)⟩
      · rcases List.mem_cons.1 h with rfl | h
        · exact ⟨by decide, .inl rfl⟩
        · exact ⟨(ih h).1, (ih h).2.imp_right (List.mem_cons_of_mem _)⟩
    · next hv =>
      rcases List.mem_cons.1 h with rfl | h
      · exact ⟨eq_false_of_ne_true hv, .inr List.mem_cons_self⟩
      · exact ⟨(ih h).1, (ih h).2.imp_right (List.mem_cons_of_mem _)⟩

theorem mem_joinSpaces {u : UInt16} {s : Text} {run : Bool} (h : u ∈ joinSpaces run s) : u = 32 ∨ u ∈ s := by
  induction s generalizing run with
  | nil => cases h
  | cons v s ih =>
    unfold joinSpaces at h
    split at h
    · split at h
      · exact (ih h).imp_right (List.mem_cons_of_mem _)
      · rcases List.mem_cons.1 h with rfl | h
        · cases run
          · exact .inr List.mem_cons_self
          · exact .inl rfl
        · exact (ih h).imp_right (List.mem_cons_of_mem _)
    · rcases List.mem_cons.1 h with rfl | h
      · exact .inr List.mem_cons_self
      · exact (ih h).imp_right (List.mem_cons_of_mem _)

theorem head_joinSpaces {s : Text} {run : Bool} (h : s.head?.any isSpace = false) :
    ∀ u ∈ (joinSpaces run s).head?, isSpace u = false := by
  cases s with
  | nil => exact fun u hu => nomatch hu
  | cons v s =>
    have hv : isSpace v = false := h
    intro u hu
    rw [joinSpaces, if_neg (by simp [hv])] at hu
    obtain rfl := Option.some.inj hu
    exact hv

theorem isChain_joinSpaces (run : Bool) (s : Text) : (joinSpaces run s).IsChain Apart := by
  induction s generalizing run with
  | nil => exact .nil
  | cons v s ih =>
    unfold joinSpaces
    split
    · split
      · exact ih true
      · next hnext => exact (ih false).cons fun u hu => .inr (head_joinSpaces (eq_false_of_ne_true hnext) u hu)
    · next hv => exact (ih false).cons fun _ _ => .inl (eq_false_of_ne_true hv)

theorem mem_normalize {u : UInt16} {s : Text} (h : u ∈ normalize s) : isBreak u = false ∧ (u = 32 ∨ u ∈ s) := by
  have hjoin := mem_joinSpaces ((isInfix_trim _).subset h)
  rcases hjoin with rfl | hjoin
  · exact ⟨by decide, .inl rfl⟩
  · exact mem_joinBreaks hjoin

/-- **What normalizing gives.** -/
theorem clean_normalize (s : Text) : Clean (normalize s) where
  breaks := fun _ hu => (mem_normalize hu).1
  single := List.IsChain.infix (isChain_joinSpaces false (joinBreaks s)) (isInfix_trim _)
  head := head_of_trim _
  last := last_of_trim _

theorem joinBreaks_of_clean {s : Text} (h : ∀ u ∈ s, isBreak u = false) : joinBreaks s = s := by
  induction s with
  | nil => rfl
  | cons u s ih =>
    have hu := h u List.mem_cons_self
    rw [joinBreaks, if_neg (by simp [hu]), ih fun v hv => h v (List.mem_cons_of_mem _ hv)]

theorem joinSpaces_of_single {s : Text} (h : s.IsChain Apart) : joinSpaces false s = s := by
  induction s with
  | nil => rfl
  | cons u s ih =>
    obtain ⟨hnext, hs⟩ := List.isChain_cons.1 h
    rw [joinSpaces, ih hs]
    split
    · next hu =>
      rw [if_neg, if_neg Bool.false_ne_true]
      intro hany
      obtain ⟨v, hv, hspace⟩ := (Option.any_eq_true _ _).1 hany
      rcases hnext v hv with h | h
      · rw [h] at hu
        cases hu
      · rw [h] at hspace
        cases hspace
    · rfl

theorem normalize_of_clean {s : Text} (h : Clean s) : normalize s = s := by
  rw [normalize, joinBreaks_of_clean h.breaks, joinSpaces_of_single h.single, trim_of_ends h.head h.last]

/-! ## Truncating -/

theorem byteLength_take_cut (value : Text) (max n : ℕ) : byteLength (value.take (cut value max n)) ≤ max - 3 := by
  induction n with
  | zero => exact Nat.zero_le _
  | succ n ih =>
    unfold cut
    split
    · exact ih
    · next h => exact Nat.not_lt.1 h

theorem byteLength_truncateUtf8 (value : Text) {max : ℕ} (hmax : 3 ≤ max) : byteLength (truncateUtf8 value max) ≤ max := by
  unfold truncateUtf8
  split
  · next h => exact h
  · have hcut := byteLength_take_cut value max value.length
    have hdots : byteLength (text "...") = 3 := by decide
    have happend := byteLength_append_le (value.take (cut value max value.length)) (text "...")
    omega

theorem mem_truncateUtf8 {u : UInt16} {value : Text} {max : ℕ} (h : u ∈ truncateUtf8 value max) : u = 46 ∨ u ∈ value := by
  unfold truncateUtf8 at h
  split at h
  · exact .inr h
  · rcases List.mem_append.1 h with h | h
    · exact .inr ((List.take_sublist _ _).subset h)
    · have hdots : ∀ v ∈ text "...", v = 46 := by decide
      exact .inl (hdots u h)

/-- What is cut off stays clean: the dots are no white space. -/
theorem clean_truncateUtf8 {value : Text} (h : Clean value) (max : ℕ) : Clean (truncateUtf8 value max) := by
  have hdots : ∀ v ∈ text "...", isSpace v = false := by decide
  unfold truncateUtf8
  split
  · exact h
  · set n := cut value max value.length
    refine ⟨?_, ?_, ?_, ?_⟩
    · intro u hu
      rcases List.mem_append.1 hu with hu | hu
      · exact h.breaks u ((List.take_sublist _ _).subset hu)
      · have hbreaks : ∀ v ∈ text "...", isBreak v = false := by decide
        exact hbreaks u hu
    · refine List.IsChain.append ( List.IsChain.infix h.single (List.take_prefix _ _).isInfix) ?_ ?_
      · have hall : ∀ l : Text, (∀ v ∈ l, isSpace v = false) → l.IsChain Apart := by
          intro l
          induction l with
          | nil => exact fun _ => .nil
          | cons v l ih =>
            intro hl
            exact (ih fun w hw => hl w (List.mem_cons_of_mem _ hw)).cons fun _ _ => .inl (hl v List.mem_cons_self)
        exact hall _ hdots
      · exact fun u _ v hv => .inr (hdots v (List.mem_of_mem_head? hv))
    · intro u hu
      rw [List.head?_append, Option.mem_def, Option.or_eq_some_iff] at hu
      rcases hu with hu | ⟨-, hu⟩
      · refine h.head u ?_
        cases value with
        | nil => simp at hu
        | cons v value =>
          cases hn : n with
          | zero =>
            rw [hn] at hu
            cases hu
          | succ m =>
            rw [hn] at hu
            exact hu
      · exact hdots u (List.mem_of_mem_head? hu)
    · intro u hu
      rw [List.getLast?_append, Option.mem_def, Option.or_eq_some_iff] at hu
      rcases hu with hu | ⟨hnone, -⟩
      · exact hdots u (List.mem_of_mem_getLast? hu)
      · cases hnone

theorem truncateUtf8_ne_nil {value : Text} (h : value ≠ []) (max : ℕ) : truncateUtf8 value max ≠ [] := by
  unfold truncateUtf8
  split
  · exact h
  · intro hnil
    have := (List.append_eq_nil_iff.1 hnil).2
    cases this

/-! ## The message of an event -/

theorem byteLength_safeMessage (value : Text) : byteLength (safeMessage value) ≤ MAX_EVENT_MESSAGE_BYTES :=
  byteLength_truncateUtf8 _ (by decide)

/-- A character of a message is in the text, or one of `safeMessage`'s own. -/
theorem not_mem_safeMessage {value : Text} (h : (0 : UInt16) ∉ value) : (0 : UInt16) ∉ safeMessage value := by
  intro hmem
  rcases mem_truncateUtf8 hmem with h0 | hmem
  · cases h0
  · split at hmem
    · revert hmem
      decide
    · rcases (mem_normalize hmem).2 with h0 | hmem
      · cases h0
      · exact h hmem

theorem clean_safeMessage (value : Text) : Clean (safeMessage value) ∧ safeMessage value ≠ [] := by
  unfold safeMessage
  split
  · have hnormal : normalize (text "Provider activity") = text "Provider activity" := by decide
    have hclean := clean_normalize (text "Provider activity")
    rw [hnormal] at hclean
    exact ⟨clean_truncateUtf8 hclean _, truncateUtf8_ne_nil (by decide) _⟩
  · next hne => exact ⟨clean_truncateUtf8 (clean_normalize value) _, truncateUtf8_ne_nil hne _⟩

/-- **A message stays as it is.** -/
theorem safeMessage_idem (value : Text) : safeMessage (safeMessage value) = safeMessage value := by
  obtain ⟨hclean, hne⟩ := clean_safeMessage value
  have hnormal := normalize_of_clean hclean
  have hfits := byteLength_safeMessage value
  generalize safeMessage value = m at hclean hne hnormal hfits ⊢
  rw [safeMessage, hnormal, if_neg hne, truncateUtf8, if_pos hfits]

section Event
variable (kind : JobProgressKind) (source : Source) (value : Text)

theorem projectEventMessage_idem :
    projectEventMessage kind source (projectEventMessage kind source value) = projectEventMessage kind source value := by
  unfold projectEventMessage
  split
  · rfl
  · exact safeMessage_idem value

theorem byteLength_projectEventMessage : byteLength (projectEventMessage kind source value) ≤ MAX_EVENT_MESSAGE_BYTES := by
  unfold projectEventMessage
  split
  · decide
  · exact byteLength_safeMessage value

theorem not_mem_projectEventMessage {value : Text} (h : (0 : UInt16) ∉ value) :
    (0 : UInt16) ∉ projectEventMessage kind source value := by
  unfold projectEventMessage
  split
  · decide
  · exact not_mem_safeMessage h

end Event

end LlmGateway.Progress
