import Mathlib.Tactic.Common

/-!
# Lines of a stream

A stream of symbols is cut at a separator, and `decode` makes a message of a line or drops it.

* `messages` — the messages of the complete lines of a text;
* `nextMessage` — the first of them with what remains behind it, or the line that is still incomplete.

Both take the beginning of the first line apart from the rest, `[]` at the start of a line.
-/

namespace LlmGateway.Lib.Lines

variable {α μ : Type*} [DecidableEq α] (sep : α) (decode : List α → Option μ)

/-- The messages of the complete lines of `line ++ text`, when `line` has no separator. -/
def messages (line : List α) : List α → List μ
  | [] => []
  | c :: text => if c = sep then (decode line).toList ++ messages [] text else messages (line ++ [c]) text

/-- The first message and the text behind its line, or the incomplete line. -/
def nextMessage (line : List α) : List α → Option μ × List α
  | [] => (none, line)
  | c :: text =>
    if c = sep then
      match decode line with
      | some m => (some m, text)
      | none => nextMessage [] text
    else nextMessage (line ++ [c]) text

variable {sep decode}

theorem nextMessage_some {line text rest : List α} {m : μ} (h : nextMessage sep decode line text = (some m, rest))
    (more : List α) : messages sep decode line (text ++ more) = m :: messages sep decode [] (rest ++ more) := by
  induction text generalizing line with
  | nil => cases h
  | cons c text ih =>
    rw [nextMessage] at h
    rw [List.cons_append, messages]
    split at h
    · next hc =>
      rw [if_pos hc]
      cases hd : decode line with
      | none =>
        rw [hd] at h
        exact ih h
      | some m' =>
        rw [hd] at h
        cases h
        rfl
    · next hc =>
      rw [if_neg hc]
      exact ih h

theorem nextMessage_none {line text rest : List α} (h : nextMessage sep decode line text = (none, rest)) (more : List α) :
    messages sep decode line (text ++ more) = messages sep decode rest more := by
  induction text generalizing line with
  | nil =>
    cases h
    rfl
  | cons c text ih =>
    rw [nextMessage] at h
    rw [List.cons_append, messages]
    split at h
    · next hc =>
      rw [if_pos hc]
      cases hd : decode line with
      | none =>
        rw [hd] at h
        exact ih h
      | some m' =>
        rw [hd] at h
        cases h
    · next hc =>
      rw [if_neg hc]
      exact ih h

theorem not_mem_nextMessage {line text rest : List α} (h : nextMessage sep decode line text = (none, rest))
    (hline : sep ∉ line) : sep ∉ rest := by
  induction text generalizing line with
  | nil =>
    cases h
    exact hline
  | cons c text ih =>
    rw [nextMessage] at h
    split at h
    · split at h
      · cases h
      · exact ih h List.not_mem_nil
    · next hc =>
      refine ih h fun hmem => ?_
      rcases List.mem_append.1 hmem with hmem | hmem
      · exact hline hmem
      · exact hc (List.mem_singleton.1 hmem).symm

/-- The symbols of an incomplete line may stand on either side. -/
theorem messages_append {text : List α} (h : sep ∉ text) (line more : List α) :
    messages sep decode line (text ++ more) = messages sep decode (line ++ text) more := by
  induction text generalizing line with
  | nil => rw [List.nil_append, List.append_nil]
  | cons c text ih =>
    obtain ⟨hc, htext⟩ := not_or.1 fun hor => h (List.mem_cons.2 hor)
    rw [List.cons_append, messages, if_neg (Ne.symm hc), ih htext, List.append_assoc, List.singleton_append]

theorem messages_of_not_mem {text : List α} (h : sep ∉ text) (line : List α) : messages sep decode line text = [] := by
  have happend := @messages_append _ _ _ _ decode _ h line []
  rwa [List.append_nil, messages] at happend

end LlmGateway.Lib.Lines
