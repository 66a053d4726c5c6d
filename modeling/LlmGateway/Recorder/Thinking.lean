import LlmGateway.Lib.ByteLength

/-!
# Thinking blocks

`truncateThinkingBlocks` (flight-recorder-runtime.ts): the blocks that are recorded of a model's thinking.

* `LeavesRoom` — behind the blocks that fit there is room for the suffix;
* `truncateThinkingBlocks_iff` — the blocks of a request are recorded within the budget exactly if there is.
-/

namespace LlmGateway.Recorder

open LlmGateway.Lib.Utf16

def MAX_THINKING_BYTES : ℕ := 1000000

def TRUNCATION_SUFFIX : Text := text "[TRUNCATED]"

def TRUNCATION_SUFFIX_BYTES : ℕ := byteLength TRUNCATION_SUFFIX

/-- How many code units of `chars` end within `budget`, behind `ended` units of `charBytes` bytes. -/
def safeEnd (budget charBytes ended : ℕ) : List Text → ℕ
  | [] => ended
  | char :: chars =>
    if budget < charBytes + byteLength char then ended
    else safeEnd budget (charBytes + byteLength char) (ended + char.length) chars

/-- What is recorded of a block that does not fit. -/
def truncateBlock (used : ℕ) (block : Text) : Text :=
  -- the subtraction ends at zero, as `Math.max(0, …)` does
  let budget := MAX_THINKING_BYTES - used - TRUNCATION_SUFFIX_BYTES
  if 0 < budget then
    let sliced := block.take (safeEnd budget 0 0 (points block))
    if sliced = [] then TRUNCATION_SUFFIX else sliced ++ TRUNCATION_SUFFIX
  else TRUNCATION_SUFFIX

def truncateFrom (used : ℕ) : List Text → List Text
  | [] => []
  | block :: blocks =>
    if used + byteLength block ≤ MAX_THINKING_BYTES then block :: truncateFrom (used + byteLength block) blocks
    else [truncateBlock used block]

def truncateThinkingBlocks (blocks : List Text) : List Text := truncateFrom 0 blocks

/-! ## What is recorded -/

def bytes (blocks : List Text) : ℕ := (blocks.map byteLength).sum

@[simp] theorem bytes_cons (block : Text) (blocks : List Text) : bytes (block :: blocks) = byteLength block + bytes blocks := rfl

@[simp] theorem bytes_append (front rest : List Text) : bytes (front ++ rest) = bytes front + bytes rest := by
  simp [bytes]

/-- A beginning of a text that ends between two of its code points. -/
def PointPrefix (t s : Text) : Prop := ∃ front, front <+: points s ∧ t = front.flatten

/-- The blocks are recorded within the budget: all of them, or those in front of one that is cut between two code points. -/
structure Recorded (blocks result : List Text) : Prop where
  within : bytes result ≤ MAX_THINKING_BYTES
  cut : result <+: blocks ∨ ∃ front block rest t, blocks = front ++ block :: rest ∧ PointPrefix t block ∧
    result = front ++ [t ++ TRUNCATION_SUFFIX]
  same : result = blocks ↔ bytes blocks ≤ MAX_THINKING_BYTES

/-- In front of a block that does not fit there is room for the suffix. -/
def LeavesRoom (blocks : List Text) : Prop :=
  ∀ front block rest, blocks = front ++ block :: rest → bytes front ≤ MAX_THINKING_BYTES →
    MAX_THINKING_BYTES < bytes front + byteLength block → bytes front + TRUNCATION_SUFFIX_BYTES ≤ MAX_THINKING_BYTES

/-! ## The loops -/

/-- The loop ends behind a beginning of the code points that fits. -/
theorem safeEnd_spec {budget charBytes : ℕ} (ended : ℕ) (chars : List Text) (h : charBytes ≤ budget) :
    ∃ front, front <+: chars ∧ safeEnd budget charBytes ended chars = ended + front.flatten.length ∧
      charBytes + bytes front ≤ budget := by
  induction chars generalizing charBytes ended with
  | nil => exact ⟨[], List.prefix_rfl, rfl, h⟩
  | cons char chars ih =>
    rw [safeEnd]
    split
    · exact ⟨[], List.nil_prefix, rfl, h⟩
    · next hfits =>
      obtain ⟨front, hprefix, hend, hbytes⟩ := ih (ended + char.length) (Nat.le_of_not_lt hfits)
      refine ⟨char :: front, List.prefix_cons_inj char |>.2 hprefix, ?_, ?_⟩
      · rw [hend, List.flatten_cons, List.length_append, Nat.add_assoc]
      · rw [bytes_cons]
        omega

theorem byteLength_suffix (t : Text) : byteLength (t ++ TRUNCATION_SUFFIX) = byteLength t + TRUNCATION_SUFFIX_BYTES := by
  have hhead : TRUNCATION_SUFFIX.head? = some 91 := rfl
  refine byteLength_append_of_head fun u hu => ?_
  obtain rfl := Option.some.inj (hhead.symm.trans hu)
  rfl

/-- **The block that is cut**: a beginning of it that leaves room for the suffix, as far as there is any. -/
theorem truncateBlock_spec (used : ℕ) (block : Text) :
    ∃ t, PointPrefix t block ∧ truncateBlock used block = t ++ TRUNCATION_SUFFIX ∧
      byteLength t ≤ MAX_THINKING_BYTES - used - TRUNCATION_SUFFIX_BYTES := by
  have hnone : PointPrefix [] block := ⟨[], List.nil_prefix, rfl⟩
  unfold truncateBlock
  extract_lets budget sliced
  obtain ⟨front, hprefix, hend, hbytes⟩ := safeEnd_spec 0 (points block) (Nat.zero_le budget)
  have hsliced : sliced = front.flatten := by
    obtain ⟨rest, hrest⟩ := hprefix
    have hblock : block = front.flatten ++ rest.flatten := by rw [← List.flatten_append, hrest, flatten_points]
    dsimp only [sliced]
    rw [hend, Nat.zero_add, hblock]
    exact List.take_left
  split
  · refine ⟨sliced, ⟨front, hprefix, hsliced⟩, ?_, ?_⟩
    · split
      · next hempty =>
        rw [hempty]
        rfl
      · rfl
    · rw [hsliced]
      refine (byteLength_flatten_le front).trans ?_
      rwa [Nat.zero_add] at hbytes
  · exact ⟨[], hnone, rfl, Nat.zero_le _⟩

/-- **Where the loop stops**, behind blocks that fit. -/
theorem truncateFrom_of_split {used : ℕ} {front : List Text} {block : Text} (rest : List Text)
    (hfits : used + bytes front ≤ MAX_THINKING_BYTES) (hover : MAX_THINKING_BYTES < used + bytes front + byteLength block) :
    truncateFrom used (front ++ block :: rest) = front ++ [truncateBlock (used + bytes front) block] := by
  induction front generalizing used with
  | nil =>
    have hover : MAX_THINKING_BYTES < used + byteLength block := hover
    rw [List.nil_append, truncateFrom, if_neg (Nat.not_le_of_lt hover)]
    rfl
  | cons first front ih =>
    rw [bytes_cons, ← Nat.add_assoc] at hfits hover
    rw [List.cons_append, truncateFrom, if_pos (by omega), ih hfits hover, bytes_cons, Nat.add_assoc]
    rfl

/-- All blocks fit, or there is a first one that does not. -/
theorem split_of_over {used : ℕ} (blocks : List Text) (hused : used ≤ MAX_THINKING_BYTES) :
    (used + bytes blocks ≤ MAX_THINKING_BYTES ∧ truncateFrom used blocks = blocks) ∨
      ∃ front block rest, blocks = front ++ block :: rest ∧ used + bytes front ≤ MAX_THINKING_BYTES ∧
        MAX_THINKING_BYTES < used + bytes front + byteLength block := by
  induction blocks generalizing used with
  | nil => exact .inl ⟨hused, rfl⟩
  | cons first blocks ih =>
    by_cases hfits : used + byteLength first ≤ MAX_THINKING_BYTES
    · rcases ih hfits with ⟨hbytes, hsame⟩ | ⟨front, block, rest, rfl, hfront, hover⟩
      · refine .inl ⟨?_, ?_⟩
        · rwa [bytes_cons, ← Nat.add_assoc]
        · rw [truncateFrom, if_pos hfits, hsame]
      · refine .inr ⟨first :: front, block, rest, rfl, ?_, ?_⟩
        · rwa [bytes_cons, ← Nat.add_assoc]
        · rwa [bytes_cons, ← Nat.add_assoc]
    · exact .inr ⟨[], first, blocks, rfl, hused, Nat.lt_of_not_le hfits⟩

/-- How many bytes are recorded where a block does not fit: at least those in front of it, and of the suffix. -/
theorem bytes_truncateThinkingBlocks (front : List Text) (block : Text) (rest : List Text)
    (hfits : bytes front ≤ MAX_THINKING_BYTES) (hover : MAX_THINKING_BYTES < bytes front + byteLength block) :
    ∃ t, PointPrefix t block ∧ truncateThinkingBlocks (front ++ block :: rest) = front ++ [t ++ TRUNCATION_SUFFIX] ∧
      byteLength t ≤ MAX_THINKING_BYTES - bytes front - TRUNCATION_SUFFIX_BYTES ∧
      bytes (truncateThinkingBlocks (front ++ block :: rest)) = bytes front + (byteLength t + TRUNCATION_SUFFIX_BYTES) := by
  have hstop := @truncateFrom_of_split 0 front block rest (by rwa [Nat.zero_add]) (by rwa [Nat.zero_add])
  rw [Nat.zero_add] at hstop
  obtain ⟨t, hprefix, hblock, hroom⟩ := truncateBlock_spec (bytes front) block
  rw [hblock] at hstop
  refine ⟨t, hprefix, hstop, hroom, ?_⟩
  unfold truncateThinkingBlocks
  rw [hstop, bytes_append, bytes_cons, byteLength_suffix]
  rfl

/-- **The budget is kept exactly where there is room for the suffix.** -/
theorem truncateThinkingBlocks_iff (blocks : List Text) :
    Recorded blocks (truncateThinkingBlocks blocks) ↔ LeavesRoom blocks := by
  constructor
  · rintro ⟨hwithin, -, -⟩ front block rest rfl hfits hover
    obtain ⟨t, -, -, -, hbytes⟩ := bytes_truncateThinkingBlocks front block rest hfits hover
    rw [hbytes] at hwithin
    omega
  · intro hroom
    rcases split_of_over blocks (Nat.zero_le MAX_THINKING_BYTES) with ⟨hbytes, hsame⟩ | ⟨front, block, rest, rfl, hfits, hover⟩
    · have hsame : truncateThinkingBlocks blocks = blocks := hsame
      rw [Nat.zero_add] at hbytes
      exact ⟨by rwa [hsame], .inl (by rw [hsame]), by simp only [hsame, hbytes]⟩
    · rw [Nat.zero_add] at hfits hover
      obtain ⟨t, hprefix, hresult, hleft, hbytes⟩ := bytes_truncateThinkingBlocks front block rest hfits hover
      have hwithin : bytes (truncateThinkingBlocks (front ++ block :: rest)) ≤ MAX_THINKING_BYTES := by
        have := hroom front block rest rfl hfits hover
        omega
      refine ⟨hwithin, .inr ⟨front, block, rest, t, rfl, hprefix, hresult⟩, ?_, ?_⟩
      · intro hsame
        rwa [hsame] at hwithin
      · intro hall
        -- the block did not fit
        rw [bytes_append, bytes_cons] at hall
        omega

/-- Five bytes are left in front of the second block, and the suffix has eleven. -/
def overfull : List Text := [List.replicate 999995 97, List.replicate 10 98]

theorem not_recorded_overfull : ¬Recorded overfull (truncateThinkingBlocks overfull) := by
  have hascii : ∀ (n : ℕ) {u : UInt16}, u < 0x80 → byteLength (List.replicate n u) = n := by
    intro n u hu
    rw [byteLength_of_ascii, List.length_replicate]
    intro v hv
    rwa [List.eq_of_mem_replicate hv]
  have hone : ∀ t, bytes [t] = byteLength t := fun t => Nat.add_zero _
  have hfront : bytes [List.replicate 999995 97] = 999995 := by rw [hone, hascii _ (by decide)]
  have hblock : byteLength (List.replicate 10 98) = 10 := hascii 10 (by decide)
  have hsuffix : TRUNCATION_SUFFIX_BYTES = 11 := by decide
  obtain ⟨t, -, -, -, hbytes⟩ := bytes_truncateThinkingBlocks [List.replicate 999995 97] (List.replicate 10 98) []
    (by rw [hfront]; decide) (by rw [hfront, hblock]; decide)
  intro h
  have hwithin := h.within
  have hmax : MAX_THINKING_BYTES = 1000000 := rfl
  have htotal : bytes (truncateThinkingBlocks overfull) = 999995 + (byteLength t + 11) := by
    rw [← hfront, ← hsuffix]
    exact hbytes
  omega

end LlmGateway.Recorder
