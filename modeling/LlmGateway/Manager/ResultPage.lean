import LlmGateway.Lib.Substring
import LlmGateway.Lib.Utf16
import Mathlib.Data.Int.Init

/-!
# `getJobResult`: pages of captured output, and the redaction of a session id on them

* `shownPositions` — the positions of the full text that a redacted page still shows: the redaction run on the
  positions of the page in place of its characters (`redactKnownTextPage_eq_render`);
* `hidesSessionId_iff` — what a reader of all pages sees of the session id.
-/

namespace LlmGateway.Manager.ResultPage

open LlmGateway.Lib.Substring LlmGateway.Lib.Utf16

variable {α β γ : Type*}

structure PageText (α : Type*) where
  text : List α
  truncated : Bool
  offsetChars : ℕ
  totalChars : ℕ
  nextOffsetChars : Option ℕ
deriving DecidableEq

def pageText (value : List α) (maxChars : ℕ) (requestedOffsetChars : ℤ) : PageText α :=
  let offsetChars := min requestedOffsetChars.toNat value.length
  let endOffsetChars := min value.length (offsetChars + maxChars)
  { text := slice value offsetChars endOffsetChars
    truncated := endOffsetChars < value.length
    offsetChars := offsetChars
    totalChars := value.length
    nextOffsetChars := if endOffsetChars < value.length then some endOffsetChars else none }

section redact
variable [DecidableEq α] (marker page : List β) (offsetChars : ℕ) (fullText secret : List α)

/-- The loop over the matches; it returns `cursor` and `redacted`. -/
def redactLoop : ℕ → Option ℕ → ℕ → List β → ℕ × List β
  | 0, _, cursor, redacted => (cursor, redacted)
  | _ + 1, none, cursor, redacted => (cursor, redacted)
  | fuel + 1, some matchOffset, cursor, redacted =>
    let pageEnd := offsetChars + page.length
    let matchEnd := matchOffset + secret.length
    let overlapStart := max offsetChars matchOffset
    let overlapEnd := min pageEnd matchEnd
    let next := indexOf fullText secret (matchOffset + secret.length)
    if overlapStart < overlapEnd then
      redactLoop fuel next (overlapEnd - offsetChars)
        (redacted ++ slice page cursor (overlapStart - offsetChars) ++ marker)
    else redactLoop fuel next cursor redacted

/-- The redaction, for pages of any type of element; there are at most `fullText.length` matches. -/
def redactPage : List β :=
  if page.isEmpty || secret.isEmpty then page
  else
    let r := redactLoop marker page offsetChars fullText secret fullText.length (indexOf fullText secret 0) 0 []
    if r.1 = 0 then page else r.2 ++ page.drop r.1

end redact

def redactedSessionId : Text := text "[redacted-session-id]"

def redactKnownTextPage (page : Text) (offsetChars : ℕ) (fullText secret : Text) : Text :=
  redactPage redactedSessionId page offsetChars fullText secret

def personalKitOutputWithheld : Text := text
  "Personal Agent Config Kit provider output is withheld from durable job history"

inductive Transport
  | process
  | http
deriving DecidableEq

/-- The fields of a job that the page part of `getJobResult` reads; `outputSessionId` is what
`extractProviderOutputMetadata` finds in `stdout`. -/
structure Job where
  transport : Transport
  kitExecution : Bool
  kitOutputAvailableInMemory : Option Bool
  stdout : Text
  stderr : Text
  outputSessionId : Option Text

structure AsyncJobResult where
  stdout : PageText UInt16
  stderr : PageText UInt16

/-- `sessionId ? redactKnownTextPage(page.text, …) : page.text` -/
def redactedPage (sessionId : Option Text) (fullText : Text) (page : PageText UInt16) : PageText UInt16 :=
  match sessionId with
  | none => page
  | some id =>
    if id.isEmpty then page
    else { page with text := redactKnownTextPage page.text page.offsetChars fullText id }

def Job.durableKitResult (job : Job) : Bool := job.kitExecution && job.kitOutputAvailableInMemory == some false

def Job.fullStdout (job : Job) : Text := if job.durableKitResult then personalKitOutputWithheld else job.stdout

def Job.fullStderr (job : Job) : Text := if job.durableKitResult then [] else job.stderr

/-- The session id that is redacted. -/
def Job.sessionId (job : Job) (redactProviderSessionIds : Bool) : Option Text :=
  if redactProviderSessionIds && !job.kitExecution && job.transport == .process then job.outputSessionId else none

def getJobResult (job : Job) (maxChars : ℕ) (stdoutOffsetChars stderrOffsetChars : ℤ)
    (redactProviderSessionIds : Bool) : AsyncJobResult :=
  let stdout := pageText job.fullStdout maxChars stdoutOffsetChars
  let stderr := pageText job.fullStderr maxChars stderrOffsetChars
  let sessionId := job.sessionId redactProviderSessionIds
  { stdout := redactedPage sessionId job.fullStdout stdout
    stderr := redactedPage sessionId job.fullStderr stderr }

inductive Stream
  | stdout
  | stderr
deriving DecidableEq

def Job.fullText (job : Job) : Stream → Text
  | .stdout => job.fullStdout
  | .stderr => job.fullStderr

/-- One page of one of the two streams. -/
def resultPage (job : Job) (redactProviderSessionIds : Bool) (maxChars : ℕ) (stream : Stream) (offset : ℤ) :
    PageText UInt16 :=
  match stream with
  | .stdout => (getJobResult job maxChars offset 0 redactProviderSessionIds).stdout
  | .stderr => (getJobResult job maxChars 0 offset redactProviderSessionIds).stderr

/-- The pages from `offset` on, each requested at the `nextOffsetChars` of the one before. -/
def followPages (page : ℤ → PageText UInt16) : ℕ → ℤ → List (PageText UInt16)
  | 0, _ => []
  | fuel + 1, offset =>
    page offset :: match (page offset).nextOffsetChars with
      | none => []
      | some next => followPages page fuel next

def readPages (job : Job) (redactProviderSessionIds : Bool) (maxChars : ℕ) (stream : Stream) (offset : ℤ) :
    List (PageText UInt16) :=
  followPages (resultPage job redactProviderSessionIds maxChars stream) ((job.fullText stream).length + 1) offset

/-! ### The positions a page shows -/

/-- What a shown position, or the marker, looks like. -/
def render (fullText : Text) : Option ℕ → Text
  | none => redactedSessionId
  | some i => [fullText.getD i 0]

/-- The redaction, run on the positions of a page in place of its characters. -/
def shownPositions (fullText secret : Text) (offsetChars len : ℕ) : List (Option ℕ) :=
  redactPage [none] ((List.range' offsetChars len).map some) offsetChars fullText secret

section natural
variable [DecidableEq α] {fullText secret : List α} {offsetChars : ℕ}

theorem flatMap_map_some (marker : List β) (g : γ → β) (l : List γ) :
    ((l.map some).flatMap fun o => o.elim marker fun x => [g x]) = l.map g := by
  rw [List.flatMap_map, List.map_eq_flatMap]
  rfl

theorem redactLoop_flatMap (marker : List β) (g : γ → β) (page : List γ) (fuel : ℕ) (matchOffset : Option ℕ)
    (cursor : ℕ) (redacted : List (Option γ)) :
    redactLoop marker (page.map g) offsetChars fullText secret fuel matchOffset cursor
        (redacted.flatMap fun o => o.elim marker fun x => [g x]) =
      ((redactLoop [none] (page.map some) offsetChars fullText secret fuel matchOffset cursor redacted).1,
        (redactLoop [none] (page.map some) offsetChars fullText secret fuel matchOffset cursor
          redacted).2.flatMap fun o => o.elim marker fun x => [g x]) := by
  induction fuel generalizing matchOffset cursor redacted with
  | zero => rfl
  | succ fuel ih =>
    cases matchOffset with
    | none => rfl
    | some matchOffset =>
      simp only [redactLoop, List.length_map]
      split
      · rw [← ih, List.flatMap_append, List.flatMap_append, ← map_slice, ← map_slice, flatMap_map_some]
        simp
      · exact ih _ _ _

theorem redactPage_flatMap (marker : List β) (g : γ → β) (page : List γ) :
    redactPage marker (page.map g) offsetChars fullText secret =
      (redactPage [none] (page.map some) offsetChars fullText secret).flatMap fun o =>
        o.elim marker fun x => [g x] := by
  have hloop := @redactLoop_flatMap α β γ _ fullText secret offsetChars marker g page fullText.length
    (indexOf fullText secret 0) 0 []
  rw [List.flatMap_nil] at hloop
  simp only [redactPage, List.isEmpty_map, hloop]
  split
  · exact (flatMap_map_some marker g page).symm
  · split
    · exact (flatMap_map_some marker g page).symm
    · rw [List.flatMap_append, ← List.map_drop, ← List.map_drop, flatMap_map_some]

end natural

/-! ### The shown positions are the uncovered ones -/

theorem filterMap_map_some (l : List α) : (l.map some).filterMap id = l := by
  rw [List.filterMap_map]
  exact List.filterMap_some

theorem slice_range' {a len i j : ℕ} (hj : j ≤ len) :
    slice (List.range' a len) i j = List.range' (a + i) (j - i) := by
  apply List.ext_getElem?
  intro n
  simp only [slice, List.getElem?_drop, List.getElem?_take]
  grind

section positions
variable {fullText secret : List α} {offsetChars len : ℕ}

variable [DecidableEq α]

/-- The matches before the `n`-th lie outside the part of the page from `cursor` on. -/
def Passed (fullText secret : List α) (n i : ℕ) : Prop :=
  ∀ k < n, ∀ m, hitAt secret fullText k = some m → ¬(m ≤ i ∧ i < m + secret.length)

theorem Passed.not_covered_of_none {n i : ℕ} (h : Passed fullText secret n i) (hn : hitAt secret fullText n = none) :
    ¬Covered secret fullText i := by
  rintro ⟨m, ⟨k, hk⟩, hm⟩
  by_cases hlt : k < n
  · exact h k hlt m hk hm
  · have := hitAt_none_of_le hn (Nat.le_of_not_lt hlt)
    rw [hk] at this
    cases this

theorem Passed.not_covered (hsecret : secret ≠ []) {n i m : ℕ} (h : Passed fullText secret n i)
    (hn : hitAt secret fullText n = some m) (hi : i < m) : ¬Covered secret fullText i := by
  rintro ⟨m', ⟨k, hk⟩, hm'⟩
  rcases Nat.lt_trichotomy k n with hlt | rfl | hlt
  · exact h k hlt m' hk hm'
  · rw [hn] at hk
    injection hk with hk
    omega
  · have := hitAt_lt hsecret hn hk hlt
    omega

theorem Passed.succ {n i m : ℕ} (h : Passed fullText secret n i) (hn : hitAt secret fullText n = some m)
    (hi : ¬(m ≤ i ∧ i < m + secret.length)) : Passed fullText secret (n + 1) i := by
  intro k hk m' hm'
  rcases Nat.lt_or_eq_of_le (Nat.le_of_lt_succ hk) with hlt | rfl
  · exact h k hlt m' hm'
  · rw [hn] at hm'
    injection hm' with hm'
    rwa [← hm']

variable [DecidablePred (Covered secret fullText)]

/-- The positions from `a` on, `n` of them, that no hit covers. -/
def uncovered (fullText secret : List α) [DecidablePred (Covered secret fullText)] (a n : ℕ) : List ℕ :=
  (List.range' a n).filter fun i => ¬Covered secret fullText i

theorem uncovered_add (a m n : ℕ) :
    uncovered fullText secret a (m + n) = uncovered fullText secret a m ++ uncovered fullText secret (a + m) n := by
  rw [uncovered, ← List.range'_append_1, List.filter_append]
  rfl

theorem uncovered_eq_range' {a n : ℕ} (h : ∀ i, a ≤ i → i < a + n → ¬Covered secret fullText i) :
    uncovered fullText secret a n = List.range' a n := by
  refine List.filter_eq_self.2 fun i hi => ?_
  rw [List.mem_range'_1] at hi
  exact decide_eq_true (h i hi.1 hi.2)

theorem uncovered_eq_nil {a n : ℕ} (h : ∀ i, a ≤ i → i < a + n → Covered secret fullText i) :
    uncovered fullText secret a n = [] := by
  refine List.filter_eq_nil_iff.2 fun i hi => ?_
  rw [List.mem_range'_1] at hi
  simpa using h i hi.1 hi.2

/-- The loop at its `n`-th match, with the page shown up to `cursor`. -/
structure Invariant (fullText secret : List α) [DecidablePred (Covered secret fullText)]
    (offsetChars len n cursor : ℕ) (redacted : List (Option ℕ)) : Prop where
  cursor_le : cursor ≤ len
  shown : redacted.filterMap id = uncovered fullText secret offsetChars cursor
  passed : ∀ i, offsetChars + cursor ≤ i → i < offsetChars + len → Passed fullText secret n i
  ahead : ∀ m, hitAt secret fullText n = some m → offsetChars + cursor ≤ max offsetChars m

/-- A match that lies outside the page. -/
theorem Invariant.skip (hsecret : secret ≠ []) {n m cursor : ℕ} {redacted : List (Option ℕ)}
    (h : Invariant fullText secret offsetChars len n cursor redacted) (hn : hitAt secret fullText n = some m)
    (hout : ¬max offsetChars m < min (offsetChars + len) (m + secret.length)) :
    Invariant fullText secret offsetChars len (n + 1) cursor redacted where
  cursor_le := h.cursor_le
  shown := h.shown
  passed := fun i hi hlt => (h.passed i hi hlt).succ hn (by omega)
  ahead := fun m' hm' => by
    have hnext := hitAt_lt hsecret hn hm' (Nat.lt_succ_self n)
    have := h.ahead m hn
    omega

/-- A match that overlaps the page. -/
theorem Invariant.hide (hsecret : secret ≠ []) {n m cursor : ℕ} {redacted : List (Option ℕ)}
    (h : Invariant fullText secret offsetChars len n cursor redacted) (hn : hitAt secret fullText n = some m)
    (hin : max offsetChars m < min (offsetChars + len) (m + secret.length)) :
    Invariant fullText secret offsetChars len (n + 1) (min (offsetChars + len) (m + secret.length) - offsetChars)
      (redacted ++ slice ((List.range' offsetChars len).map some) cursor (max offsetChars m - offsetChars) ++ [none])
    where
  cursor_le := by omega
  shown := by
    have hahead := h.ahead m hn
    -- up to the match nothing more is covered; the rest of the new part is the match itself
    have hsplit : min (offsetChars + len) (m + secret.length) - offsetChars =
        cursor + ((max offsetChars m - offsetChars - cursor) +
          (min (offsetChars + len) (m + secret.length) - max offsetChars m)) := by
      omega
    have hfree : uncovered fullText secret (offsetChars + cursor) (max offsetChars m - offsetChars - cursor) =
        List.range' (offsetChars + cursor) (max offsetChars m - offsetChars - cursor) := by
      refine uncovered_eq_range' fun i hi hlt => ?_
      exact (h.passed i hi (by omega)).not_covered hsecret hn (by omega)
    have hhit : uncovered fullText secret (offsetChars + cursor + (max offsetChars m - offsetChars - cursor))
        (min (offsetChars + len) (m + secret.length) - max offsetChars m) = [] := by
      refine uncovered_eq_nil fun i hi hlt => ⟨m, ⟨n, hn⟩, ?_, ?_⟩
      · omega
      · omega
    rw [hsplit, uncovered_add, uncovered_add, hfree, hhit, ← h.shown, ← map_slice, slice_range' (by omega)]
    simp
  passed := fun i hi hlt => (h.passed i (by have := h.ahead m hn; omega) hlt).succ hn (by omega)
  ahead := fun m' hm' => by
    have hnext := hitAt_lt hsecret hn hm' (Nat.lt_succ_self n)
    omega

/-- The loop ends with every match behind it. -/
theorem redactLoop_invariant (hsecret : secret ≠ []) (fuel n cursor : ℕ) (redacted : List (Option ℕ))
    (hfuel : fullText.length ≤ fuel + n) (h : Invariant fullText secret offsetChars len n cursor redacted) :
    ∃ n', hitAt secret fullText n' = none ∧
      Invariant fullText secret offsetChars len n'
        (redactLoop [none] ((List.range' offsetChars len).map some) offsetChars fullText secret fuel
          (hitAt secret fullText n) cursor redacted).1
        (redactLoop [none] ((List.range' offsetChars len).map some) offsetChars fullText secret fuel
          (hitAt secret fullText n) cursor redacted).2 := by
  induction fuel generalizing n cursor redacted with
  | zero =>
    have hnone := hitAt_none_of_le (hitAt_length hsecret) (by omega : fullText.length ≤ n)
    exact ⟨n, hnone, by simpa only [redactLoop] using h⟩
  | succ fuel ih =>
    cases hn : hitAt secret fullText n with
    | none => exact ⟨n, hn, by simpa only [redactLoop] using h⟩
    | some m =>
      have hnext : indexOf fullText secret (m + secret.length) = hitAt secret fullText (n + 1) := by
        rw [hitAt, hn, Option.bind_some]
      simp only [redactLoop, List.length_map, List.length_range', hnext]
      split
      · rename_i hin
        exact ih (n + 1) _ _ (by omega) (h.hide hsecret hn hin)
      · rename_i hout
        exact ih (n + 1) _ _ (by omega) (h.skip hsecret hn hout)

end positions

/-- **A redacted page shows the positions that no hit covers.** -/
theorem shownPositions_filterMap {fullText secret : Text} [DecidablePred (Covered secret fullText)]
    (hsecret : secret ≠ []) (offsetChars len : ℕ) :
    (shownPositions fullText secret offsetChars len).filterMap id = uncovered fullText secret offsetChars len := by
  have hstart : Invariant fullText secret offsetChars len 0 0 [] := by
    refine ⟨Nat.zero_le len, rfl, fun i _ _ k hk => ?_, fun m _ => ?_⟩
    · omega
    · omega
  obtain ⟨n', hnone, hinv⟩ := redactLoop_invariant hsecret fullText.length 0 0 [] (Nat.le_refl _) hstart
  have hrest : ∀ i, offsetChars + _ ≤ i → i < offsetChars + len → ¬Covered secret fullText i :=
    fun i hi hlt => (hinv.passed i hi hlt).not_covered_of_none hnone
  rw [hitAt] at hinv hrest
  have hempty : secret.isEmpty = false := by simpa using hsecret
  rw [shownPositions, redactPage, hempty, Bool.or_false]
  by_cases hlen : len = 0
  · simp [hlen, uncovered]
  rw [if_neg (by simpa using hlen)]
  set r := redactLoop [none] ((List.range' offsetChars len).map some) offsetChars fullText secret fullText.length
    (indexOf fullText secret 0) 0 []
  have hdrop : ((List.range' offsetChars len).map some).drop r.1 =
      (uncovered fullText secret (offsetChars + r.1) (len - r.1)).map some := by
    rw [uncovered_eq_range' fun i hi hlt => hrest i hi (by have := hinv.cursor_le; omega), ← List.map_drop,
      List.drop_range', Nat.mul_one]
  have hsplit : uncovered fullText secret offsetChars len =
      r.2.filterMap id ++ uncovered fullText secret (offsetChars + r.1) (len - r.1) := by
    rw [hinv.shown, ← uncovered_add, Nat.add_sub_cancel' hinv.cursor_le]
  change (if r.1 = 0 then _ else r.2 ++ ((List.range' offsetChars len).map some).drop r.1).filterMap id = _
  split
  · rename_i hzero
    rw [uncovered_eq_range' fun i hi hlt => hrest i (by omega) hlt, filterMap_map_some]
  · rw [List.filterMap_append, hdrop, filterMap_map_some, hsplit]

/-! ### Following the pages -/

/-- The offset and the next offset of the pages of a text of `n` characters. -/
structure Paged (n maxChars : ℕ) (page : ℤ → PageText UInt16) : Prop where
  offsetChars : ∀ o, (page o).offsetChars = min o.toNat n
  totalChars : ∀ o, (page o).totalChars = n
  nextOffsetChars : ∀ o, (page o).nextOffsetChars =
    if min n (min o.toNat n + maxChars) < n then some (min n (min o.toNat n + maxChars)) else none

def PageText.endOffset (page : PageText α) : ℕ := page.nextOffsetChars.getD page.totalChars

section follow
variable {n maxChars : ℕ} {page : ℤ → PageText UInt16} (h : Paged n maxChars page)
include h

theorem Paged.endOffset (o : ℤ) : (page o).endOffset = min n (min o.toNat n + maxChars) := by
  rw [PageText.endOffset, h.nextOffsetChars, h.totalChars]
  split
  · rfl
  · rw [Option.getD_none]
    omega

/-- A page is the last one, or the next one begins where it ends. -/
theorem Paged.next_cases (o : ℤ) :
    (page o).nextOffsetChars = none ∧ n ≤ min o.toNat n + maxChars ∨
      (page o).nextOffsetChars = some (min o.toNat n + maxChars) ∧ min o.toNat n + maxChars < n := by
  rw [h.nextOffsetChars]
  by_cases hlt : min o.toNat n + maxChars < n
  · rw [if_pos (by omega), Nat.min_eq_right (by omega)]
    exact Or.inr ⟨rfl, hlt⟩
  · rw [if_neg (by omega)]
    exact Or.inl ⟨rfl, by omega⟩

/-- What each page shows of a quantity that adds up along the text, the pages show of it together. -/
theorem Paged.flatMap {δ : Type*} (hmax : 0 < maxChars) (f : PageText UInt16 → List δ) (g : ℕ → ℕ → List δ)
    (hg : ∀ a k l, g a (k + l) = g a k ++ g (a + k) l)
    (hf : ∀ o, f (page o) = g (page o).offsetChars ((page o).endOffset - (page o).offsetChars)) (fuel : ℕ) (o : ℤ)
    (hfuel : n - min o.toNat n < fuel) :
    (followPages page fuel o).flatMap f = g (min o.toNat n) (n - min o.toNat n) := by
  induction fuel generalizing o with
  | zero => omega
  | succ fuel ih =>
    rw [followPages, List.flatMap_cons, hf, h.endOffset, h.offsetChars]
    rcases h.next_cases o with ⟨hnext, hle⟩ | ⟨hnext, hlt⟩
    · rw [hnext, List.flatMap_nil, List.append_nil]
      congr 1
      omega
    · have hto : ((min o.toNat n + maxChars : ℕ) : ℤ).toNat = min o.toNat n + maxChars := Int.toNat_natCast _
      rw [hnext]
      change _ ++ (followPages page fuel ((min o.toNat n + maxChars : ℕ) : ℤ)).flatMap f = _
      rw [ih _ (by omega), hto]
      have hsplit : n - min o.toNat n = maxChars + (n - (min o.toNat n + maxChars)) := by omega
      have hmin : min (min o.toNat n + maxChars) n = min o.toNat n + maxChars := by omega
      have hlen : min n (min o.toNat n + maxChars) - min o.toNat n = maxChars := by omega
      rw [hmin, hlen, hsplit, hg]

theorem Paged.last (hmax : 0 < maxChars) (fuel : ℕ) (o : ℤ) (hfuel : n - min o.toNat n < fuel) :
    ∃ last, (followPages page fuel o).getLast? = some last ∧ last.nextOffsetChars = none := by
  induction fuel generalizing o with
  | zero => omega
  | succ fuel ih =>
    rw [followPages]
    rcases h.next_cases o with ⟨hnext, hle⟩ | ⟨hnext, hlt⟩
    · rw [hnext]
      exact ⟨page o, rfl, hnext⟩
    · obtain ⟨last, hlast, hnone⟩ := ih ((min o.toNat n + maxChars : ℕ) : ℤ) (by
        rw [Int.toNat_natCast]
        omega)
      refine ⟨last, ?_, hnone⟩
      rw [hnext, List.getLast?_cons]
      change some ((followPages page fuel ((min o.toNat n + maxChars : ℕ) : ℤ)).getLast?.getD _) = _
      rw [hlast, Option.getD_some]

/-- The pages begin at the multiples of `maxChars`, counted from the first one. -/
theorem Paged.mem {fuel : ℕ} {o : ℤ} {pg : PageText UInt16} (hpg : pg ∈ followPages page fuel o) :
    ∃ o' k, pg = page o' ∧ min o'.toNat n = min o.toNat n + k * maxChars := by
  induction fuel generalizing o with
  | zero => simp [followPages] at hpg
  | succ fuel ih =>
    rw [followPages, List.mem_cons] at hpg
    rcases hpg with rfl | hpg
    · exact ⟨o, 0, rfl, by omega⟩
    · rcases h.next_cases o with ⟨hnext, hle⟩ | ⟨hnext, hlt⟩
      · rw [hnext] at hpg
        cases hpg
      · rw [hnext] at hpg
        obtain ⟨o', k, rfl, hk⟩ := ih hpg
        refine ⟨o', k + 1, rfl, ?_⟩
        rw [Int.toNat_natCast] at hk
        rw [hk, Nat.succ_mul]
        omega

theorem Paged.mem_of_lt (hmax : 0 < maxChars) (fuel k : ℕ) (o : ℤ) (hfuel : n - min o.toNat n < fuel)
    (hk : min o.toNat n + k * maxChars < n) :
    ∃ o', page o' ∈ followPages page fuel o ∧ min o'.toNat n = min o.toNat n + k * maxChars := by
  induction k generalizing fuel o with
  | zero =>
    cases fuel with
    | zero => omega
    | succ fuel => exact ⟨o, by rw [followPages]; exact List.mem_cons_self, by omega⟩
  | succ k ih =>
    rw [Nat.succ_mul] at hk
    cases fuel with
    | zero => omega
    | succ fuel =>
      rcases h.next_cases o with ⟨hnext, hle⟩ | ⟨hnext, hlt⟩
      · omega
      · have hto : ((min o.toNat n + maxChars : ℕ) : ℤ).toNat = min o.toNat n + maxChars := Int.toNat_natCast _
        obtain ⟨o', hmem, ho'⟩ := ih fuel ((min o.toNat n + maxChars : ℕ) : ℤ) (by omega) (by omega)
        refine ⟨o', ?_, ?_⟩
        · rw [followPages, hnext]
          exact List.mem_cons_of_mem _ hmem
        · rw [ho', hto, Nat.succ_mul]
          omega

end follow

/-! ### What a reader of all pages sees -/

/-- The positions a page of `fullText` shows when `secret` is redacted. -/
def PageText.shown (page : PageText UInt16) (fullText secret : Text) : List (Option ℕ) :=
  shownPositions fullText secret page.offsetChars (page.endOffset - page.offsetChars)

/-- Position `i` lies in no occurrence. -/
def Outside (secret fullText : List α) (i : ℕ) : Prop :=
  ∀ p ≤ i, OccursAt secret fullText p → p + secret.length ≤ i

instance [DecidableEq α] (secret fullText : List α) : DecidablePred (Outside secret fullText) :=
  fun i => inferInstanceAs (Decidable (∀ p ≤ i, OccursAt secret fullText p → p + secret.length ≤ i))

/-- Position `b` is the begin or the end of a page. -/
def Boundary (pages : List (PageText UInt16)) (b : ℕ) : Prop :=
  ∃ page ∈ pages, page.offsetChars = b ∨ page.endOffset = b

/-- The pages of a stream, read from `offset` on, hide `secret`. -/
structure HidesSessionId (job : Job) (stream : Stream) (secret : Text) (maxChars : ℕ) (offset : ℤ) : Prop where
  /-- the reading comes to an end -/
  complete : ∃ last, (readPages job true maxChars stream offset).getLast? = some last ∧ last.nextOffsetChars = none
  unredacted : (readPages job false maxChars stream offset).flatMap (·.text) = (job.fullText stream).drop offset.toNat
  rendered : ∀ page ∈ readPages job true maxChars stream offset,
    page.text = (page.shown (job.fullText stream) secret).flatMap (render (job.fullText stream))
  outside : (((readPages job true maxChars stream offset).flatMap
      (·.shown (job.fullText stream) secret)).filterMap id).filter (Outside secret (job.fullText stream)) =
    (List.range' offset.toNat ((job.fullText stream).length - offset.toNat)).filter
      (Outside secret (job.fullText stream))
  /-- no occurrence is shown as a whole -/
  whole : ∀ page ∈ readPages job true maxChars stream offset, ∀ p, OccursAt secret (job.fullText stream) p →
    ¬∀ i, p ≤ i → i < p + secret.length → some i ∈ page.shown (job.fullText stream) secret
  /-- nothing of an occurrence that straddles a page boundary is shown -/
  straddling : ∀ page ∈ readPages job true maxChars stream offset, ∀ p b, OccursAt secret (job.fullText stream) p →
    Boundary (readPages job true maxChars stream offset) b → p < b → b < p + secret.length →
    ∀ i, p ≤ i → i < p + secret.length → some i ∉ page.shown (job.fullText stream) secret

/-- Where an occurrence that straddles a page boundary overlaps the end of a match, the search goes on with another
match before it shows a character. -/
def MatchesContinue (fullText secret : Text) (maxChars : ℕ) (offset : ℤ) : Prop :=
  ∀ p m k, OccursAt secret fullText p → Hit secret fullText m → m < p → p < m + secret.length →
    p < min offset.toNat fullText.length + k * maxChars →
    min offset.toNat fullText.length + k * maxChars < p + secret.length →
    ∃ q, OccursAt secret fullText q ∧ m + secret.length ≤ q ∧
      q ≤ max (m + secret.length) (min offset.toNat fullText.length)

theorem resultPage_eq (job : Job) (r : Bool) (maxChars : ℕ) (stream : Stream) (offset : ℤ) :
    resultPage job r maxChars stream offset =
      redactedPage (job.sessionId r) (job.fullText stream) (pageText (job.fullText stream) maxChars offset) := by
  cases stream with
  | stdout => rfl
  | stderr => rfl

/-- Redaction leaves the offsets of a page. -/
theorem redactedPage_offsets (sessionId : Option Text) (fullText : Text) (page : PageText UInt16) :
    (redactedPage sessionId fullText page).offsetChars = page.offsetChars ∧
      (redactedPage sessionId fullText page).totalChars = page.totalChars ∧
      (redactedPage sessionId fullText page).nextOffsetChars = page.nextOffsetChars := by
  unfold redactedPage
  split
  · exact ⟨rfl, rfl, rfl⟩
  · split <;> exact ⟨rfl, rfl, rfl⟩

theorem paged (job : Job) (r : Bool) (maxChars : ℕ) (stream : Stream) :
    Paged (job.fullText stream).length maxChars (resultPage job r maxChars stream) where
  offsetChars := fun o => by rw [resultPage_eq, (redactedPage_offsets _ _ _).1]; rfl
  totalChars := fun o => by rw [resultPage_eq, (redactedPage_offsets _ _ _).2.1]; rfl
  nextOffsetChars := fun o => by rw [resultPage_eq, (redactedPage_offsets _ _ _).2.2]; rfl

section reading
variable {job : Job} {stream : Stream} {secret : Text} {maxChars : ℕ} {offset : ℤ}

theorem sessionId_false : job.sessionId false = none := by
  rw [Job.sessionId, Bool.false_and, Bool.false_and, if_neg Bool.false_ne_true]

theorem pageText_text (value : List α) (o : ℤ) :
    (pageText value maxChars o).text =
      slice value (min o.toNat value.length) (min value.length (min o.toNat value.length + maxChars)) := rfl

theorem slice_eq_map_range' (fullText : Text) {a b : ℕ} (hab : a ≤ b) (hb : b ≤ fullText.length) :
    slice fullText a b = (List.range' a (b - a)).map fun i => fullText.getD i 0 := by
  apply List.ext_getElem?
  intro n
  simp only [slice, List.getElem?_drop, List.getElem?_take, List.getElem?_map]
  grind

theorem readPages_unredacted (hmax : 0 < maxChars) :
    (readPages job false maxChars stream offset).flatMap (·.text) = (job.fullText stream).drop offset.toNat := by
  have h := paged job false maxChars stream
  rw [readPages, h.flatMap hmax (·.text) (fun a k => slice (job.fullText stream) a (a + k))]
  · by_cases hle : offset.toNat ≤ (job.fullText stream).length
    · rw [Nat.min_eq_left hle, Nat.add_sub_cancel' hle, slice_length]
    · rw [Nat.min_eq_right (by omega), Nat.sub_self, Nat.add_zero, slice_length, List.drop_length,
        List.drop_eq_nil_of_le (by omega)]
  · intro a k l
    rw [slice_append (by omega) (by omega), Nat.add_assoc]
  · intro o
    rw [h.endOffset, h.offsetChars, resultPage_eq, sessionId_false]
    change (pageText _ _ _).text = _
    rw [pageText_text]
    congr 1
    omega
  · omega

/-- Every position from the offset on lies in a page. -/
theorem exists_page (hmax : 0 < maxChars) {i : ℕ} (hi : min offset.toNat (job.fullText stream).length ≤ i)
    (hlt : i < (job.fullText stream).length) :
    ∃ page ∈ readPages job true maxChars stream offset, page.offsetChars ≤ i ∧ i < page.endOffset := by
  have h := paged job true maxChars stream
  have hall : (readPages job true maxChars stream offset).flatMap
      (fun page => List.range' page.offsetChars (page.endOffset - page.offsetChars)) =
      List.range' (min offset.toNat (job.fullText stream).length)
        ((job.fullText stream).length - min offset.toNat (job.fullText stream).length) := by
    refine h.flatMap hmax (fun page => List.range' page.offsetChars (page.endOffset - page.offsetChars)) List.range'
      (fun a k l => ?_) (fun o => rfl) _ _ (by omega)
    rw [List.range'_append_1]
  have hmem : i ∈ List.range' (min offset.toNat (job.fullText stream).length)
      ((job.fullText stream).length - min offset.toNat (job.fullText stream).length) := by
    rw [List.mem_range'_1]
    omega
  rw [← hall, List.mem_flatMap] at hmem
  obtain ⟨page, hpage, hin⟩ := hmem
  rw [List.mem_range'_1] at hin
  exact ⟨page, hpage, by omega, by omega⟩

theorem boundary_iff (hmax : 0 < maxChars) {b : ℕ} (hb : b < (job.fullText stream).length) :
    Boundary (readPages job true maxChars stream offset) b ↔
      ∃ k, b = min offset.toNat (job.fullText stream).length + k * maxChars := by
  have h := paged job true maxChars stream
  constructor
  · rintro ⟨page, hpage, hoff | hend⟩
    · obtain ⟨o', k, rfl, hk⟩ := h.mem hpage
      rw [h.offsetChars] at hoff
      exact ⟨k, by omega⟩
    · obtain ⟨o', k, rfl, hk⟩ := h.mem hpage
      rw [h.endOffset] at hend
      refine ⟨k + 1, ?_⟩
      rw [Nat.succ_mul]
      omega
  · rintro ⟨k, rfl⟩
    obtain ⟨o', hmem, ho'⟩ := h.mem_of_lt hmax ((job.fullText stream).length + 1) k offset (by omega) hb
    exact ⟨_, hmem, Or.inl (by rw [h.offsetChars, ho'])⟩

variable (hsecret : secret ≠ [])
include hsecret

theorem shown_filterMap [DecidablePred (Covered secret (job.fullText stream))] (o : ℤ) :
    ((resultPage job true maxChars stream o).shown (job.fullText stream) secret).filterMap id =
      uncovered (job.fullText stream) secret (resultPage job true maxChars stream o).offsetChars
        ((resultPage job true maxChars stream o).endOffset - (resultPage job true maxChars stream o).offsetChars) :=
  shownPositions_filterMap hsecret _ _

theorem mem_shown {page : PageText UInt16} (hpage : page ∈ readPages job true maxChars stream offset) (i : ℕ) :
    some i ∈ page.shown (job.fullText stream) secret ↔
      (page.offsetChars ≤ i ∧ i < page.endOffset) ∧ ¬Covered secret (job.fullText stream) i := by
  classical
  obtain ⟨o, k, rfl, -⟩ := (paged job true maxChars stream).mem hpage
  have hmem : some i ∈ (resultPage job true maxChars stream o).shown (job.fullText stream) secret ↔
      i ∈ ((resultPage job true maxChars stream o).shown (job.fullText stream) secret).filterMap id := by
    simp
  rw [hmem, shown_filterMap hsecret, uncovered, List.mem_filter, List.mem_range'_1, decide_eq_true_iff]
  refine and_congr_left fun _ => ?_
  omega

theorem not_covered_of_outside {fullText : Text} {i : ℕ} (h : Outside secret fullText i) :
    ¬Covered secret fullText i := by
  rintro ⟨m, hm, hle, hlt⟩
  have := h m hle (hm.occursAt hsecret)
  omega

theorem readPages_rendered (hid : job.sessionId true = some secret) {page : PageText UInt16}
    (hpage : page ∈ readPages job true maxChars stream offset) :
    page.text = (page.shown (job.fullText stream) secret).flatMap (render (job.fullText stream)) := by
  have h := paged job true maxChars stream
  obtain ⟨o, k, rfl, -⟩ := h.mem hpage
  have hne : secret.isEmpty = false := by simpa using hsecret
  have hrender : render (job.fullText stream) =
      fun o => o.elim redactedSessionId fun i => [(job.fullText stream).getD i 0] := by
    funext o
    cases o with
    | none => rfl
    | some i => rfl
  rw [PageText.shown, shownPositions, hrender, ← redactPage_flatMap, h.endOffset, h.offsetChars, resultPage_eq, hid]
  have hpageText : (redactedPage (some secret) (job.fullText stream)
      (pageText (job.fullText stream) maxChars o)).text =
      redactKnownTextPage (pageText (job.fullText stream) maxChars o).text
        (min o.toNat (job.fullText stream).length) (job.fullText stream) secret := by
    rw [redactedPage, hne, if_neg Bool.false_ne_true]
    rfl
  rw [hpageText, redactKnownTextPage, pageText_text, slice_eq_map_range' _ (by omega) (by omega)]

theorem readPages_outside (hmax : 0 < maxChars) :
    (((readPages job true maxChars stream offset).flatMap
      (·.shown (job.fullText stream) secret)).filterMap id).filter (Outside secret (job.fullText stream)) =
    (List.range' offset.toNat ((job.fullText stream).length - offset.toNat)).filter
      (Outside secret (job.fullText stream)) := by
  classical
  have h := paged job true maxChars stream
  have hall : (readPages job true maxChars stream offset).flatMap
      (fun page => (page.shown (job.fullText stream) secret).filterMap id) =
      uncovered (job.fullText stream) secret (min offset.toNat (job.fullText stream).length)
        ((job.fullText stream).length - min offset.toNat (job.fullText stream).length) :=
    h.flatMap hmax _ _ uncovered_add (fun o => shown_filterMap hsecret o) _ _ (by omega)
  have hfilter : ∀ a k, (uncovered (job.fullText stream) secret a k).filter (Outside secret (job.fullText stream)) =
      (List.range' a k).filter (Outside secret (job.fullText stream)) := by
    intro a k
    rw [uncovered, List.filter_filter]
    refine List.filter_congr fun i _ => ?_
    by_cases ho : Outside secret (job.fullText stream) i
    · simp [ho, not_covered_of_outside hsecret ho]
    · simp [ho]
  rw [List.filterMap_flatMap, hall, hfilter]
  by_cases hle : offset.toNat ≤ (job.fullText stream).length
  · rw [Nat.min_eq_left hle]
  · rw [Nat.min_eq_right (by omega), Nat.sub_self, Nat.sub_eq_zero_of_le (by omega)]
    rfl

/-- The part of an occurrence behind the match it overlaps is hidden where the search goes on with another match. -/
theorem covered_of_continue {fullText : Text} {p m i q : ℕ} (hm : Hit secret fullText m) (hpm : p < m + secret.length)
    (hip : i < p + secret.length) (hq : OccursAt secret fullText q)
    (hge : m + secret.length ≤ q) (hle : q ≤ i) : Covered secret fullText i := by
  obtain ⟨m', hm', hge', hle'⟩ := exists_hit_of_occursAt hsecret hm hq hge
  exact ⟨m', hm', by omega, by omega⟩

/-- **The pages hide the session id exactly when no straddling occurrence has an end that the search leaves open.** -/
theorem hidesSessionId_iff (hid : job.sessionId true = some secret) (hmax : 0 < maxChars) :
    HidesSessionId job stream secret maxChars offset ↔
      MatchesContinue (job.fullText stream) secret maxChars offset := by
  constructor
  · intro h p m k hp hm hmp hpm hb hbp
    have hlen := hp.length_le hsecret
    have hbound : Boundary (readPages job true maxChars stream offset)
        (min offset.toNat (job.fullText stream).length + k * maxChars) :=
      (boundary_iff hmax (by omega)).2 ⟨k, rfl⟩
    -- the first position behind the match that the reader can reach
    obtain ⟨page, hpage, hin⟩ : ∃ page ∈ readPages job true maxChars stream offset,
        page.offsetChars ≤ max (m + secret.length) (min offset.toNat (job.fullText stream).length) ∧
          max (m + secret.length) (min offset.toNat (job.fullText stream).length) < page.endOffset :=
      exists_page hmax (by omega) (by omega)
    have hnot := h.straddling page hpage p _ hp hbound hb hbp
      (max (m + secret.length) (min offset.toNat (job.fullText stream).length)) (by omega) (by omega)
    rw [mem_shown hsecret hpage] at hnot
    obtain ⟨q, hq, hqi, hiq⟩ := not_not.1 fun hc => hnot ⟨hin, hc⟩
    have hmq : m < q := by
      rcases Nat.lt_trichotomy m q with hlt | rfl | hlt
      · exact hlt
      · omega
      · have := hq.disjoint hsecret hm hlt
        omega
    exact ⟨q, hq.occursAt hsecret, hm.disjoint hsecret hq hmq, hqi⟩
  · intro h
    refine
      { complete := (paged job true maxChars stream).last hmax _ _ (by omega)
        unredacted := readPages_unredacted hmax
        rendered := fun page hpage => readPages_rendered hsecret hid hpage
        outside := readPages_outside hsecret hmax
        whole := fun page hpage p hp hall => ?_
        straddling := fun page hpage p b hp hb hpb hbp i hpi hip hshown => ?_ }
    · have hpos := List.length_pos_iff.2 hsecret
      have hfirst := hall p (Nat.le_refl p) (by omega)
      rw [mem_shown hsecret hpage] at hfirst
      exact hfirst.2 (covered_of_occursAt hsecret hp)
    · have hlen := hp.length_le hsecret
      rw [mem_shown hsecret hpage] at hshown
      obtain ⟨hin, hnot⟩ := hshown
      obtain ⟨k, rfl⟩ := (boundary_iff hmax (by omega)).1 hb
      rcases occursAt_hit hsecret hp with hhit | ⟨m, hm, hmp, hpm⟩
      · exact hnot ⟨p, hhit, hpi, hip⟩
      · by_cases hi : i < m + secret.length
        · exact hnot ⟨m, hm, by omega, hi⟩
        · have hstart : min offset.toNat (job.fullText stream).length ≤ page.offsetChars := by
            obtain ⟨o, k', rfl, hk'⟩ := (paged job true maxChars stream).mem hpage
            rw [(paged job true maxChars stream).offsetChars]
            omega
          obtain ⟨q, hq, hge, hle⟩ := h p m k hp hm hmp hpm hpb hbp
          exact hnot (covered_of_continue hsecret hm hpm hip hq hge (by omega))

end reading

/-- A job whose output names the session `aa` and whose error stream is `aaa`. -/
def repeatedJob : Job where
  transport := .process
  kitExecution := false
  kitOutputAvailableInMemory := none
  stdout := text "\x7b\"type\":\"result\",\"session_id\":\"aa\"\x7d"
  stderr := text "aaa"
  outputSessionId := some (text "aa")

theorem hidesSessionId_iff_repeatedJob : HidesSessionId repeatedJob .stderr (text "aa") 2 0 ↔
    MatchesContinue (text "aaa") (text "aa") 2 0 :=
  hidesSessionId_iff (by decide) rfl (by decide)

/-- The second page of `aaa` shows the end of the session id `aa`, whose begin is on the first. -/
theorem not_hidesSessionId : ¬∀ (job : Job) (stream : Stream) (secret : Text) (maxChars : ℕ) (offset : ℤ),
    job.sessionId true = some secret → secret ≠ [] → 1 ≤ maxChars →
    HidesSessionId job stream secret maxChars offset := by
  intro h
  have hpage : resultPage repeatedJob true 2 .stderr 2 ∈ readPages repeatedJob true 2 .stderr 0 := by decide
  have hbound : Boundary (readPages repeatedJob true 2 .stderr 0) 2 := ⟨_, hpage, Or.inl (by decide)⟩
  refine (h repeatedJob .stderr (text "aa") 2 0 rfl (by decide) (by decide)).straddling _ hpage 1 2 (by decide) hbound
    (by decide) (by decide) 2 (by decide) (by decide) ?_
  decide

end LlmGateway.Manager.ResultPage
