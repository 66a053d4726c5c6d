import Mathlib.Data.List.Basic
import Mathlib.Tactic.Common

/-!
# Chains of promises

Operations that are put in a line by `run = tail.then(op); tail = run.then(IGNORE, IGNORE)`.

* `Link` — an operation with its two promises; `Chain.promise` — the tail that a link waits for;
* `Chain.Sound` — the invariant: an operation is called when the tail before it is fulfilled, and a tail is not rejected;
* `Sound.settled` — an operation is called after those before it have ended.
-/

namespace LlmGateway.Lib

inductive Promise where
  | pending
  | fulfilled
  | rejected
deriving DecidableEq

structure Link (α : Type*) where
  op : α
  begun : Bool
  run : Promise
  tail : Promise

abbrev Chain (α : Type*) := List (Link α)

/-- What can happen to the link `k`: the reaction to the tail before it, the end of its operation, the reaction to its `run`. -/
inductive Turn where
  | call (k : ℕ)
  | settle (k : ℕ) (ok : Bool)
  | swallow (k : ℕ)

namespace Chain

variable {α : Type*}

def enqueue (q : Chain α) (op : α) : Chain α := q ++ [⟨op, false, .pending, .pending⟩]

/-- The tail after `k` links; the first one is `Promise.resolve()`. -/
def promise (q : Chain α) : ℕ → Promise
  | 0 => .fulfilled
  | k + 1 => (q[k]?.map Link.tail).getD .pending

end Chain

namespace Link

variable {α : Type*}

/-- `tail.then(op)`: a rejected promise is passed on without a call. -/
def call (before : Promise) (l : Link α) : Link α :=
  if l.begun = false ∧ l.run = .pending then
    match before with
    | .pending => l
    | .fulfilled => { l with begun := true }
    | .rejected => { l with run := .rejected }
  else l

/-- The promise that the operation has returned is settled. -/
def settle (ok : Bool) (l : Link α) : Link α :=
  if l.begun = true ∧ l.run = .pending then { l with run := if ok then .fulfilled else .rejected } else l

/-- `run.then(IGNORE, IGNORE)` -/
def swallow (l : Link α) : Link α :=
  if l.run ≠ .pending ∧ l.tail = .pending then { l with tail := .fulfilled } else l

/-- What is so of a link behind a promise. -/
structure Sound (before : Promise) (l : Link α) : Prop where
  tail : l.tail ≠ .rejected
  run : l.tail = .fulfilled → l.run ≠ .pending
  begun : l.run ≠ .pending → l.begun = true
  before : l.begun = true → before = .fulfilled

variable {before : Promise} {l : Link α}

theorem Sound.call (h : l.Sound before) (hbefore : before ≠ .rejected) : (l.call before).Sound before := by
  unfold Link.call
  split_ifs with hwaits
  · match before with
    | .pending => exact h
    | .fulfilled => exact ⟨h.tail, h.run, fun _ => rfl, fun _ => rfl⟩
    | .rejected => exact absurd rfl hbefore
  · exact h

theorem Sound.settle (h : l.Sound before) (ok : Bool) : (l.settle ok).Sound before := by
  unfold Link.settle
  split_ifs with hruns hok
  · exact ⟨h.tail, fun _ => nofun, fun _ => hruns.1, h.before⟩
  · exact ⟨h.tail, fun _ => nofun, fun _ => hruns.1, h.before⟩
  · exact h

theorem Sound.swallow (h : l.Sound before) : l.swallow.Sound before := by
  unfold Link.swallow
  split_ifs with hends
  · exact ⟨nofun, fun _ => hends.1, h.begun, h.before⟩
  · exact h

@[simp] theorem call_tail : (l.call before).tail = l.tail := by
  unfold call
  split_ifs
  · cases before <;> rfl
  · rfl

@[simp] theorem settle_tail (ok : Bool) : (l.settle ok).tail = l.tail := by
  unfold settle
  split_ifs <;> rfl

@[simp] theorem call_op : (l.call before).op = l.op := by
  unfold call
  split_ifs
  · cases before <;> rfl
  · rfl

@[simp] theorem settle_op (ok : Bool) : (l.settle ok).op = l.op := by
  unfold settle
  split_ifs <;> rfl

@[simp] theorem swallow_op : l.swallow.op = l.op := by
  unfold swallow
  split_ifs <;> rfl

@[simp] theorem settle_begun (ok : Bool) : (l.settle ok).begun = l.begun := by
  unfold settle
  split_ifs <;> rfl

@[simp] theorem swallow_begun : l.swallow.begun = l.begun := by
  unfold swallow
  split_ifs <;> rfl

/-- A tail that has been fulfilled stays so. -/
theorem swallow_tail (l : Link α) : l.swallow.tail = l.tail ∨ (l.tail = .pending ∧ l.swallow.tail = .fulfilled) := by
  unfold swallow
  split_ifs with hends
  · exact .inr ⟨hends.2, rfl⟩
  · exact .inl rfl

end Link

namespace Chain

variable {α : Type*} {q : Chain α}

def turn (q : Chain α) : Turn → Chain α
  | .call k => q.modify k (Link.call (q.promise k))
  | .settle k ok => q.modify k (Link.settle ok)
  | .swallow k => q.modify k Link.swallow

def callAt (q : Chain α) (k : ℕ) : Option α :=
  match q[k]? with
  | some l => if l.begun = false ∧ l.run = .pending ∧ q.promise k = .fulfilled then some l.op else none
  | none => none

/-- The operation that is called in a turn. -/
def called (q : Chain α) : Turn → Option α
  | .call k => q.callAt k
  | _ => none

def Sound (q : Chain α) : Prop := ∀ k (l : Link α), q[k]? = some l → l.Sound (q.promise k)

theorem Sound.promise (h : q.Sound) (k : ℕ) : q.promise k ≠ .rejected := by
  cases k with
  | zero => nofun
  | succ k =>
    rw [Chain.promise]
    cases hl : q[k]? with
    | none => nofun
    | some l => exact (h k l hl).tail

theorem sound_nil : Sound ([] : Chain α) := by
  intro k l hl
  rw [List.getElem?_nil] at hl
  cases hl

theorem promise_enqueue {k : ℕ} (hk : k ≤ q.length) (op : α) : (q.enqueue op).promise k = q.promise k := by
  cases k with
  | zero => rfl
  | succ k => rw [Chain.promise, Chain.promise, enqueue, List.getElem?_append_left hk]

theorem Sound.enqueue (h : q.Sound) (op : α) : (q.enqueue op).Sound := by
  intro k l hl
  rcases Nat.lt_trichotomy k q.length with hk | rfl | hk
  · rw [promise_enqueue (Nat.le_of_lt hk)]
    rw [Chain.enqueue, List.getElem?_append_left hk] at hl
    exact h k l hl
  · rw [Chain.enqueue, List.getElem?_concat_length] at hl
    obtain rfl := Option.some.inj hl
    exact ⟨nofun, nofun, fun hne => absurd rfl hne, nofun⟩
  · rw [Chain.enqueue, List.getElem?_eq_none (by rw [List.length_append]; exact hk)] at hl
    cases hl

theorem getElem?_modify_self (k : ℕ) (f : Link α → Link α) : (q.modify k f)[k]? = q[k]?.map f := by
  simp

theorem getElem?_modify_of_ne {j k : ℕ} (h : k ≠ j) (f : Link α → Link α) : (q.modify k f)[j]? = q[j]? := by
  simp [h]

/-- A change of one link, by which its tail stays or becomes fulfilled, keeps the chain sound. -/
theorem Sound.modify (h : q.Sound) {k : ℕ} {f : Link α → Link α} (hf : ∀ l, q[k]? = some l → (f l).Sound (q.promise k))
    (htail : ∀ l, q[k]? = some l → (f l).tail = l.tail ∨ (l.tail = .pending ∧ (f l).tail = .fulfilled)) :
    Sound (q.modify k f) := by
  have hpromise (j : ℕ) : Chain.promise (q.modify k f) j = q.promise j ∨
      (q.promise j = .pending ∧ Chain.promise (q.modify k f) j = .fulfilled) := by
    cases j with
    | zero => exact .inl rfl
    | succ j =>
      by_cases hkj : k = j
      · subst hkj
        rw [Chain.promise, Chain.promise, getElem?_modify_self]
        cases hl : q[k]? with
        | none => exact .inl rfl
        | some l => exact htail l hl
      · rw [Chain.promise, Chain.promise, getElem?_modify_of_ne hkj]
        exact .inl rfl
  have hsame (l : Link α) (j : ℕ) (hl : l.Sound (q.promise j)) : l.Sound (Chain.promise (q.modify k f) j) := by
    refine ⟨hl.tail, hl.run, hl.begun, fun hbegun => ?_⟩
    have hfulfilled := hl.before hbegun
    rcases hpromise j with heq | ⟨hpending, -⟩
    · rw [heq, hfulfilled]
    · rw [hfulfilled] at hpending
      cases hpending
  intro j l hl
  by_cases hkj : k = j
  · subst hkj
    rw [getElem?_modify_self] at hl
    obtain ⟨l', hl', rfl⟩ := Option.map_eq_some_iff.1 hl
    exact hsame _ k (hf l' hl')
  · rw [getElem?_modify_of_ne hkj] at hl
    exact hsame l j (h j l hl)

theorem Sound.turn (h : q.Sound) (t : Turn) : (q.turn t).Sound := by
  cases t with
  | call k => exact h.modify (fun l hl => (h k l hl).call (h.promise k)) fun l _ => .inl Link.call_tail
  | settle k ok => exact h.modify (fun l hl => (h k l hl).settle ok) fun l _ => .inl (Link.settle_tail ok)
  | swallow k => exact h.modify (fun l hl => (h k l hl).swallow) fun l _ => l.swallow_tail

theorem map_op_turn (q : Chain α) (t : Turn) : (q.turn t).map Link.op = q.map Link.op := by
  have hmodify (k : ℕ) (f : Link α → Link α) (hf : ∀ l, (f l).op = l.op) : (q.modify k f).map Link.op = q.map Link.op := by
    refine List.ext_getElem? fun j => ?_
    rw [List.getElem?_map, List.getElem?_map]
    by_cases hkj : k = j
    · subst hkj
      rw [getElem?_modify_self, Option.map_map]
      exact congrArg (fun g => Option.map g q[k]?) (funext hf)
    · rw [getElem?_modify_of_ne hkj]
  cases t with
  | call k => exact hmodify k _ fun l => Link.call_op
  | settle k ok => exact hmodify k _ fun l => Link.settle_op ok
  | swallow k => exact hmodify k _ fun l => Link.swallow_op

/-! ## The order of the calls -/

/-- **An operation is called after those before it have ended.** -/
theorem Sound.settled (h : q.Sound) {j : ℕ} : ∀ {k : ℕ} {l m : Link α}, j < k → q[j]? = some l → q[k]? = some m → m.begun = true →
    l.run ≠ .pending := by
  intro k
  induction k with
  | zero => intro l m hjk
            exact absurd hjk (Nat.not_lt_zero j)
  | succ k ih =>
    intro l m hjk hl hm hbegun
    have hbefore := (h (k + 1) m hm).before hbegun
    rw [Chain.promise] at hbefore
    have hk : k < q.length := by
      have := (List.getElem?_eq_some_iff.1 hm).1
      omega
    have hprev : q[k]? = some q[k] := List.getElem?_eq_getElem hk
    rw [hprev] at hbefore
    have hrun : q[k].run ≠ .pending := (h k _ hprev).run hbefore
    rcases Nat.lt_succ_iff_lt_or_eq.1 hjk with hlt | rfl
    · exact ih hlt hl hprev ((h k _ hprev).begun hrun)
    · rw [hprev] at hl
      obtain rfl := Option.some.inj hl
      exact hrun

/-- The operations that have been called are the first `n`. -/
structure BegunUpTo (q : Chain α) (n : ℕ) : Prop where
  le_length : n ≤ q.length
  begun_iff : ∀ (k : ℕ) (l : Link α), q[k]? = some l → (l.begun = true ↔ k < n)

theorem begunUpTo_nil : BegunUpTo ([] : Chain α) 0 where
  le_length := Nat.le_refl 0
  begun_iff k l hl := by
    rw [List.getElem?_nil] at hl
    cases hl

theorem BegunUpTo.enqueue {n : ℕ} (h : q.BegunUpTo n) (op : α) : (q.enqueue op).BegunUpTo n where
  le_length := by
    have := h.le_length
    rw [Chain.enqueue, List.length_append]
    omega
  begun_iff k l hl := by
    have hn := h.le_length
    rcases Nat.lt_trichotomy k q.length with hk | rfl | hk
    · rw [Chain.enqueue, List.getElem?_append_left hk] at hl
      exact h.begun_iff k l hl
    · rw [Chain.enqueue, List.getElem?_concat_length] at hl
      obtain rfl := Option.some.inj hl
      exact iff_of_false nofun (by omega)
    · rw [Chain.enqueue, List.getElem?_eq_none (by rw [List.length_append]; exact hk)] at hl
      cases hl

theorem BegunUpTo.modify {n : ℕ} (h : q.BegunUpTo n) {k : ℕ} {f : Link α → Link α}
    (hf : ∀ l, q[k]? = some l → (f l).begun = l.begun) : Chain.BegunUpTo (q.modify k f) n where
  le_length := by
    rw [List.length_modify]
    exact h.le_length
  begun_iff j l hl := by
    by_cases hkj : k = j
    · subst hkj
      rw [getElem?_modify_self] at hl
      obtain ⟨l', hl', rfl⟩ := Option.map_eq_some_iff.1 hl
      rw [hf l' hl']
      exact h.begun_iff k l' hl'
    · rw [getElem?_modify_of_ne hkj] at hl
      exact h.begun_iff j l hl

/-- A link whose operation can be called is the next one. -/
theorem Sound.eq_next {n k : ℕ} {l : Link α} (h : q.Sound) (hn : q.BegunUpTo n) (hl : q[k]? = some l) (hbegun : l.begun = false)
    (hpromise : q.promise k = .fulfilled) : k = n := by
  have hge : n ≤ k := by
    by_contra hlt
    rw [(hn.begun_iff k l hl).2 (by omega)] at hbegun
    cases hbegun
  cases k with
  | zero => omega
  | succ k =>
    have hk : k < q.length := by
      have := (List.getElem?_eq_some_iff.1 hl).1
      omega
    have hprev : q[k]? = some q[k] := List.getElem?_eq_getElem hk
    rw [Chain.promise, hprev] at hpromise
    have hrun : q[k].run ≠ .pending := (h k _ hprev).run hpromise
    have := (hn.begun_iff k _ hprev).1 ((h k _ hprev).begun hrun)
    omega

/-- **A turn calls nothing, or the next operation.** -/
theorem Sound.called_turn {n : ℕ} (h : q.Sound) (hn : q.BegunUpTo n) (t : Turn) :
    (q.called t = none ∧ (q.turn t).BegunUpTo n) ∨
      ∃ l, q[n]? = some l ∧ q.called t = some l.op ∧ (q.turn t).BegunUpTo (n + 1) := by
  cases t with
  | settle k ok => exact .inl ⟨rfl, hn.modify fun l _ => Link.settle_begun ok⟩
  | swallow k => exact .inl ⟨rfl, hn.modify fun l _ => Link.swallow_begun⟩
  | call k =>
    show (q.callAt k = none ∧ Chain.BegunUpTo (q.modify k (Link.call (q.promise k))) n) ∨
      ∃ l, q[n]? = some l ∧ q.callAt k = some l.op ∧ Chain.BegunUpTo (q.modify k (Link.call (q.promise k))) (n + 1)
    cases hl : q[k]? with
    | none =>
      refine .inl ⟨by rw [callAt, hl], hn.modify fun l hl' => ?_⟩
      rw [hl] at hl'
      cases hl'
    | some l =>
      by_cases hcan : l.begun = false ∧ l.run = .pending ∧ q.promise k = .fulfilled
      · obtain rfl := h.eq_next hn hl hcan.1 hcan.2.2
        have hcalled : q.callAt k = some l.op := by rw [callAt, hl]; exact if_pos hcan
        refine .inr ⟨l, hl, hcalled, ?_, fun j m hm => ?_⟩
        · rw [List.length_modify]
          exact (List.getElem?_eq_some_iff.1 hl).1
        · by_cases hkj : k = j
          · subst hkj
            rw [getElem?_modify_self, hl] at hm
            obtain rfl := Option.some.inj hm
            refine iff_of_true ?_ (Nat.lt_succ_self k)
            unfold Link.call
            rw [if_pos ⟨hcan.1, hcan.2.1⟩, hcan.2.2]
          · rw [getElem?_modify_of_ne hkj] at hm
            rw [hn.begun_iff j m hm]
            omega
      · have hcalled : q.callAt k = none := by rw [callAt, hl]; exact if_neg hcan
        refine .inl ⟨hcalled, hn.modify fun l' hl' => ?_⟩
        rw [hl] at hl'
        obtain rfl := Option.some.inj hl'
        unfold Link.call
        split_ifs with hwaits
        · cases hpromise : q.promise k with
          | pending => rfl
          | fulfilled => exact absurd ⟨hwaits.1, hwaits.2, hpromise⟩ hcan
          | rejected => rfl
        · rfl

/-- Neither a reaction nor the end of an operation is due. -/
def Quiet (q : Chain α) : Prop :=
  (∀ k (l : Link α), q[k]? = some l → l.begun = false → l.run = .pending → q.promise k = .pending) ∧
    ∀ l : Link α, l ∈ q → (l.begun = true → l.run ≠ .pending) ∧ (l.run ≠ .pending → l.tail ≠ .pending)

/-- **Nothing is stopped**: when a chain is quiet, all its operations have been called and have ended. -/
theorem Sound.of_quiet (h : q.Sound) (hquiet : q.Quiet) :
    ∀ l : Link α, l ∈ q → l.begun = true ∧ l.run ≠ .pending ∧ l.tail = .fulfilled := by
  have hall : ∀ (k : ℕ) (l : Link α), q[k]? = some l → l.begun = true ∧ l.run ≠ .pending ∧ l.tail = .fulfilled := by
    intro k
    induction k with
    | zero =>
      intro l hl
      exact quiet_link h hquiet hl rfl
    | succ k ih =>
      intro l hl
      have hk : k < q.length := by
        have := (List.getElem?_eq_some_iff.1 hl).1
        omega
      have hprev : q[k]? = some q[k] := List.getElem?_eq_getElem hk
      refine quiet_link h hquiet hl ?_
      rw [Chain.promise, hprev]
      exact (ih _ hprev).2.2
  intro l hl
  obtain ⟨k, hk⟩ := List.mem_iff_getElem?.1 hl
  exact hall k l hk
where
  quiet_link {q : Chain α} (h : q.Sound) (hquiet : q.Quiet) {k : ℕ} {l : Link α} (hl : q[k]? = some l)
      (hbefore : q.promise k = .fulfilled) : l.begun = true ∧ l.run ≠ .pending ∧ l.tail = .fulfilled := by
    have hmem : l ∈ q := List.mem_iff_getElem?.2 ⟨k, hl⟩
    have hbegun : l.begun = true := by
      by_contra hnot
      have hfalse : l.begun = false := eq_false_of_ne_true hnot
      have hrun : l.run = .pending := by
        by_contra hne
        exact hnot ((h k l hl).begun hne)
      rw [hquiet.1 k l hl hfalse hrun] at hbefore
      cases hbefore
    have hrun := (hquiet.2 l hmem).1 hbegun
    refine ⟨hbegun, hrun, ?_⟩
    cases htail : l.tail with
    | pending => exact absurd htail ((hquiet.2 l hmem).2 hrun)
    | fulfilled => rfl
    | rejected => exact absurd htail (h k l hl).tail

end Chain

end LlmGateway.Lib
