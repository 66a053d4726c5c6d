import LlmGateway.Sessions.Lock

/-!
# The invariant of the session lock

Each process relies on facts of its own (`Local`), which the steps of the other processes leave alone (`Keeps`).

* `Known`, `Gone` — what a reclaimer knows of an owner record before and after it found its pid dead;
* `Global`, `Local`, `Inv` — the invariant; `inv_run` — every run keeps it.
-/

namespace LlmGateway.Sessions.Lock

open LlmGateway.Lib

variable {α : Type*} {init : α} {s s' : State α} {pid q : ℕ} {p : Process α} {c : Call α}

/-- No live process is `id`. -/
def Dead (s : State α) (id : ℕ) : Prop := ∀ q p, s.procs q = some p → p.id ≠ id

/-- A record: a live call of its token is at its pid, and the lock file has no other pid under its token. -/
structure Known (s : State α) (o : Owner) : Prop where
  token_lt : o.token < s.fresh
  caller : ∀ q p c, s.procs q = some p → p.pc.call = some c → c.token = o.token → q = o.pid
  record : ∀ f o', s.lock = some f → f.owner = some o' → o'.token = o.token → o'.pid = o.pid

/-- A record of a call that is over, its process being dead. -/
structure Gone (s : State α) (o : Owner) : Prop where
  token_lt : o.token < s.fresh
  caller : ∀ q p c, s.procs q = some p → p.pc.call = some c → c.token ≠ o.token
  record : ∀ f o', s.lock = some f → f.owner = some o' → o'.token = o.token → Dead s f.creator

structure Global (init : α) (s : State α) : Prop where
  file : s.file = replay init s.turns
  id_lt : ∀ q p, s.procs q = some p → p.id < s.fresh
  id_inj : ∀ q r p p', s.procs q = some p → s.procs r = some p' → p.id = p'.id → q = r
  token_lt : ∀ q p c, s.procs q = some p → p.pc.call = some c → c.token < s.fresh
  token_inj : ∀ q r p p' c c', s.procs q = some p → s.procs r = some p' → p.pc.call = some c →
    p'.pc.call = some c' → c.token = c'.token → q = r
  turn_lt : ∀ t ∈ s.turns, t.token < s.fresh
  creator_lt : ∀ f, s.lock = some f → f.creator < s.fresh
  owner : ∀ f o, s.lock = some f → f.owner = some o → Known s o
  creator : ∀ f o, s.lock = some f → f.owner = some o → ∀ q p, s.procs q = some p → p.id = f.creator → q = o.pid

/-- How far an operation that loaded `a` has come after `n` saves. -/
def Progress (operation : α → List α) (a : α) (n : ℕ) (temp : Option α) : Held α → Prop
  | .writing _ => n = 0
  | .syncing => n = 0
  | .cleaning => True
  | .loading => n = 0
  | .saving todo => ∃ done, operation a = done ++ todo ∧ n = done.length
  | .replacing todo => ∃ done b, temp = some b ∧ operation a = done ++ b :: todo ∧ n = done.length
  | .releasing complete => complete = true → n = (operation a).length
  | .unlinking complete => complete = true → n = (operation a).length

/-- The call has the lock: its process made the lock file, and the last turn is its own. -/
structure Holding (init : α) (s : State α) (id : ℕ) (c : Call α) (pre : List (Turn α)) (t : Turn α) : Prop where
  lock : ∃ f, s.lock = some f ∧ f.creator = id
  turns : s.turns = pre ++ [t]
  token : t.token = c.token
  operation : t.operation = c.operation
  open_ : t.complete = false
  pre : ∀ t' ∈ pre, t'.token ≠ c.token

/-- The call has not had a turn. -/
def Unused (s : State α) (c : Call α) : Prop := ∀ t ∈ s.turns, t.token ≠ c.token

/-- What a reclaimer relies on: it has the recovery mutex, and knows the lock file. -/
def Reclaiming (s : State α) (id : ℕ) : Reclaim → Prop
  | .opening => True
  | .reading => s.recovery = some id
  | .probing o => s.recovery = some id ∧ Known s o
  | .rereading o => s.recovery = some id ∧ Gone s o
  | .removing => s.recovery = some id ∧ ∃ f, s.lock = some f ∧ Dead s f.creator
  | .leaving _ => s.recovery = some id

/-- What the process at `q` relies on. -/
def Local (init : α) (s : State α) (q : ℕ) (p : Process α) : Prop :=
  match p.pc with
  | .idle => True
  | .opening c => Unused s c
  | .waiting c => Unused s c
  | .reclaiming c r => Unused s c ∧ Reclaiming s p.id r
  | .holding c h =>
    ∃ pre t, Holding init s p.id c pre t ∧ Progress c.operation (replay init pre) t.saves (s.temp q) h

structure Inv (init : α) (s : State α) : Prop extends Global init s where
  local_ : ∀ q p, s.procs q = some p → Local init s q p

/-- In the middle of a step of the process at `pid`: the other processes have what they rely on. -/
structure Mid (init : α) (s : State α) (pid : ℕ) : Prop extends Global init s where
  others : ∀ q p, q ≠ pid → s.procs q = some p → Local init s q p

theorem Inv.mid (h : Inv init s) (pid : ℕ) : Mid init s pid :=
  ⟨h.toGlobal, fun q p _ hq => h.local_ q p hq⟩

/-! ## Steps on the files -/

/-- A change of the files that makes no record but that of a live call. -/
structure Quiet (s s' : State α) : Prop where
  procs : s'.procs = s.procs
  fresh : s.fresh ≤ s'.fresh
  record : ∀ f' o, s'.lock = some f' → f'.owner = some o →
    (∃ f, s.lock = some f ∧ f.owner = some o ∧ f.creator = f'.creator) ∨
      ∃ q p c, s.procs q = some p ∧ p.pc.call = some c ∧ o.token = c.token ∧ o.pid = q

/-- A change of the files that leaves alone what the process `p` at `q` relies on. -/
structure Keeps (s s' : State α) (q : ℕ) (p : Process α) : Prop where
  lock : ∀ f, s.lock = some f → f.creator = p.id ∨ s.recovery = some p.id ∧ Dead s f.creator →
    ∃ f', s'.lock = some f' ∧ f'.creator = f.creator
  recovery : s.recovery = some p.id → s'.recovery = some p.id
  temp : s'.temp q = s.temp q
  turns : ∀ f, s.lock = some f → f.creator = p.id → s'.turns = s.turns
  tokens : ∀ t' ∈ s'.turns, (∃ t ∈ s.turns, t.token = t'.token) ∨
    ∃ r p c, r ≠ q ∧ s.procs r = some p ∧ p.pc.call = some c ∧ c.token = t'.token

theorem Quiet.dead {id : ℕ} (h : Quiet s s') (hd : Dead s id) : Dead s' id := by
  intro q p hq
  rw [h.procs] at hq
  exact hd q p hq

theorem Quiet.known {o : Owner} (h : Quiet s s') (hk : Known s o) : Known s' o where
  token_lt := Nat.lt_of_lt_of_le hk.token_lt h.fresh
  caller q p c hq := by
    rw [h.procs] at hq
    exact hk.caller q p c hq
  record f' o' hf' ho' ht := by
    rcases h.record f' o' hf' ho' with ⟨f, hf, ho, -⟩ | ⟨q, p, c, hq, hc, hto, hpid⟩
    · exact hk.record f o' hf ho ht
    · rw [hpid]
      exact hk.caller q p c hq hc (hto.symm.trans ht)

theorem Quiet.gone {o : Owner} (h : Quiet s s') (hg : Gone s o) : Gone s' o where
  token_lt := Nat.lt_of_lt_of_le hg.token_lt h.fresh
  caller q p c hq := by
    rw [h.procs] at hq
    exact hg.caller q p c hq
  record f' o' hf' ho' ht := by
    rcases h.record f' o' hf' ho' with ⟨f, hf, ho, hcr⟩ | ⟨q, p, c, hq, hc, hto, -⟩
    · rw [← hcr]
      exact h.dead (hg.record f o' hf ho ht)
    · exact absurd (hto.symm.trans ht) (hg.caller q p c hq hc)

theorem Keeps.unused (hk : Keeps s s' q p) (hg : Global init s) (hp : s.procs q = some p) (hc : p.pc.call = some c) (hu : Unused s c) :
    Unused s' c := by
  intro t' ht' he
  rcases hk.tokens t' ht' with ⟨t, ht, hte⟩ | ⟨r, p', c', hne, hr, hc', hte⟩
  · exact hu t ht (hte.trans he)
  · exact hne (hg.token_inj r q p' p c' c hr hp hc' hc (hte.trans he))

theorem Keeps.reclaiming {r : Reclaim} (hk : Keeps s s' q p) (hq : Quiet s s') (h : Reclaiming s p.id r) : Reclaiming s' p.id r := by
  cases r with
  | opening => trivial
  | reading => exact hk.recovery h
  | probing o => exact ⟨hk.recovery h.1, hq.known h.2⟩
  | rereading o => exact ⟨hk.recovery h.1, hq.gone h.2⟩
  | removing =>
    obtain ⟨hr, f, hf, hd⟩ := h
    obtain ⟨f', hf', hcr⟩ := hk.lock f hf (.inr ⟨hr, hd⟩)
    exact ⟨hk.recovery hr, f', hf', hcr ▸ hq.dead hd⟩
  | leaving b => exact hk.recovery h

theorem Keeps.holding {pre : List (Turn α)} {t : Turn α} (hk : Keeps s s' q p) (h : Holding init s p.id c pre t) :
    Holding init s' p.id c pre t := by
  obtain ⟨f, hf, hcr⟩ := h.lock
  obtain ⟨f', hf', hcr'⟩ := hk.lock f hf (.inl hcr)
  exact { h with
    lock := ⟨f', hf', hcr'.trans hcr⟩
    turns := (hk.turns f hf hcr).trans h.turns }

theorem Keeps.local_ (hk : Keeps s s' q p) (hq : Quiet s s') (hg : Global init s) (hp : s.procs q = some p)
    (h : Local init s q p) : Local init s' q p := by
  obtain ⟨id, pc⟩ := p
  cases pc with
  | idle => trivial
  | opening c | waiting c => exact hk.unused hg hp rfl h
  | reclaiming c r => exact ⟨hk.unused hg hp rfl h.1, hk.reclaiming hq h.2⟩
  | holding c w =>
    obtain ⟨pre, t, hh, hprog⟩ := h
    exact ⟨pre, t, hk.holding hh, by rw [hk.temp]; exact hprog⟩

theorem Mid.change (h : Mid init s pid) (hq : Quiet s s') (hg : Global init s')
    (hk : ∀ q p, q ≠ pid → s.procs q = some p → Keeps s s' q p) : Mid init s' pid where
  toGlobal := hg
  others q p hne hp := by
    rw [hq.procs] at hp
    exact (hk q p hne hp).local_ hq h.toGlobal hp (h.others q p hne hp)

/-! ## Steps of the processes -/

/-- A change of the process at `pid`: it is as before, but for its place, or it is new. -/
structure Moves (s s' : State α) (pid : ℕ) : Prop where
  others : ∀ q, q ≠ pid → s'.procs q = s.procs q
  fresh : s.fresh ≤ s'.fresh
  lock : s'.lock = s.lock
  recovery : s'.recovery = s.recovery
  temp : s'.temp = s.temp
  file : s'.file = s.file
  turns : s'.turns = s.turns
  id : ∀ p', s'.procs pid = some p' → (s.fresh ≤ p'.id ∧ p'.id < s'.fresh) ∨ ∃ p, s.procs pid = some p ∧ p.id = p'.id
  token : ∀ p' c', s'.procs pid = some p' → p'.pc.call = some c' → (s.fresh ≤ c'.token ∧ c'.token < s'.fresh) ∨
    ∃ p c, s.procs pid = some p ∧ p.pc.call = some c ∧ c.token = c'.token

theorem Moves.dead {id : ℕ} (h : Moves s s' pid) (hlt : id < s.fresh) (hd : Dead s id) : Dead s' id := by
  intro q p' hq
  by_cases hne : q = pid
  · subst hne
    rcases h.id p' hq with ⟨hle, -⟩ | ⟨p, hp, hid⟩
    · omega
    · exact hid ▸ hd q p hp
  · rw [h.others q hne] at hq
    exact hd q p' hq

/-- The live calls of an old token are where they were. -/
theorem Moves.caller {p' : Process α} {c' : Call α} (h : Moves s s' pid) (hq : s'.procs q = some p')
    (hc : p'.pc.call = some c') (hlt : c'.token < s.fresh) :
    ∃ p c, s.procs q = some p ∧ p.pc.call = some c ∧ c.token = c'.token := by
  by_cases hne : q = pid
  · subst hne
    rcases h.token p' c' hq hc with ⟨hle, -⟩ | hold
    · omega
    · exact hold
  · rw [h.others q hne] at hq
    exact ⟨p', c', hq, hc, rfl⟩

/-- The live processes of an old number are where they were. -/
theorem Moves.process {p' : Process α} (h : Moves s s' pid) (hq : s'.procs q = some p') (hlt : p'.id < s.fresh) :
    ∃ p, s.procs q = some p ∧ p.id = p'.id := by
  by_cases hne : q = pid
  · subst hne
    rcases h.id p' hq with ⟨hle, -⟩ | hold
    · omega
    · exact hold
  · rw [h.others q hne] at hq
    exact ⟨p', hq, rfl⟩

theorem Moves.known {o : Owner} (h : Moves s s' pid) (hk : Known s o) : Known s' o where
  token_lt := Nat.lt_of_lt_of_le hk.token_lt h.fresh
  caller q p' c' hq hc ht := by
    obtain ⟨p, c, hp, hcp, hct⟩ := h.caller hq hc (ht ▸ hk.token_lt)
    exact hk.caller q p c hp hcp (hct.trans ht)
  record f o' hf := by
    rw [h.lock] at hf
    exact hk.record f o' hf

theorem Moves.gone {o : Owner} (h : Moves s s' pid) (hg : Global init s) (hk : Gone s o) : Gone s' o where
  token_lt := Nat.lt_of_lt_of_le hk.token_lt h.fresh
  caller q p' c' hq hc ht := by
    obtain ⟨p, c, hp, hcp, hct⟩ := h.caller hq hc (ht ▸ hk.token_lt)
    exact hk.caller q p c hp hcp (hct.trans ht)
  record f o' hf ho ht := by
    rw [h.lock] at hf
    exact h.dead (hg.creator_lt f hf) (hk.record f o' hf ho ht)

theorem Moves.reclaiming {r : Reclaim} {id : ℕ} (h : Moves s s' pid) (hg : Global init s) (hr : Reclaiming s id r) :
    Reclaiming s' id r := by
  cases r with
  | opening => trivial
  | reading => exact h.recovery.trans hr
  | probing o => exact ⟨h.recovery.trans hr.1, h.known hr.2⟩
  | rereading o => exact ⟨h.recovery.trans hr.1, h.gone hg hr.2⟩
  | removing =>
    obtain ⟨hrec, f, hf, hd⟩ := hr
    exact ⟨h.recovery.trans hrec, f, h.lock.trans hf, h.dead (hg.creator_lt f hf) hd⟩
  | leaving b => exact h.recovery.trans hr

theorem Moves.unused (h : Moves s s' pid) (hu : Unused s c) : Unused s' c := by
  intro t ht
  rw [h.turns] at ht
  exact hu t ht

theorem Moves.holding {id : ℕ} {pre : List (Turn α)} {t : Turn α} (h : Moves s s' pid)
    (hh : Holding init s id c pre t) : Holding init s' id c pre t :=
  { hh with
    lock := by rw [h.lock]; exact hh.lock
    turns := h.turns.trans hh.turns }

theorem Moves.local_ (h : Moves s s' pid) (hg : Global init s) (hl : Local init s q p) : Local init s' q p := by
  obtain ⟨id, pc⟩ := p
  cases pc with
  | idle => trivial
  | opening c | waiting c => exact h.unused hl
  | reclaiming c r => exact ⟨h.unused hl.1, h.reclaiming hg hl.2⟩
  | holding c w =>
    obtain ⟨pre, t, hh, hprog⟩ := hl
    exact ⟨pre, t, h.holding hh, by rw [h.temp]; exact hprog⟩

/-- Only the process at `pid` can have a new token. -/
theorem Moves.fresh_caller {p' : Process α} {c' : Call α} (h : Moves s s' pid) (hg : Global init s)
    (hq : s'.procs q = some p') (hc : p'.pc.call = some c') (hlt : ¬c'.token < s.fresh) : q = pid := by
  by_contra hne
  rw [h.others q hne] at hq
  exact hlt (hg.token_lt q p' c' hq hc)

theorem Moves.global (h : Moves s s' pid) (hg : Global init s) : Global init s' where
  file := by rw [h.file, h.turns, hg.file]
  id_lt q p' hq := by
    by_cases hlt : p'.id < s.fresh
    · exact Nat.lt_of_lt_of_le hlt h.fresh
    · by_cases hne : q = pid
      · subst hne
        rcases h.id p' hq with ⟨-, hlt'⟩ | ⟨p, hp, hid⟩
        · exact hlt'
        · exact absurd (hid ▸ hg.id_lt q p hp) hlt
      · rw [h.others q hne] at hq
        exact absurd (hg.id_lt q p' hq) hlt
  id_inj q r p p' hq hr hid := by
    have hnew : ∀ q p', s'.procs q = some p' → ¬p'.id < s.fresh → q = pid := by
      intro q p' hq hlt
      by_contra hne
      rw [h.others q hne] at hq
      exact hlt (hg.id_lt q p' hq)
    by_cases hlt : p.id < s.fresh
    · obtain ⟨p₀, hp₀, hid₀⟩ := h.process hq hlt
      obtain ⟨p₁, hp₁, hid₁⟩ := h.process hr (hid ▸ hlt)
      exact hg.id_inj q r p₀ p₁ hp₀ hp₁ (by omega)
    · exact (hnew q p hq hlt).trans (hnew r p' hr (hid ▸ hlt)).symm
  token_lt q p' c' hq hc := by
    by_cases hlt : c'.token < s.fresh
    · exact Nat.lt_of_lt_of_le hlt h.fresh
    · obtain rfl := h.fresh_caller hg hq hc hlt
      rcases h.token p' c' hq hc with ⟨-, hlt'⟩ | ⟨p, c, hp, hcp, hct⟩
      · exact hlt'
      · exact absurd (hct ▸ hg.token_lt q p c hp hcp) hlt
  token_inj q r p p' c c' hq hr hc hc' ht := by
    by_cases hlt : c.token < s.fresh
    · obtain ⟨p₀, c₀, hp₀, hc₀, ht₀⟩ := h.caller hq hc hlt
      obtain ⟨p₁, c₁, hp₁, hc₁, ht₁⟩ := h.caller hr hc' (ht ▸ hlt)
      exact hg.token_inj q r p₀ p₁ c₀ c₁ hp₀ hp₁ hc₀ hc₁ (by omega)
    · exact (h.fresh_caller hg hq hc hlt).trans (h.fresh_caller hg hr hc' (ht ▸ hlt)).symm
  turn_lt t ht := by
    rw [h.turns] at ht
    exact Nat.lt_of_lt_of_le (hg.turn_lt t ht) h.fresh
  creator_lt f hf := by
    rw [h.lock] at hf
    exact Nat.lt_of_lt_of_le (hg.creator_lt f hf) h.fresh
  owner f o hf ho := by
    rw [h.lock] at hf
    exact h.known (hg.owner f o hf ho)
  creator f o hf ho q p' hq hid := by
    rw [h.lock] at hf
    obtain ⟨p, hp, hpid⟩ := h.process hq (hid ▸ hg.creator_lt f hf)
    exact hg.creator f o hf ho q p hp (hpid.trans hid)

theorem Mid.finish (h : Mid init s pid) (hm : Moves s s' pid)
    (hl : ∀ p', s'.procs pid = some p' → Local init s' pid p') : Inv init s' where
  toGlobal := hm.global h.toGlobal
  local_ q p' hq := by
    by_cases hne : q = pid
    · subst hne
      exact hl p' hq
    · rw [hm.others q hne] at hq
      exact hm.local_ h.toGlobal (h.others q p' hne hq)

/-- The process at `pid` is replaced by `x`. -/
theorem Moves.update {x : Option (Process α)} {n : ℕ} (hn : s.fresh ≤ n)
    (hid : ∀ p', x = some p' → (s.fresh ≤ p'.id ∧ p'.id < n) ∨ ∃ p, s.procs pid = some p ∧ p.id = p'.id)
    (htoken : ∀ p' c', x = some p' → p'.pc.call = some c' → (s.fresh ≤ c'.token ∧ c'.token < n) ∨
      ∃ p c, s.procs pid = some p ∧ p.pc.call = some c ∧ c.token = c'.token) :
    Moves s { s with procs := Function.update s.procs pid x, fresh := n } pid where
  others _ hne := Function.update_of_ne hne _ _
  fresh := hn
  lock := rfl
  recovery := rfl
  temp := rfl
  file := rfl
  turns := rfl
  id p' hp' := hid p' ((Function.update_self pid x s.procs).symm.trans hp')
  token p' c' hp' := htoken p' c' ((Function.update_self pid x s.procs).symm.trans hp')

theorem Mid.update {x : Option (Process α)} {n : ℕ} (h : Mid init s pid)
    (hm : Moves s { s with procs := Function.update s.procs pid x, fresh := n } pid)
    (hl : ∀ p', x = some p' → Local init { s with procs := Function.update s.procs pid x, fresh := n } pid p') :
    Inv init { s with procs := Function.update s.procs pid x, fresh := n } :=
  h.finish hm fun p' hp' => hl p' ((Function.update_self pid x s.procs).symm.trans hp')

theorem Mid.goto {pc : Pc α} (h : Mid init s pid) (hp : s.procs pid = some p)
    (hc : ∀ c', pc.call = some c' → p.pc.call = some c') (hl : Local init s pid ⟨p.id, pc⟩) :
    Inv init (s.goto pid p pc) := by
  have hm : Moves s (s.goto pid p pc) pid := by
    refine .update (Nat.le_refl _) (fun p' hp' => ?_) fun p' c' hp' hc' => ?_
    · cases hp'
      exact .inr ⟨p, hp, rfl⟩
    · cases hp'
      exact .inr ⟨p, c', hp, hc c' hc', rfl⟩
  refine h.update hm fun p' hp' => ?_
  cases hp'
  exact hm.local_ h.toGlobal hl

/-! ## One lemma for each change -/

theorem Quiet.of_lock (hp : s'.procs = s.procs) (hf : s.fresh ≤ s'.fresh) (hl : s'.lock = s.lock) : Quiet s s' where
  procs := hp
  fresh := hf
  record f _ hlock ho := .inl ⟨f, hl ▸ hlock, ho, rfl⟩

/-- The tokens of the turns are as before. -/
theorem tokens_same (h : s'.turns = s.turns) : ∀ t' ∈ s'.turns, (∃ t ∈ s.turns, t.token = t'.token) ∨
    ∃ r p c, r ≠ q ∧ s.procs r = some p ∧ p.pc.call = some c ∧ c.token = t'.token :=
  fun t' ht' => .inl ⟨t', h ▸ ht', rfl⟩

/-- A process that made the lock file, or that has the recovery mutex in front of a dead one, is the only one. -/
theorem Mid.only {p' : Process α} (h : Mid init s pid) (hp : s.procs pid = some p) (hq : s.procs q = some p')
    (hne : q ≠ pid) {f : LockFile} (hown : f.creator = p.id ∨ s.recovery = some p.id ∧ Dead s f.creator)
    (hown' : f.creator = p'.id ∨ s.recovery = some p'.id ∧ Dead s f.creator) : False := by
  have hid : p'.id ≠ p.id := fun hid => hne (h.id_inj q pid p' p hq hp hid)
  rcases hown with hcr | ⟨hrec, hd⟩
  · rcases hown' with hcr' | ⟨hrec', hd'⟩
    · exact hid (hcr'.symm.trans hcr)
    · exact hd' pid p hp hcr.symm
  · rcases hown' with hcr' | ⟨hrec', hd'⟩
    · exact hd q p' hq hcr'.symm
    · exact hid (Option.some.inj (hrec'.symm.trans hrec))

theorem Mid.create (h : Mid init s pid) (hp : s.procs pid = some p) (hc : p.pc.call = some c) (hl : s.lock = none) :
    Mid init (s.create p.id c) pid := by
  have hq : Quiet s (s.create p.id c) :=
    { procs := rfl
      fresh := Nat.le_succ _
      record := by
        intro f o hf ho
        obtain rfl := Option.some.inj hf
        cases ho }
  have hg : Global init (s.create p.id c) :=
    { h.toGlobal with
      file := by
        change s.file = replay init (s.turns ++ [_])
        rw [replay_concat, Turn.result_open rfl, after_zero, h.file]
      id_lt := fun q p hp => Nat.lt_succ_of_lt (h.id_lt q p hp)
      token_lt := fun q p c hp hc => Nat.lt_succ_of_lt (h.token_lt q p c hp hc)
      turn_lt := by
        intro t ht
        rcases List.mem_append.1 ht with ht | ht
        · exact Nat.lt_succ_of_lt (h.turn_lt t ht)
        · obtain rfl := List.mem_singleton.1 ht
          exact Nat.lt_succ_of_lt (h.token_lt pid p c hp hc)
      creator_lt := by
        intro f hf
        obtain rfl := Option.some.inj hf
        exact Nat.lt_succ_of_lt (h.id_lt pid p hp)
      owner := by
        intro f o hf ho
        obtain rfl := Option.some.inj hf
        cases ho
      creator := by
        intro f o hf ho
        obtain rfl := Option.some.inj hf
        cases ho }
  refine h.change hq hg fun q p' hne hq' => ?_
  exact
    { lock := fun f hf => by rw [hl] at hf; cases hf
      recovery := id
      temp := rfl
      turns := fun f hf => by rw [hl] at hf; cases hf
      tokens := by
        intro t ht
        rcases List.mem_append.1 ht with ht | ht
        · exact .inl ⟨t, ht, rfl⟩
        · obtain rfl := List.mem_singleton.1 ht
          exact .inr ⟨pid, p, c, hne.symm, hp, hc, rfl⟩ }

theorem record_lock {fd : ℕ} {o : Owner} {f' : LockFile} (hf' : (s.record fd o).lock = some f') :
    ∃ f, s.lock = some f ∧ f'.creator = f.creator ∧ (f' = f ∨ f'.owner = some o) := by
  obtain ⟨f, hf, rfl⟩ := Option.map_eq_some_iff.1 hf'
  refine ⟨f, hf, ?_⟩
  split
  · exact ⟨rfl, .inr rfl⟩
  · exact ⟨rfl, .inl rfl⟩

theorem lock_record {fd : ℕ} {o : Owner} {f : LockFile} (hf : s.lock = some f) :
    ∃ f', (s.record fd o).lock = some f' ∧ f'.creator = f.creator := by
  refine ⟨if f.ino = fd then { f with owner := some o } else f, by rw [State.record, hf]; rfl, ?_⟩
  split <;> rfl

theorem Mid.record {fd : ℕ} {hostname : String} (h : Mid init s pid) (hp : s.procs pid = some p)
    (hc : p.pc.call = some c) (hown : ∀ f, s.lock = some f → f.creator = p.id) :
    Mid init (s.record fd ⟨c.token, pid, hostname⟩) pid := by
  have hq : Quiet s (s.record fd ⟨c.token, pid, hostname⟩) :=
    { procs := rfl
      fresh := Nat.le_refl _
      record := by
        intro f' o hf' ho
        obtain ⟨f, hf, hcr, rfl | hnew⟩ := record_lock hf'
        · exact .inl ⟨f', hf, ho, rfl⟩
        · obtain rfl := Option.some.inj (hnew.symm.trans ho)
          exact .inr ⟨pid, p, c, hp, hc, rfl, rfl⟩ }
  have hnew : Known (s.record fd ⟨c.token, pid, hostname⟩) ⟨c.token, pid, hostname⟩ :=
    { token_lt := h.token_lt pid p c hp hc
      caller := fun q p' c' hq' hc' ht => h.token_inj q pid p' p c' c hq' hp hc' hc ht
      record := by
        intro f' o hf' ho ht
        obtain ⟨f, hf, hcr, rfl | hnew⟩ := record_lock hf'
        · exact ((h.owner f' o hf ho).caller pid p c hp hc ht.symm).symm
        · obtain rfl := Option.some.inj (hnew.symm.trans ho)
          rfl }
  have hg : Global init (s.record fd ⟨c.token, pid, hostname⟩) :=
    { h.toGlobal with
      creator_lt := by
        intro f' hf'
        obtain ⟨f, hf, hcr, -⟩ := record_lock hf'
        exact hcr ▸ h.creator_lt f hf
      owner := by
        intro f' o hf' ho
        obtain ⟨f, hf, hcr, rfl | hrec⟩ := record_lock hf'
        · exact hq.known (h.owner f' o hf ho)
        · obtain rfl := Option.some.inj (hrec.symm.trans ho)
          exact hnew
      creator := by
        intro f' o hf' ho q p' hq' hid
        obtain ⟨f, hf, hcr, rfl | hrec⟩ := record_lock hf'
        · exact h.creator f' o hf ho q p' hq' hid
        · obtain rfl := Option.some.inj (hrec.symm.trans ho)
          exact h.id_inj q pid p' p hq' hp (hid.trans (hcr.trans (hown f hf))) }
  refine h.change hq hg fun q p' hne hq' => ?_
  exact
    { lock := fun f hf _ => lock_record hf
      recovery := id
      temp := rfl
      turns := fun f hf _ => rfl
      tokens := tokens_same rfl }

theorem Mid.unlinkLock {ok : Bool} (h : Mid init s pid) (hp : s.procs pid = some p)
    (hown : ∀ f, s.lock = some f → f.creator = p.id ∨ s.recovery = some p.id ∧ Dead s f.creator) :
    Mid init (s.unlinkLock ok) pid := by
  have hsub : ∀ {f}, (s.unlinkLock ok).lock = some f → s.lock = some f := by
    intro f hf
    cases ok with
    | true => cases hf
    | false => exact hf
  have hq : Quiet s (s.unlinkLock ok) :=
    { procs := rfl
      fresh := Nat.le_refl _
      record := fun f o hf ho => .inl ⟨f, hsub hf, ho, rfl⟩ }
  have hg : Global init (s.unlinkLock ok) :=
    { h.toGlobal with
      creator_lt := fun f hf => h.creator_lt f (hsub hf)
      owner := fun f o hf ho => hq.known (h.owner f o (hsub hf) ho)
      creator := fun f o hf ho => h.creator f o (hsub hf) ho }
  refine h.change hq hg fun q p' hne hq' => ?_
  exact
    { lock := fun f hf hown' => (h.only hp hq' hne (hown f hf) hown').elim
      recovery := id
      temp := rfl
      turns := fun f hf _ => rfl
      tokens := tokens_same rfl }

theorem Mid.setRecovery {r : Option ℕ} (h : Mid init s pid) (hp : s.procs pid = some p)
    (hr : s.recovery = none ∨ s.recovery = some p.id) : Mid init (s.setRecovery r) pid := by
  have hq : Quiet s (s.setRecovery r) := .of_lock rfl (Nat.le_refl _) rfl
  have hg : Global init (s.setRecovery r) :=
    { h.toGlobal with owner := fun f o hf ho => hq.known (h.owner f o hf ho) }
  refine h.change hq hg fun q p' hne hq' => ?_
  have hother : s.recovery ≠ some p'.id := by
    intro hrec
    rcases hr with hnone | hown
    · rw [hnone] at hrec
      cases hrec
    · have hid := Option.some.inj (hown.symm.trans hrec)
      exact hne (h.id_inj q pid p' p hq' hp hid.symm)
  exact
    { lock := fun f hf _ => ⟨f, hf, rfl⟩
      recovery := fun hrec => absurd hrec hother
      temp := rfl
      turns := fun f hf _ => rfl
      tokens := tokens_same rfl }

theorem Mid.setTemp {a : Option α} (h : Mid init s pid) : Mid init (s.setTemp pid a) pid := by
  have hq : Quiet s (s.setTemp pid a) := .of_lock rfl (Nat.le_refl _) rfl
  have hg : Global init (s.setTemp pid a) :=
    { h.toGlobal with owner := fun f o hf ho => hq.known (h.owner f o hf ho) }
  refine h.change hq hg fun q p' hne hq' => ?_
  exact
    { lock := fun f hf _ => ⟨f, hf, rfl⟩
      recovery := id
      temp := Function.update_of_ne hne _ _
      turns := fun f hf _ => rfl
      tokens := tokens_same rfl }

/-- While the turn is open, the file has the saves made in it. -/
theorem Holding.file {id : ℕ} {pre : List (Turn α)} {t : Turn α} (h : Holding init s id c pre t) (hg : Global init s) :
    s.file = after c.operation t.saves (replay init pre) := by
  rw [hg.file, h.turns, replay_concat, Turn.result_open h.open_, h.operation]

/-- Only the turn of the call is noted, and it is the last one. -/
theorem Holding.note_turns {id : ℕ} {pre : List (Turn α)} {t : Turn α} (h : Holding init s id c pre t)
    (f : Turn α → Turn α) : (s.note c.token f).turns = pre ++ [f t] := by
  have hpre : pre.map (fun t' => if t'.token = c.token then f t' else t') = pre := by
    conv_rhs => rw [← List.map_id pre]
    refine List.map_congr_left fun t' ht' => ?_
    rw [if_neg (h.pre t' ht')]
    rfl
  change s.turns.map _ = _
  rw [h.turns, List.map_append, hpre, List.map_singleton, if_pos h.token]

theorem note_tokens {token : ℕ} {f : Turn α → Turn α} (hf : ∀ t, (f t).token = t.token) {t' : Turn α}
    (ht' : t' ∈ (s.note token f).turns) : ∃ t ∈ s.turns, t.token = t'.token := by
  obtain ⟨t, ht, rfl⟩ := List.mem_map.1 ht'
  refine ⟨t, ht, ?_⟩
  split
  · exact (hf t).symm
  · rfl

/-- The process that has the lock, or had it, notes something of its turn, and changes the file to go with it. -/
theorem Mid.note {f : Turn α → Turn α} {a : α} {r : Option α} (h : Mid init s pid) (hp : s.procs pid = some p)
    (hf : ∀ t, (f t).token = t.token) (hown : ∀ l, s.lock = some l → l.creator = p.id)
    (hfile : a = replay init (s.note c.token f).turns) :
    Mid init (({ s with file := a }.setTemp pid r).note c.token f) pid := by
  have hq : Quiet s (({ s with file := a }.setTemp pid r).note c.token f) := .of_lock rfl (Nat.le_refl _) rfl
  have hg : Global init (({ s with file := a }.setTemp pid r).note c.token f) :=
    { h.toGlobal with
      file := hfile
      turn_lt := by
        intro t' ht'
        obtain ⟨t, ht, htok⟩ := note_tokens (s := s) hf ht'
        exact htok ▸ h.turn_lt t ht
      owner := fun l o hl ho => hq.known (h.owner l o hl ho) }
  refine h.change hq hg fun q p' hne hq' => ?_
  exact
    { lock := fun l hl _ => ⟨l, hl, rfl⟩
      recovery := id
      temp := Function.update_of_ne hne _ _
      turns := fun l hl hcr => absurd (h.id_inj q pid p' p hq' hp (hcr.symm.trans (hown l hl))) hne
      tokens := fun t' ht' => .inl (note_tokens (s := s) hf ht') }

/-! ## The steps -/

theorem Inv.acquire {ok : Bool} (h : Inv init s) (hp : s.procs pid = some p) (hpc : p.pc = .opening c) :
    Inv init (acquire s pid p c ok) := by
  have hc : p.pc.call = some c := by rw [hpc]; rfl
  have hu : Unused s c := by
    have hl := h.local_ pid p hp
    rwa [Local, hpc] at hl
  unfold Lock.acquire
  split
  · split
    · exact (h.mid pid).goto hp (fun c' hc' => hc.trans hc') ⟨hu, trivial⟩
    · rename_i hl
      refine ((h.mid pid).create hp hc hl).goto hp (fun c' hc' => hc.trans hc') ?_
      exact ⟨s.turns, _, ⟨⟨_, rfl, rfl⟩, rfl, rfl, rfl, rfl, hu⟩, rfl⟩
  · exact (h.mid pid).goto hp (fun c' hc' => by cases hc') trivial

theorem parseOwner_eq_some {ok : Bool} {o : Owner} (h : s.parseOwner ok = some o) :
    ∃ f, s.lock = some f ∧ f.owner = some o := by
  unfold State.parseOwner at h
  split at h
  · exact Option.bind_eq_some_iff.1 h
  · cases h

theorem Inv.reclaim {ok : Bool} {r : Reclaim} (h : Inv init s) (hp : s.procs pid = some p)
    (hpc : p.pc = .reclaiming c r) : Inv init (reclaim s pid p c ok r) := by
  have hc : p.pc.call = some c := by rw [hpc]; rfl
  obtain ⟨hu, hr⟩ : Unused s c ∧ Reclaiming s p.id r := by
    have hl := h.local_ pid p hp
    rwa [Local, hpc] at hl
  have hm := h.mid pid
  have hgo : ∀ r', Reclaiming s p.id r' → Inv init (s.goto pid p (.reclaiming c r')) := fun r' hr' =>
    hm.goto hp (fun c' hc' => hc.trans hc') ⟨hu, hr'⟩
  cases r with
  | opening =>
    simp only [Lock.reclaim]
    split
    · rename_i hok
      have hnone : s.recovery = none := by simpa using (Bool.and_eq_true_iff.1 hok).2
      exact (hm.setRecovery hp (.inl hnone)).goto hp (fun c' hc' => hc.trans hc') ⟨hu, rfl⟩
    · exact hm.goto hp (fun c' hc' => hc.trans hc') hu
  | reading =>
    simp only [Lock.reclaim]
    split
    · exact hgo _ hr
    · rename_i o ho
      split
      · refine hgo _ ⟨hr, ?_⟩
        obtain ⟨f, hf, hown⟩ := parseOwner_eq_some ho
        exact h.owner f o hf hown
      · exact hgo _ hr
  | probing o =>
    obtain ⟨hrec, hk⟩ := hr
    simp only [Lock.reclaim]
    split
    · rename_i hok
      have hnone : s.procs o.pid = none := by simpa using (Bool.and_eq_true_iff.1 hok).2
      refine hgo _ ⟨hrec, hk.token_lt, ?_, ?_⟩
      · intro q p' c' hq hc' ht
        rw [hk.caller q p' c' hq hc' ht, hnone] at hq
        cases hq
      · intro f o' hf ho' ht q p' hq hid
        rw [h.creator f o' hf ho' q p' hq hid, hk.record f o' hf ho' ht, hnone] at hq
        cases hq
    · exact hgo _ hrec
  | rereading o =>
    obtain ⟨hrec, hgone⟩ := hr
    simp only [Lock.reclaim]
    split
    · rename_i hsame
      obtain ⟨o', ho', ht⟩ := Option.map_eq_some_iff.1 hsame
      obtain ⟨f, hf, hown⟩ := parseOwner_eq_some ho'
      exact hgo _ ⟨hrec, f, hf, hgone.record f o' hf hown ht⟩
    · exact hgo _ hrec
  | removing =>
    obtain ⟨hrec, f, hf, hd⟩ := hr
    simp only [Lock.reclaim]
    split
    · have hown : ∀ f', s.lock = some f' → f'.creator = p.id ∨ s.recovery = some p.id ∧ Dead s f'.creator := by
        intro f' hf'
        obtain rfl := Option.some.inj (hf.symm.trans hf')
        exact .inr ⟨hrec, hd⟩
      exact (hm.unlinkLock hp hown).goto hp (fun c' hc' => hc.trans hc') ⟨hu, hrec⟩
    · exact hgo _ hrec
  | leaving reclaimed =>
    simp only [Lock.reclaim]
    refine (hm.setRecovery hp (.inr hr)).goto hp ?_ ?_
    · intro c' hc'
      cases reclaimed <;> exact hc.trans hc'
    · cases reclaimed <;> exact hu

/-- The turn of the call, complete: the file does not change. -/
theorem Mid.complete {pre : List (Turn α)} {t : Turn α} (h : Mid init s pid) (hp : s.procs pid = some p)
    (hown : ∀ l, s.lock = some l → l.creator = p.id) (hh : Holding init s' p.id c pre t) (ht : s'.turns = s.turns)
    (hdone : t.saves = (c.operation (replay init pre)).length) :
    Mid init (s.note c.token Turn.completed) pid := by
  have hturns : (s.note c.token Turn.completed).turns = pre ++ [t.completed] := by
    rw [← hh.note_turns Turn.completed, State.note, State.note, ht]
  have hfile : s.file = replay init (s.note c.token Turn.completed).turns := by
    rw [hturns, h.file, ← ht, hh.turns, replay_concat, replay_concat, Turn.result_open hh.open_,
      t.result_completed, hh.operation, hdone, after_length]
  have hm := h.note (r := s.temp pid) hp Turn.token_completed hown hfile
  rwa [State.setTemp, Function.update_eq_self] at hm

theorem Inv.finish {complete ok : Bool} {pre : List (Turn α)} {t : Turn α} (h : Inv init s)
    (hp : s.procs pid = some p) (hown : ∀ f, s.lock = some f → f.creator = p.id) (hh : Holding init s p.id c pre t)
    (hdone : complete = true → t.saves = (c.operation (replay init pre)).length) :
    Inv init (finish (s.unlinkLock ok) pid p c complete) := by
  have hm : Mid init (s.unlinkLock ok) pid := (h.mid pid).unlinkLock hp fun f hf => .inl (hown f hf)
  have hown' : ∀ f, (s.unlinkLock ok).lock = some f → f.creator = p.id := by
    intro f hf
    cases ok with
    | true => cases hf
    | false => exact hown f hf
  unfold Lock.finish
  split
  · rename_i hcomplete
    exact (hm.complete hp hown' hh rfl (hdone hcomplete)).goto hp (fun c' hc' => by cases hc') trivial
  · exact hm.goto hp (fun c' hc' => by cases hc') trivial

theorem Inv.hold {ok : Bool} {w : Held α} (h : Inv init s) (hp : s.procs pid = some p)
    (hpc : p.pc = .holding c w) : Inv init (hold s pid p c ok w) := by
  have hc : p.pc.call = some c := by rw [hpc]; rfl
  obtain ⟨pre, t, hh, hprog⟩ : ∃ pre t, Holding init s p.id c pre t ∧
      Progress c.operation (replay init pre) t.saves (s.temp pid) w := by
    have hl := h.local_ pid p hp
    rwa [Local, hpc] at hl
  have hm := h.mid pid
  have hown : ∀ f, s.lock = some f → f.creator = p.id := by
    intro f hf
    obtain ⟨f', hf', hcr⟩ := hh.lock
    rw [← Option.some.inj (hf'.symm.trans hf), hcr]
  have hgo : ∀ w', Progress c.operation (replay init pre) t.saves (s.temp pid) w' →
      Inv init (s.goto pid p (.holding c w')) := fun w' hw' =>
    hm.goto hp (fun c' hc' => hc.trans hc') ⟨pre, t, hh, hw'⟩
  cases w with
  | writing fd =>
    simp only [Lock.hold]
    split
    · refine (hm.record hp hc hown).goto hp (fun c' hc' => hc.trans hc') ⟨pre, t, ?_, hprog⟩
      obtain ⟨f, hf, hcr⟩ := hh.lock
      obtain ⟨f', hf', hcr'⟩ := @lock_record _ _ fd ⟨c.token, pid, s.hostname⟩ _ hf
      exact { hh with lock := ⟨f', hf', hcr'.trans hcr⟩ }
    · exact hgo _ trivial
  | syncing =>
    simp only [Lock.hold]
    split
    · exact hgo _ hprog
    · exact hgo _ trivial
  | cleaning =>
    simp only [Lock.hold]
    exact (hm.unlinkLock hp fun f hf => .inl (hown f hf)).goto hp (fun c' hc' => by cases hc') trivial
  | loading =>
    simp only [Lock.hold]
    split
    · refine hgo _ ⟨[], ?_, hprog⟩
      rw [hh.file h.toGlobal, hprog, after_zero, List.nil_append]
    · exact hgo _ (fun hc => by cases hc)
  | saving todo =>
    obtain ⟨done, hop, hn⟩ := hprog
    cases todo with
    | nil =>
      simp only [Lock.hold]
      exact hgo _ (fun _ => by rw [hn, hop, List.append_nil])
    | cons a todo =>
      simp only [Lock.hold]
      split
      · refine hm.setTemp.goto hp (fun c' hc' => hc.trans hc') ⟨pre, t, { hh with }, done, a, ?_, hop, hn⟩
        exact Function.update_self ..
      · exact hgo _ (fun hc => by cases hc)
  | replacing todo =>
    obtain ⟨done, b, htemp, hop, hn⟩ := hprog
    simp only [Lock.hold, htemp]
    split
    · have hfile : b = replay init (s.note c.token Turn.saved).turns := by
        rw [hh.note_turns, replay_concat, Turn.result_saved hh.open_, hh.operation, hn, after_succ hop]
      refine (hm.note hp Turn.token_saved hown hfile).goto hp (fun c' hc' => hc.trans hc')
        ⟨pre, t.saved, { hh with turns := hh.note_turns _ }, done ++ [b], ?_, ?_⟩
      · rw [hop, List.append_assoc, List.singleton_append]
      · simp [Turn.saved, hn]
    · exact hgo _ (fun hc => by cases hc)
  | releasing complete =>
    simp only [Lock.hold]
    split
    · exact hgo _ hprog
    · exact @Inv.finish _ _ _ _ _ _ _ false _ _ h hp hown hh hprog
  | unlinking complete =>
    simp only [Lock.hold]
    exact h.finish hp hown hh hprog

theorem Inv.spawn (h : Inv init s) : Inv init (next s (.spawn pid)) := by
  rw [next]
  split
  · exact h
  · refine (h.mid pid).update (.update (Nat.le_succ _) (fun p' hp' => ?_) fun p' c' hp' hc' => ?_) fun p' hp' => ?_
    · cases hp'
      exact .inl ⟨Nat.le_refl _, Nat.lt_succ_self _⟩
    · cases hp'
      cases hc'
    · cases hp'
      trivial

theorem Inv.crash (h : Inv init s) : Inv init (next s (.crash pid)) :=
  (h.mid pid).update (.update (Nat.le_refl _) (fun _ hp' => by cases hp') fun _ _ hp' => by cases hp') fun _ hp' => by cases hp'

theorem Inv.call {operation : α → List α} (h : Inv init s) : Inv init (next s (.call pid operation)) := by
  rw [next]
  split
  · exact h
  · rename_i p hp
    split
    · refine (h.mid pid).update (.update (Nat.le_succ _) (fun p' hp' => ?_) fun p' c' hp' hc' => ?_) fun p' hp' => ?_
      · cases hp'
        exact .inr ⟨p, hp, rfl⟩
      · cases hp'
        cases hc'
        exact .inl ⟨Nat.le_refl _, Nat.lt_succ_self _⟩
      · cases hp'
        intro t ht
        exact Nat.ne_of_lt (h.turn_lt t ht)
    · exact h

theorem Inv.step {ok : Bool} (h : Inv init s) : Inv init (next s (.step pid ok)) := by
  rw [next]
  split
  · exact h
  · rename_i p hp
    split
    · exact h
    · rename_i c hpc
      exact h.acquire hp hpc
    · rename_i c hpc
      have hu := h.local_ pid p hp
      rw [Local, hpc] at hu
      have hc : p.pc.call = some c := by rw [hpc]; rfl
      cases ok with
      | true => exact (h.mid pid).goto hp (fun c' hc' => hc.trans hc') hu
      | false => exact (h.mid pid).goto hp (fun c' hc' => by cases hc') trivial
    · rename_i c r hpc
      exact h.reclaim hp hpc
    · rename_i c w hpc
      exact h.hold hp hpc

theorem Inv.next (h : Inv init s) (e : Event α) : Inv init (next s e) := by
  cases e with
  | spawn pid => exact h.spawn
  | call pid operation => exact h.call
  | step pid ok => exact h.step
  | crash pid => exact h.crash

theorem inv_start (hostname : String) (init : α) : Inv init (start hostname init) where
  file := rfl
  id_lt _ _ hq := by cases hq
  id_inj _ _ _ _ hq := by cases hq
  token_lt _ _ _ hq := by cases hq
  token_inj _ _ _ _ _ _ hq := by cases hq
  turn_lt _ ht := by cases ht
  creator_lt _ hf := by cases hf
  owner _ _ hf := by cases hf
  creator _ _ hf := by cases hf
  local_ _ _ hq := by cases hq

theorem inv_run (hostname : String) (init : α) (es : List (Event α)) : Inv init (run hostname init es) :=
  Run.final_induction (fun _ e h => h.next e) (inv_start hostname init) es

end LlmGateway.Sessions.Lock
