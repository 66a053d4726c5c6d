import LlmGateway.Limiter.Accounting

/-!
# The job limiter, as its callers see it

A caller knows its permit and its entry.  `Held`, `Released` and `Waiting` say what has become of them, and there is one
lemma for each event on which a caller or its callback relies.
-/

namespace LlmGateway.Limiter

open LlmGateway.Lib

variable {cfg : Config} {l l' : State} {k e : ℕ}

/-- The permit was granted, and not released. -/
def Held (l : State) (k : ℕ) : Prop := ∃ p, l.permits[k]? = some ⟨p, false⟩

/-- The permit was granted and released. -/
def Released (l : State) (k : ℕ) : Prop := ∃ p, l.permits[k]? = some ⟨p, true⟩

/-- The entry is in the queue. -/
def Waiting (l : State) (e : ℕ) : Prop := ∃ x ∈ l.queue, x.id = e

/-- The entries in the queue have different numbers, below the next one. -/
structure Numbered (l : State) : Prop where
  nodup : (l.queue.map LimiterQueueEntry.id).Nodup
  lt : ∀ x ∈ l.queue, x.id < l.nextEntry

theorem numbered_init : Numbered init := ⟨List.nodup_nil, fun _ h => by cases h⟩

theorem Held.not_released (h : Held l k) : ¬Released l k := by
  rintro ⟨p, hp⟩
  obtain ⟨q, hq⟩ := h
  rw [hp] at hq
  cases hq

theorem Held.lt (h : Held l k) : k < l.permits.length := by
  obtain ⟨p, hp⟩ := h
  exact (List.getElem?_eq_some_iff.1 hp).1

theorem Waiting.lt (h : Waiting l e) (hn : Numbered l) : e < l.nextEntry := by
  obtain ⟨x, hx, rfl⟩ := h
  exact hn.lt x hx

/-! ## Releasing -/

/-- A step on which callers find their permits as they were, except for one that was released. -/
structure Frees (l l' : State) (k : ℕ) : Prop where
  released : Held l k → Released l' k
  held : ∀ k', k' ≠ k → Held l k' → Held l' k'
  releasedOf : ∀ k', Released l k' → Released l' k'
  length : l'.permits.length = l.permits.length
  queue : l'.queue = l.queue
  nextEntry : l'.nextEntry = l.nextEntry

theorem frees_release (hp : l.pumping = false) : Frees l (step cfg l (.release k)).1 k := by
  have hstep : (step cfg l (.release k)).1 = release l k := by
    simp [step, enabled, perform, hp]
  rw [hstep]
  unfold release
  split
  · rename_i p hk
    obtain ⟨provider, r⟩ := p
    cases r with
    | true => exact ⟨fun _ => ⟨provider, hk⟩, fun _ _ h => h, fun _ h => h, rfl, rfl, rfl⟩
    | false =>
      have hlt := (List.getElem?_eq_some_iff.1 hk).1
      refine ⟨fun _ => ⟨provider, List.getElem?_set_self hlt⟩, ?_, ?_, List.length_set, rfl, rfl⟩
      · rintro k' hne ⟨q, hq⟩
        exact ⟨q, (List.getElem?_set_ne hne.symm).trans hq⟩
      · rintro k' ⟨q, hq⟩
        by_cases hne : k' = k
        · subst hne
          exact ⟨provider, List.getElem?_set_self hlt⟩
        · exact ⟨q, (List.getElem?_set_ne (Ne.symm hne)).trans hq⟩
  · rename_i hk
    refine ⟨?_, fun _ _ h => h, fun _ h => h, rfl, rfl, rfl⟩
    rintro ⟨q, hq⟩
    rw [hk] at hq
    cases hq

/-! ## Leaving the queue -/

/-- A step on which the entry `e` leaves the queue, if it is there. -/
structure Leaves (l l' : State) (e : ℕ) : Prop where
  gone : ¬Waiting l' e
  waiting : ∀ e', e' ≠ e → (Waiting l' e' ↔ Waiting l e')
  nodup : (l'.queue.map LimiterQueueEntry.id).Nodup
  permits : l'.permits = l.permits
  nextEntry : l'.nextEntry = l.nextEntry

theorem Leaves.of_queue {x : LimiterQueueEntry} (h : Numbered l) (hx : x ∈ l.queue)
    (hq : l'.queue = l.queue.erase x) (hp : l'.permits = l.permits) (hn : l'.nextEntry = l.nextEntry) :
    Leaves l l' x.id := by
  have hinj : ∀ y ∈ l.queue, y.id = x.id → y = x := fun y hy he => List.inj_on_of_nodup_map h.nodup hy hx he
  have hnodup : l.queue.Nodup := h.nodup.of_map
  refine ⟨?_, fun e' hne => ?_, ?_, hp, hn⟩
  · rintro ⟨y, hy, he⟩
    rw [hq] at hy
    obtain rfl := hinj y (List.mem_of_mem_erase hy) he
    exact hnodup.not_mem_erase hy
  · constructor
    · rintro ⟨y, hy, he⟩
      rw [hq] at hy
      exact ⟨y, List.mem_of_mem_erase hy, he⟩
    · rintro ⟨y, hy, rfl⟩
      refine ⟨y, ?_, rfl⟩
      rw [hq]
      exact (List.mem_erase_of_ne fun he => hne (congrArg _ he)).2 hy
  · rw [hq]
    exact h.nodup.sublist (List.erase_sublist.map _)

theorem mem_of_queuedEntry' {x : LimiterQueueEntry} (h : queuedEntry l e = some x) : x ∈ l.queue ∧ x.id = e := by
  refine ⟨List.mem_of_find?_eq_some h, ?_⟩
  simpa using List.find?_some h

theorem not_waiting_of_none (h : queuedEntry l e = none) : ¬Waiting l e := by
  rintro ⟨x, hx, rfl⟩
  have := List.find?_eq_none.1 h x hx
  simp at this

theorem leaves_cancel (h : Numbered l) (hp : l.pumping = false) : Leaves l (step cfg l (.cancel e)).1 e := by
  have hstep : (step cfg l (.cancel e)).1 = (cancel l e).1 := by
    simp [step, enabled, perform, hp]
  rw [hstep]
  unfold cancel
  split
  · rename_i x hx
    obtain ⟨hmem, rfl⟩ := mem_of_queuedEntry' hx
    exact .of_queue h hmem rfl rfl rfl
  · rename_i hnone
    exact ⟨not_waiting_of_none hnone, fun _ _ => Iff.rfl, h.nodup, rfl, rfl⟩

/-- `removeEntry` does not start a `pump`. -/
theorem pumping_cancel (hp : l.pumping = false) : (step cfg l (.cancel e)).1.pumping = false := by
  have hstep : (step cfg l (.cancel e)).1 = (cancel l e).1 := by
    simp [step, enabled, perform, hp]
  rw [hstep]
  unfold cancel
  split
  · exact hp
  · exact hp

theorem step_timeout (hn : Numbered l) :
    (∃ x, (step cfg l (.timeout e)).2 = .timedOut x ∧ x.id = e ∧ Waiting l e ∧ Leaves l (step cfg l (.timeout e)).1 e) ∨
      ((step cfg l (.timeout e)).2 = .silent ∧ (step cfg l (.timeout e)).1 = l) := by
  unfold step
  split
  · simp only [perform, timeout]
    split
    · rename_i x hx
      obtain ⟨hmem, rfl⟩ := mem_of_queuedEntry' hx
      exact .inl ⟨x, rfl, rfl, ⟨x, hmem, rfl⟩, .of_queue hn hmem rfl rfl rfl⟩
    · exact .inr ⟨rfl, rfl⟩
  · exact .inr ⟨rfl, rfl⟩

/-! ## Being granted -/

theorem held_append {p : String} : ∀ {k' : ℕ}, (∃ q, (l.permits ++ [⟨p, false⟩])[k']? = some ⟨q, false⟩) ↔
    Held l k' ∨ k' = l.permits.length := by
  intro k'
  constructor
  · rintro ⟨q, hq⟩
    rcases Nat.lt_trichotomy k' l.permits.length with hlt | heq | hgt
    · rw [List.getElem?_append_left hlt] at hq
      exact .inl ⟨q, hq⟩
    · exact .inr heq
    · rw [List.getElem?_eq_none (by simp; omega)] at hq
      cases hq
  · rintro (⟨q, hq⟩ | rfl)
    · exact ⟨q, by rw [List.getElem?_append_left (List.getElem?_eq_some_iff.1 hq).1]; exact hq⟩
    · exact ⟨p, by simp⟩

theorem released_append {p : String} {k' : ℕ} : (∃ q, (l.permits ++ [⟨p, false⟩])[k']? = some ⟨q, true⟩) ↔
    Released l k' := by
  constructor
  · rintro ⟨q, hq⟩
    rcases Nat.lt_trichotomy k' l.permits.length with hlt | heq | hgt
    · rw [List.getElem?_append_left hlt] at hq
      exact ⟨q, hq⟩
    · rw [heq, List.getElem?_concat_length] at hq
      cases hq
    · rw [List.getElem?_eq_none (by simp; omega)] at hq
      cases hq
  · rintro ⟨q, hq⟩
    exact ⟨q, by rw [List.getElem?_append_left (List.getElem?_eq_some_iff.1 hq).1]; exact hq⟩

/-- A step that grants one more permit. -/
structure Grants (l l' : State) : Prop where
  held : ∀ k', Held l' k' ↔ Held l k' ∨ k' = l.permits.length
  released : ∀ k', Released l' k' ↔ Released l k'
  length : l'.permits.length = l.permits.length + 1
  nextEntry : l'.nextEntry = l.nextEntry

theorem Grants.of_permits {p : String} (h : l'.permits = l.permits ++ [⟨p, false⟩]) (hn : l'.nextEntry = l.nextEntry) :
    Grants l l' where
  held k' := by
    rw [Held, h]
    exact held_append
  released k' := by
    rw [Released, h]
    exact released_append
  length := by
    rw [h, List.length_append, List.length_singleton]
  nextEntry := hn

/-- A step on which nobody loses a permit or an entry. -/
structure Extends (l l' : State) : Prop where
  held : ∀ k', Held l k' → Held l' k'
  released : ∀ k', Released l k' → Released l' k'
  waiting : ∀ e', e' < l.nextEntry → (Waiting l' e' ↔ Waiting l e')
  numbered : Numbered l'
  length : l.permits.length ≤ l'.permits.length
  nextEntry : l.nextEntry ≤ l'.nextEntry

theorem Grants.extends (h : Grants l l') (hn : Numbered l) (hq : l'.queue = l.queue) : Extends l l' where
  held k' hk := (h.held k').2 (.inl hk)
  released k' := (h.released k').2
  waiting e' _ := by
    rw [Waiting, Waiting, hq]
  numbered := ⟨by rw [hq]; exact hn.nodup, by rw [hq, h.nextEntry]; exact hn.lt⟩
  length := by
    rw [h.length]
    omega
  nextEntry := Nat.le_of_eq h.nextEntry.symm

theorem Extends.of_same (hn : Numbered l) (hp : l'.permits = l.permits) (hq : l'.queue = l.queue)
    (he : l'.nextEntry = l.nextEntry) : Extends l l' where
  held k' hk := by rwa [Held, hp]
  released k' hk := by rwa [Released, hp]
  waiting e' _ := by
    rw [Waiting, Waiting, hq]
  numbered := ⟨by rw [hq]; exact hn.nodup, by rw [hq, he]; exact hn.lt⟩
  length := by rw [hp]
  nextEntry := by rw [he]

theorem extends_enqueue (p : String) (hn : Numbered l) : Extends l (enqueue l p) ∧ Waiting (enqueue l p) l.nextEntry := by
  have hmem : ∀ x, x ∈ (enqueue l p).queue ↔ x ∈ l.queue ∨ x = ⟨l.nextEntry, p⟩ := by
    intro x
    rw [enqueue, List.mem_append, List.mem_singleton]
  refine ⟨⟨fun _ hk => hk, fun _ hk => hk, fun e' he' => ?_, ⟨?_, fun x hx => ?_⟩, Nat.le_refl _, Nat.le_succ _⟩, ?_⟩
  · constructor
    · rintro ⟨x, hx, rfl⟩
      rcases (hmem x).1 hx with hx | rfl
      · exact ⟨x, hx, rfl⟩
      · exact absurd he' (Nat.lt_irrefl _)
    · rintro ⟨x, hx, rfl⟩
      exact ⟨x, (hmem x).2 (.inl hx), rfl⟩
  · rw [enqueue, List.map_append, List.map_singleton]
    refine List.nodup_append.2 ⟨hn.nodup, List.nodup_singleton _, ?_⟩
    rintro a ha b hb rfl
    obtain ⟨x, hx, rfl⟩ := List.mem_map.1 ha
    exact absurd (List.mem_singleton.1 hb) (Nat.ne_of_lt (hn.lt x hx))
  · rcases (hmem x).1 hx with hx | rfl
    · exact Nat.lt_succ_of_lt (hn.lt x hx)
    · exact Nat.lt_succ_self _
  · exact ⟨_, (hmem _).2 (.inr rfl), rfl⟩

/-- `acquire`: a new permit, a new entry, or neither. -/
theorem step_acquire (p : String) (hn : Numbered l) : Extends l (step cfg l (.acquire p)).1 ∧
    ((∃ k, (step cfg l (.acquire p)).2 = .granted k ∧ l.permits.length ≤ k ∧
        k < (step cfg l (.acquire p)).1.permits.length ∧ Held (step cfg l (.acquire p)).1 k) ∨
      (∃ x, (step cfg l (.acquire p)).2 = .queued x ∧ l.nextEntry ≤ x.id ∧
        x.id < (step cfg l (.acquire p)).1.nextEntry ∧ Waiting (step cfg l (.acquire p)).1 x.id) ∨
      (step cfg l (.acquire p)).2 = .rejected ∨ (step cfg l (.acquire p)).2 = .silent) := by
  unfold step
  split
  · simp only [perform, acquire]
    split
    · have hg : Grants l (grant l p) := .of_permits rfl rfl
      refine ⟨hg.extends hn rfl, .inl ⟨_, rfl, Nat.le_refl _, ?_, (hg.held _).2 (.inr rfl)⟩⟩
      rw [hg.length]
      exact Nat.lt_succ_self _
    · split
      · exact ⟨.of_same hn rfl rfl rfl, .inr (.inr (.inl rfl))⟩
      · obtain ⟨hx, hw⟩ := extends_enqueue p hn
        exact ⟨hx, .inr (.inl ⟨_, rfl, Nat.le_refl _, Nat.lt_succ_self _, hw⟩)⟩
  · exact ⟨.of_same hn rfl rfl rfl, .inr (.inr (.inr rfl))⟩

/-- A scan of `pump`: it grants the first entry that can run, or returns. -/
theorem step_tick (hn : Numbered l) (hp : l.pumping = true) :
    (∃ x, (step cfg l .tick).2 = .fired x l.permits.length ∧ Waiting l x.id ∧
      Grants l (step cfg l .tick).1 ∧ ¬Waiting (step cfg l .tick).1 x.id ∧
      (∀ e', e' ≠ x.id → (Waiting (step cfg l .tick).1 e' ↔ Waiting l e')) ∧ Numbered (step cfg l .tick).1 ∧
      (step cfg l .tick).1.pumping = false) ∨
    ((step cfg l .tick).2 = .silent ∧ (step cfg l .tick).1.queue = l.queue ∧
      (step cfg l .tick).1.permits = l.permits ∧ (step cfg l .tick).1.nextEntry = l.nextEntry) := by
  have hstep : step cfg l .tick = tick cfg l := by
    simp [step, enabled, perform, hp]
  rw [hstep]
  unfold tick
  split
  · rename_i x hx
    have hmem := List.mem_of_find?_eq_some hx
    have hleaves : Leaves l (removeEntry l x) x.id := .of_queue hn hmem rfl rfl rfl
    refine .inl ⟨x, rfl, ⟨x, hmem, rfl⟩, .of_permits rfl rfl, hleaves.gone, hleaves.waiting, ?_, rfl⟩
    exact ⟨hleaves.nodup, fun y hy => hn.lt y (List.mem_of_mem_erase hy)⟩
  · refine .inr ⟨rfl, ?_⟩
    unfold pumpReturn
    split <;> exact ⟨rfl, rfl, rfl⟩

theorem step_callbackReturn : (step cfg l .callbackReturn).1.queue = l.queue ∧
    (step cfg l .callbackReturn).1.permits = l.permits ∧ (step cfg l .callbackReturn).1.nextEntry = l.nextEntry := by
  unfold step
  split
  · simp only [perform, callbackReturn]
    split <;> exact ⟨rfl, rfl, rfl⟩
  · exact ⟨rfl, rfl, rfl⟩

end LlmGateway.Limiter
