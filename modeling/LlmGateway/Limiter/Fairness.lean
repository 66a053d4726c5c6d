import LlmGateway.Limiter.Accounting

/-!
# The job limiter conserves work and keeps the order of arrival

* `Settled` — no waiting entry is runnable, the state a finished `pump` leaves;
* `History`, `History.move` — the outcomes so far against the queue: what waits arrived in this order, no entry
  ended twice, and per provider the grants, followed by what still waits, are in the order of arrival;
* `work_conserving_fifo` — the same, of every run.
-/

namespace LlmGateway.Limiter

open LlmGateway.Lib

variable {cfg : Config} {s s' : State} {o : Outcome}

/-! ## Work conservation -/

/-- The provider has all its slots. -/
def AtCap (cfg : Config) (s : State) (p : String) : Prop :=
  (s.runningByProvider.get p).getD 0 ≥ cfg.maxRunningJobsPerProvider

/-- No waiting entry is runnable. -/
def Settled (cfg : Config) (s : State) : Prop := ∀ e ∈ s.queue, canRunNow cfg s e.provider = false

/-- With one more slot of some provider taken, no waiting entry would be runnable. -/
def OneFreed (cfg : Config) (s : State) : Prop :=
  ∃ p, ∀ e ∈ s.queue, s.runningGlobal + 1 ≥ cfg.maxRunningJobs ∨
    (s.runningByProvider.get e.provider).getD 0 + (if p = e.provider then 1 else 0) ≥
      cfg.maxRunningJobsPerProvider

/-- What holds at every point: callers see a settled state, a running `pump` at most one slot away from it. -/
def Flow (cfg : Config) (s : State) : Prop :=
  if s.pumping then Settled cfg s ∨ OneFreed cfg s else Settled cfg s

theorem Flow.settled (h : Flow cfg s) (hp : s.pumping = false) : Settled cfg s := by
  simpa [Flow, hp] using h

theorem Settled.flow (h : Settled cfg s) : Flow cfg s := by
  unfold Flow
  split
  · exact Or.inl h
  · exact h

theorem getD_running_grant (s : State) (p q : String) : ((grant s p).runningByProvider.get q).getD 0 =
    (s.runningByProvider.get q).getD 0 + if p = q then 1 else 0 := by
  rw [grant, JsMap.increment, JsMap.get_set]
  split
  · subst q
    rfl
  · simp

/-- Taking a slot lets nobody else run. -/
theorem canRunNow_grant {p q : String} (h : canRunNow cfg s q = false) : canRunNow cfg (grant s p) q = false := by
  rw [canRunNow_eq_false] at h ⊢
  rw [getD_running_grant]
  rcases h with h | h
  · refine Or.inl ?_
    show s.runningGlobal + 1 ≥ _
    omega
  · refine Or.inr ?_
    split <;> omega

theorem Settled.grant (h : Settled cfg s) (p : String) : Settled cfg (grant s p) :=
  fun e he => canRunNow_grant (h e he)

theorem Settled.enqueue (h : Settled cfg s) {p : String} (hrun : canRunNow cfg s p = false) :
    Settled cfg (enqueue s p) := by
  intro e he
  rcases List.mem_append.1 he with he | he
  · exact h e he
  · obtain rfl := List.mem_singleton.1 he
    exact hrun

theorem Settled.removeEntry (h : Settled cfg s) (e : LimiterQueueEntry) : Settled cfg (removeEntry s e) :=
  fun x hx => h x (List.mem_of_mem_erase hx)

/-- A release unsettles a settled state by one slot. -/
theorem Settled.freeSlot (h : Settled cfg s) (ha : Accounted cfg s) {k : ℕ} {p : String}
    (hk : s.permits[k]? = some ⟨p, false⟩) : OneFreed cfg (freeSlot s k p) := by
  have hlive := live_freeSlot hk
  have ha' := ha.freeSlot hk
  refine ⟨p, fun e he => ?_⟩
  have hof := liveOf_freeSlot hk e.provider
  rw [ha'.running, ha'.byProvider.getD]
  rcases canRunNow_eq_false.1 (h e he) with hg | hp
  · rw [ha.running] at hg
    exact Or.inl (by omega)
  · rw [ha.byProvider.getD] at hp
    refine Or.inr ?_
    rw [hof] at hp
    split <;> simp_all

/-- One grant settles it again: it takes the freed slot, or the last global one. -/
theorem OneFreed.pumpGrant (h : OneFreed cfg s) {e : LimiterQueueEntry} (he : e ∈ s.queue)
    (hrun : canRunNow cfg s e.provider = true) : Settled cfg (pumpGrant s e) := by
  obtain ⟨p, hp⟩ := h
  intro x hx
  have hxq : x ∈ s.queue := List.mem_of_mem_erase hx
  obtain ⟨hg, hr⟩ := canRunNow_eq_true.1 hrun
  have hcounts := getD_running_grant (Limiter.removeEntry s e) e.provider x.provider
  rw [canRunNow_eq_false]
  show s.runningGlobal + 1 ≥ _ ∨ ((Limiter.grant (Limiter.removeEntry s e) e.provider).runningByProvider.get
    x.provider).getD 0 ≥ _
  rw [hcounts]
  by_cases hfull : s.runningGlobal + 1 ≥ cfg.maxRunningJobs
  · exact Or.inl hfull
  · -- the global limit binds nobody here, so `e` was runnable only through the freed slot of its provider
    have hep : p = e.provider := by
      by_contra hne
      have := hp e he
      rw [if_neg hne] at this
      omega
    have hx' := hp x hxq
    rw [hep] at hx'
    exact hx'

/-- Every move keeps the flow. -/
theorem Flow.move (h : Flow cfg s) (ha : Accounted cfg s) (hm : Move cfg s s' o) : Flow cfg s' := by
  cases hm with
  | still => exact h
  | rejected hp =>
    exact (show Settled cfg { s with rejectedCount := s.rejectedCount + 1 } from h.settled hp).flow
  | granted p hp => exact ((h.settled hp).grant p).flow
  | queued p hp hrun => exact ((h.settled hp).enqueue hrun).flow
  | freed k p rest hp hk => exact Or.inr ((h.settled hp).freeSlot ha hk)
  | cancelled e hp => exact ((h.settled hp).removeEntry e).flow
  | timedOut e hp =>
    exact (show Settled cfg { removeEntry s e with timedOutCount := s.timedOutCount + 1 } from
      (h.settled hp).removeEntry e).flow
  | resumed rest hp => exact Or.inl (h.settled hp)
  | fired e hp he =>
    have hrun : canRunNow cfg s e.provider = true := by simpa using List.find?_some he
    have hmem := List.mem_of_find?_eq_some he
    have hfl : Settled cfg s ∨ OneFreed cfg s := by simpa [Flow, hp] using h
    rcases hfl with hset | hone
    · exact absurd (hset e hmem) (by simp [hrun])
    · exact (hone.pumpGrant hmem hrun).flow
  | scanned b rest hp hnone =>
    exact (show Settled cfg { s with pumping := b, stack := rest } from hnone).flow

theorem flow_reached (cfg : Config) (es : List Event) : Flow cfg (reached cfg es) := by
  have h : Accounted cfg (reached cfg es) ∧ Flow cfg (reached cfg es) := by
    refine Run.final_induction (P := fun s => Accounted cfg s ∧ Flow cfg s) (fun s e h => ?_) ⟨accounted_init cfg, ?_⟩ es
    · exact ⟨h.1.move (step_move cfg s e), h.2.move h.1 (step_move cfg s e)⟩
    · exact fun e he => absurd he List.not_mem_nil
  exact h.2

/-! ## The order of arrival -/

/-- The entries queued, in the order of arrival. -/
def arrivals (os : List Outcome) : List LimiterQueueEntry :=
  os.filterMap fun | .queued e => some e | _ => none

/-- The entries whose callback was called, in that order. -/
def grants (os : List Outcome) : List LimiterQueueEntry :=
  os.filterMap fun | .fired e _ => some e | _ => none

/-- The entries that were granted, timed out or cancelled, in that order. -/
def endings (os : List Outcome) : List LimiterQueueEntry :=
  os.filterMap fun | .fired e _ | .timedOut e | .cancelled e => some e | _ => none

/-- The entries of a provider. -/
def ofProvider (p : String) (es : List LimiterQueueEntry) : List LimiterQueueEntry :=
  es.filter fun e => e.provider == p

/-- The outcomes so far against the queue. -/
structure History (s : State) (os : List Outcome) : Prop where
  numbered : (arrivals os).Pairwise fun a b => a.id < b.id
  fresh : ∀ e ∈ arrivals os, e.id < s.nextEntry
  waiting : s.queue.Sublist (arrivals os)
  ended : ∀ e ∈ endings os, e ∈ arrivals os
  once : (endings os ++ s.queue).Nodup
  inOrder : ∀ p, (ofProvider p (grants os) ++ ofProvider p s.queue).Sublist (arrivals os)

theorem history_init : History init [] :=
  ⟨List.Pairwise.nil, by simp [arrivals], by simp [init], by simp [endings], by simp [endings, init],
    by simp [ofProvider, grants, init, arrivals]⟩

section History

variable {os : List Outcome}

@[simp] theorem arrivals_concat (os : List Outcome) (o : Outcome) :
    arrivals (os ++ [o]) = arrivals os ++ arrivals [o] := List.filterMap_append

@[simp] theorem grants_concat (os : List Outcome) (o : Outcome) :
    grants (os ++ [o]) = grants os ++ grants [o] := List.filterMap_append

@[simp] theorem endings_concat (os : List Outcome) (o : Outcome) :
    endings (os ++ [o]) = endings os ++ endings [o] := List.filterMap_append

/-- An outcome that is about no entry, of a step that keeps the queue. -/
theorem History.other (h : History s os) (hq : s'.queue = s.queue) (hn : s'.nextEntry = s.nextEntry)
    (h1 : arrivals [o] = []) (h2 : grants [o] = []) (h3 : endings [o] = []) : History s' (os ++ [o]) := by
  constructor <;> simp only [arrivals_concat, grants_concat, endings_concat, h1, h2, h3, hq, hn, List.append_nil]
  exacts [h.numbered, h.fresh, h.waiting, h.ended, h.once, h.inOrder]

theorem History.enqueue (h : History s os) (p : String) :
    History (enqueue s p) (os ++ [.queued ⟨s.nextEntry, p⟩]) := by
  have hnew : (⟨s.nextEntry, p⟩ : LimiterQueueEntry) ∉ arrivals os := fun hm => absurd (h.fresh _ hm) (lt_irrefl _)
  have e1 : arrivals [.queued ⟨s.nextEntry, p⟩] = [⟨s.nextEntry, p⟩] := rfl
  have e2 : grants [.queued ⟨s.nextEntry, p⟩] = [] := rfl
  have e3 : endings [.queued ⟨s.nextEntry, p⟩] = [] := rfl
  refine ⟨?_, ?_, ?_, ?_, ?_, fun q => ?_⟩ <;>
    simp only [arrivals_concat, grants_concat, endings_concat, e1, e2, e3, List.append_nil, Limiter.enqueue]
  · refine List.pairwise_append.2 ⟨h.numbered, List.pairwise_singleton _ _, fun a ha b hb => ?_⟩
    obtain rfl := List.mem_singleton.1 hb
    exact h.fresh a ha
  · intro e he
    rcases List.mem_append.1 he with he | he
    · have := h.fresh e he
      omega
    · obtain rfl := List.mem_singleton.1 he
      exact Nat.lt_succ_self _
  · exact h.waiting.append (List.Sublist.refl _)
  · exact fun e he => List.mem_append_left _ (h.ended e he)
  · rw [← List.append_assoc]
    refine h.once.append (List.nodup_singleton _) (List.disjoint_singleton.2 fun hm => hnew ?_)
    rcases List.mem_append.1 hm with hm | hm
    · exact h.ended _ hm
    · exact h.waiting.subset hm
  · rw [ofProvider, ofProvider, List.filter_append, ← List.append_assoc]
    exact (h.inOrder q).append List.filter_sublist

/-- An entry leaves the queue, with an outcome that ends it. -/
theorem History.leave (h : History s os) {e : LimiterQueueEntry} (he : e ∈ s.queue)
    (hq : s'.queue = s.queue.erase e) (hn : s'.nextEntry = s.nextEntry) (h1 : arrivals [o] = [])
    (h3 : endings [o] = [e])
    (h2 : ∀ p, (ofProvider p (grants [o]) ++ ofProvider p (s.queue.erase e)).Sublist (ofProvider p s.queue)) :
    History s' (os ++ [o]) := by
  refine ⟨?_, ?_, ?_, ?_, ?_, fun p => ?_⟩ <;>
    simp only [arrivals_concat, grants_concat, endings_concat, h1, h3, hq, hn, List.append_nil]
  · exact h.numbered
  · exact h.fresh
  · exact List.erase_sublist.trans h.waiting
  · intro x hx
    rcases List.mem_append.1 hx with hx | hx
    · exact h.ended x hx
    · obtain rfl := List.mem_singleton.1 hx
      exact h.waiting.subset he
  · have hperm : (endings os ++ s.queue).Perm (endings os ++ [e] ++ s.queue.erase e) := by
      rw [List.append_assoc]
      exact List.Perm.append_left _ (List.perm_cons_erase he)
    exact hperm.nodup_iff.1 h.once
  · rw [ofProvider, List.filter_append, List.append_assoc]
    exact (List.Sublist.append_left (h2 p) _).trans (h.inOrder p)

theorem ofProvider_erase_sublist (p : String) (q : List LimiterQueueEntry) (e : LimiterQueueEntry) :
    (ofProvider p (q.erase e)).Sublist (ofProvider p q) := List.erase_sublist.filter _

/-- The first runnable entry is the first of its provider. -/
theorem ofProvider_of_find? {q : List LimiterQueueEntry} {run : String → Bool} {e : LimiterQueueEntry}
    (he : q.find? (fun x => run x.provider) = some e) (p : String) :
    (ofProvider p [e] ++ ofProvider p (q.erase e)).Sublist (ofProvider p q) := by
  by_cases hp : e.provider = p
  · obtain ⟨hrun, as, bs, rfl, has⟩ := List.find?_eq_some_iff_append.1 he
    have hnot : e ∉ as := fun hm => by simpa [hrun] using has e hm
    have hnone : ofProvider p as = [] := by
      refine List.filter_eq_nil_iff.2 fun x hx hxp => ?_
      have hxp : x.provider = e.provider := by simpa [hp] using hxp
      have := has x hx
      rw [hxp] at this
      simp [hrun] at this
    rw [List.erase_append_right _ hnot, List.erase_cons_head]
    simp only [ofProvider] at hnone ⊢
    rw [List.filter_append, List.filter_append, hnone, List.nil_append, List.nil_append,
      ← List.filter_append, List.singleton_append]
  · have hnil : ofProvider p [e] = [] := by simp [ofProvider, hp]
    rw [hnil, List.nil_append]
    exact ofProvider_erase_sublist p q e

/-- Every move extends the history. -/
theorem History.move (h : History s os) (hm : Move cfg s s' o) : History s' (os ++ [o]) := by
  cases hm with
  | still o ho => rcases ho with rfl | rfl <;> exact h.other rfl rfl rfl rfl rfl
  | rejected | granted | freed | resumed | scanned => exact h.other rfl rfl rfl rfl rfl
  | queued p => exact h.enqueue p
  | cancelled e _ he | timedOut e _ he => exact h.leave he rfl rfl rfl rfl fun p => ofProvider_erase_sublist p _ e
  | fired e _ he =>
    exact h.leave (List.mem_of_find?_eq_some he) rfl rfl rfl rfl
      fun p => ofProvider_of_find? he p

end History

theorem history_reached (cfg : Config) (es : List Event) : History (reached cfg es) (trace cfg es) :=
  Run.trace_induction history_init (fun s _ e h => h.move (step_move cfg s e)) es

/-! ## Overtaking -/

/-- An `acquire` that is granted inline found its provider runnable. -/
theorem canRunNow_of_granted {p : String} {k : ℕ} (h : (step cfg s (.acquire p)).2 = .granted k) :
    s.pumping = false ∧ canRunNow cfg s p = true := by
  unfold step at h
  split at h
  · rename_i hen
    refine ⟨by simpa [enabled] using hen, ?_⟩
    by_contra hrun
    simp only [perform, acquire, hrun, if_false] at h
    split at h <;> cases h
  · cases h

/-- When somebody can run, the entries that cannot have their own provider at its cap. -/
theorem atCap_of_blocked {p q : String} (hp : canRunNow cfg s p = true) (hq : canRunNow cfg s q = false) :
    AtCap cfg s q := by
  have hg := (canRunNow_eq_true.1 hp).1
  rcases canRunNow_eq_false.1 hq with hc | hc
  · omega
  · exact hc

/-- A grant from the queue passes only earlier entries of providers that have all their slots. -/
theorem fired_first {os : List Outcome} (h : History s os) {e : LimiterQueueEntry} {k : ℕ}
    (hm : Move cfg s s' (.fired e k)) : canRunNow cfg s e.provider = true ∧
      ∀ x ∈ s.queue, x.id < e.id → AtCap cfg s x.provider := by
  cases hm with
  | still o hs => simp at hs
  | fired _ _ he =>
    obtain ⟨hrun, as, bs, hq, has⟩ := List.find?_eq_some_iff_append.1 he
    have hsorted : s.queue.Pairwise fun a b => a.id < b.id := h.numbered.sublist h.waiting
    refine ⟨hrun, fun x hx hid => ?_⟩
    rw [hq] at hx hsorted
    have hxas : x ∈ as := by
      rcases List.mem_append.1 hx with hx | hx
      · exact hx
      · exfalso
        rcases List.mem_cons.1 hx with rfl | hx
        · omega
        · have := (List.pairwise_cons.1 (List.pairwise_append.1 hsorted).2.1).1 x hx
          omega
    exact atCap_of_blocked hrun (by simpa using has x hxas)

/-- A provider that can run is not at its cap. -/
theorem not_atCap {p : String} (h : canRunNow cfg s p = true) : ¬AtCap cfg s p :=
  not_le.2 (canRunNow_eq_true.1 h).2

/-- **Work conservation and order.**  Between two top-level calls no waiting entry is runnable.  An inline grant
finds no entry of its provider waiting, and it and a grant from the queue pass only entries whose own provider is at
its cap.  Entries are numbered in the order of arrival, each provider's grants come in that order, and no entry ends
twice. -/
theorem work_conserving_fifo (cfg : Config) (es : List Event) :
    (Idle (reached cfg es) → ∀ e ∈ (reached cfg es).queue,
      (reached cfg es).runningGlobal ≥ cfg.maxRunningJobs ∨ AtCap cfg (reached cfg es) e.provider) ∧
    (∀ p k, (step cfg (reached cfg es) (.acquire p)).2 = .granted k →
      ∀ e ∈ (reached cfg es).queue, e.provider ≠ p ∧ AtCap cfg (reached cfg es) e.provider) ∧
    (∀ ev e k, (step cfg (reached cfg es) ev).2 = .fired e k →
      ∀ x ∈ (reached cfg es).queue, x.id < e.id →
        x.provider ≠ e.provider ∧ AtCap cfg (reached cfg es) x.provider) ∧
    (arrivals (trace cfg es)).Pairwise (fun a b => a.id < b.id) ∧
    (∀ p, (ofProvider p (grants (trace cfg es))).Sublist (arrivals (trace cfg es))) ∧
    (∀ e ∈ endings (trace cfg es), e ∈ arrivals (trace cfg es)) ∧
    (endings (trace cfg es)).Nodup := by
  have hflow := flow_reached cfg es
  have hhist := history_reached cfg es
  refine ⟨fun hidle e he => canRunNow_eq_false.1 (hflow.settled hidle.1 e he), fun p k hk e he => ?_,
    fun ev e k hk x hx hid => ?_, hhist.numbered, fun p => ?_, hhist.ended, hhist.once.of_append_left⟩
  · obtain ⟨hp, hrun⟩ := canRunNow_of_granted hk
    have hcap := atCap_of_blocked hrun (hflow.settled hp e he)
    refine ⟨fun heq => not_atCap hrun ?_, hcap⟩
    rwa [← heq]
  · have hm := step_move cfg (reached cfg es) ev
    rw [hk] at hm
    obtain ⟨hrun, hcap⟩ := fired_first hhist hm
    have hx' := hcap x hx hid
    refine ⟨fun heq => not_atCap hrun ?_, hx'⟩
    rwa [← heq]
  · exact (List.sublist_append_left _ _).trans (hhist.inOrder p)

/-- A callback throws while an entry of another provider waits: the slot goes on to that entry. -/
example : trace ⟨1, 1, 2, by decide, by decide⟩
    [.acquire "claude", .acquire "claude", .acquire "codex", .acquire "codex", .release 0, .tick, .callbackThrow,
      .tick, .release 2, .release 2, .tick, .callbackReturn, .tick, .tick, .tick] =
    [.granted 0, .queued ⟨0, "claude"⟩, .queued ⟨1, "codex"⟩, .rejected, .silent, .fired ⟨0, "claude"⟩ 1, .silent,
      .fired ⟨1, "codex"⟩ 2, .silent, .silent, .silent, .silent, .silent, .silent, .silent] := by decide

end LlmGateway.Limiter
