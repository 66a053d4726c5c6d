import LlmGateway.Http.Sessions

/-!
# What the HTTP gateway promises of its sessions

* `Sound` — the counters in a state; `ProperAct` — when a request is dispatched to a session, and when one is reaped;
* `Meets` — the condition on a step;
* `gateway_sound_iff` — the gateway keeps its promise exactly in the runs whose steps meet the condition.
-/

namespace LlmGateway.Http

open LlmGateway.Lib

/-- The request is matched to the entry, and its body is read. -/
def Phase.reads (i : ℕ) : Phase → Bool
  | .reading j => j == i
  | _ => false

/-- The entry that the request has made. -/
def Phase.makes : Phase → Option ℕ
  | .connecting i | .initializing i _ => some i
  | _ => none

/-- The request may still make an entry, or give its entry a session id. -/
def Phase.unnamed : Phase → Bool
  | .readingFirst | .connecting _ | .initializing _ false => true
  | _ => false

namespace Gateway

section Promise

variable (limits : Limits) (g : Gateway)

/-- The requests that are served on a session. -/
def served (i : ℕ) : ℕ := g.requests.countWhere (Phase.serves i)

/-- The reservation of the request that is not released. -/
def held (request : ℕ) : ℕ := if (g.requests.get request).any Phase.holds then 1 else 0

structure Sound : Prop where
  pending : g.pendingInitializes = g.requests.countWhere Phase.holds
  capacity : g.sessions.size + g.pendingInitializes ≤ limits.maxSessions
  /-- a reservation is held, or has been released once -/
  released : ∀ request n, g.releases request = some n → n + g.held request = 1
  inFlight : ∀ sessionId i, g.sessions.get sessionId = some i → (g.entries i).inFlight = g.served i
  /-- so that a request that finishes takes no count below zero -/
  unclamped : ∀ i, (g.served i : ℤ) ≤ (g.entries i).inFlight
  closes : ∀ i, (g.entries i).transportCloses ≤ 1 ∧ (g.entries i).serverCloses ≤ 1

/-- A session that a request is dispatched to was not removed; a session that is reaped has no request, and its last one finished
the idle time ago. -/
def ProperAct : Act → Prop
  | .dispatched i => (g.entries i).removed = false
  | .reaped i now =>
    (∀ request p, g.requests.get request = some p → p.isFor i = false) ∧
      ∀ t, (g.entries i).lastFinish = some t → limits.sessionIdleTtlMs ≤ now - t

/-- No body is being read for the session, and if the last one could not be read, that was the idle time ago. -/
def quiet (now : ℤ) (i : ℕ) : Bool :=
  (g.requests.values.all fun p => !p.reads i) &&
    (!(g.entries i).unread || (g.entries i).lastFinish.all fun t => decide (limits.sessionIdleTtlMs ≤ now - t))

/-- A session is not removed while a body is read for it that is read to its end, nor reaped while one is read, or soon after one
could not be read. -/
def Meets : Event → Prop
  | .body request read _ _ _ =>
    match g.requests.get request with
    | some (.reading i) => read = true → (g.entries i).removed = false
    | _ => True
  | .tick now => g.reaping = true → ∀ e ∈ g.idleSessions limits now, g.quiet limits now e.2 = true
  | _ => True

instance (e : Event) : Decidable (g.Meets limits e) := by
  unfold Meets
  split
  · split <;> infer_instance
  · infer_instance
  · infer_instance

end Promise

variable {limits : Limits} {g g' : Gateway}

@[simp] theorem entries_modify (g : Gateway) (i j : ℕ) (f : SessionEntry → SessionEntry) :
    (g.modify i f).entries j = if j = i then f (g.entries i) else g.entries j := by
  unfold modify
  exact Function.update_apply _ _ _ _

/-! ## Reservations -/

structure Reserved (limits : Limits) (g : Gateway) : Prop where
  pending : g.pendingInitializes = g.requests.countWhere Phase.holds
  capacity : g.sessions.size + g.pendingInitializes ≤ limits.maxSessions
  released : ∀ request n, g.releases request = some n → n + g.held request = 1
  fresh : ∀ request, g.nextRequest ≤ request → g.requests.get request = none ∧ g.releases request = none
  holds : ∀ request p, g.requests.get request = some p → p.holds = true → (g.releases request).isSome = true

section Reserved

theorem reserved_init (limits : Limits) : Reserved limits init where
  pending := rfl
  capacity := by
    change (0 : ℤ) + 0 ≤ limits.maxSessions
    omega
  released := by
    intro request n h
    cases h
  fresh := fun request _ => ⟨rfl, rfl⟩
  holds := by
    intro request p h
    cases h

/-- A request goes on, and keeps its reservation if it has one. -/
theorem Reserved.moved (h : Reserved limits g) {request : ℕ} {new : Option Phase}
    (hmoved : JsMap.Moved g.requests g'.requests request new)
    (hold : (g.requests.get request).any Phase.holds = new.any Phase.holds)
    (hpending : g'.pendingInitializes = g.pendingInitializes) (hsize : g'.sessions.size ≤ g.sessions.size)
    (hreleases : g'.releases = g.releases) (hnext : g.nextRequest ≤ g'.nextRequest)
    (hlt : request < g'.nextRequest) : Reserved limits g' where
  pending := by
    have hcount := hmoved.count Phase.holds
    rw [hold] at hcount
    rw [hpending, h.pending]
    omega
  capacity := by
    have := h.capacity
    omega
  released := by
    intro j n hn
    rw [hreleases] at hn
    rw [← h.released j n hn]
    unfold held
    rw [hmoved.get]
    split
    · rename_i hj
      subst hj
      rw [hold]
    · rfl
  fresh := by
    intro j hj
    rw [hmoved.get, if_neg (by omega), hreleases]
    exact h.fresh j (by omega)
  holds := by
    intro j p hp hholds
    rw [hmoved.get] at hp
    rw [hreleases]
    split at hp
    · rename_i hj
      subst hj
      rw [hp, Option.any_some, hholds] at hold
      obtain ⟨q, hq, hqholds⟩ := (Option.any_eq_true _ _).1 hold
      exact h.holds _ q hq hqholds
    · exact h.holds j p hp hholds

/-- Nothing happens to the requests. -/
theorem Reserved.same (h : Reserved limits g) (hrequests : g'.requests = g.requests)
    (hpending : g'.pendingInitializes = g.pendingInitializes) (hsize : g'.sessions.size ≤ g.sessions.size)
    (hreleases : g'.releases = g.releases) (hnext : g.nextRequest ≤ g'.nextRequest) : Reserved limits g' where
  pending := by
    rw [hpending, hrequests]
    exact h.pending
  capacity := by
    have := h.capacity
    omega
  released := by
    intro j n hn
    rw [hreleases] at hn
    unfold held
    rw [hrequests]
    exact h.released j n hn
  fresh := by
    intro j hj
    rw [hrequests, hreleases]
    exact h.fresh j (by omega)
  holds := by
    rw [hrequests, hreleases]
    exact h.holds

theorem Reserved.lt (h : Reserved limits g) {request : ℕ} {p : Phase} (hp : g.requests.get request = some p) :
    request < g.nextRequest := by
  by_contra hle
  have hnone := (h.fresh request (by omega)).1
  rw [hp] at hnone
  cases hnone

/-- A reservation is released. -/
theorem Reserved.release (h : Reserved limits g) {request : ℕ} {old : Phase} {new : Option Phase}
    (hold : g.requests.get request = some old) (holds : old.holds = true) (hnew : new.any Phase.holds = false)
    (hmoved : JsMap.Moved g.requests g'.requests request new)
    (hpending : g'.pendingInitializes = (g.releaseInitializeReservation request false).pendingInitializes)
    (hsize : g'.sessions.size ≤ g.sessions.size + 1)
    (hreleases : g'.releases = (g.releaseInitializeReservation request false).releases)
    (hnext : g'.nextRequest = g.nextRequest) : Reserved limits g' := by
  have hcount := hmoved.count Phase.holds
  rw [hold, Option.any_some, holds, hnew] at hcount
  simp only [if_true, Bool.false_eq_true, if_false, Nat.add_zero] at hcount
  have hpending' : g'.pendingInitializes = max 0 (g.pendingInitializes - 1) := hpending
  have hreleases' : ∀ j, g'.releases j = if j = request then (g.releases request).map (· + 1) else g.releases j := by
    intro j
    rw [hreleases]
    exact Function.update_apply _ _ _ _
  have hlt := h.lt hold
  have hold' := h.pending
  refine ⟨?_, ?_, ?_, ?_, ?_⟩
  · rw [hpending', hold']
    omega
  · have := h.capacity
    rw [hpending']
    omega
  · intro j n hn
    rw [hreleases'] at hn
    unfold held
    rw [hmoved.get]
    by_cases hj : j = request
    · subst hj
      rw [if_pos rfl] at hn
      obtain ⟨n', hn', rfl⟩ := Option.map_eq_some_iff.1 hn
      have hone := h.released j n' hn'
      unfold held at hone
      rw [hold, Option.any_some, holds, if_pos rfl] at hone
      rw [if_pos rfl, hnew]
      simp only [Bool.false_eq_true, if_false]
      omega
    · rw [if_neg hj] at hn
      rw [if_neg (Ne.symm hj)]
      exact h.released j n hn
  · intro j hj
    rw [hmoved.get, hreleases', if_neg (by omega), if_neg (by omega)]
    exact h.fresh j (by omega)
  · intro j p hp hpholds
    rw [hmoved.get] at hp
    rw [hreleases']
    by_cases hj : request = j
    · rw [if_pos hj] at hp
      rw [hp, Option.any_some, hpholds] at hnew
      cases hnew
    · rw [if_neg hj] at hp
      rw [if_neg (Ne.symm hj)]
      exact h.holds j p hp hpholds

/-- A reservation is made, and released at once where no server was created. -/
theorem Reserved.reserved (h : Reserved limits g) {request n : ℕ} {new : Option Phase}
    (hold : (g.requests.get request).any Phase.holds = false) (hlt : request < g.nextRequest)
    (hmoved : JsMap.Moved g.requests g'.requests request new) (hn : n + (if new.any Phase.holds then 1 else 0) = 1)
    (hpending : g'.pendingInitializes = g.pendingInitializes + if new.any Phase.holds then 1 else 0)
    (hcapacity : g'.sessions.size + g'.pendingInitializes ≤ limits.maxSessions)
    (hreleases : ∀ j, g'.releases j = if j = request then some n else g.releases j)
    (hnext : g'.nextRequest = g.nextRequest) : Reserved limits g' := by
  have hcount := hmoved.count Phase.holds
  rw [hold] at hcount
  simp only [Bool.false_eq_true, if_false, Nat.add_zero] at hcount
  refine ⟨?_, hcapacity, ?_, ?_, ?_⟩
  · rw [hpending, h.pending, hcount]
    push_cast
    rfl
  · intro j m hm
    rw [hreleases] at hm
    unfold held
    rw [hmoved.get]
    by_cases hj : j = request
    · subst hj
      rw [if_pos rfl] at hm
      cases hm
      rw [if_pos rfl]
      exact hn
    · rw [if_neg hj] at hm
      rw [if_neg (Ne.symm hj)]
      exact h.released j m hm
  · intro j hj
    rw [hmoved.get, hreleases, if_neg (by omega), if_neg (by omega)]
    exact h.fresh j (by omega)
  · intro j p hp hpholds
    rw [hmoved.get] at hp
    rw [hreleases]
    by_cases hj : j = request
    · rw [if_pos hj]
      rfl
    · rw [if_neg (Ne.symm hj)] at hp
      rw [if_neg hj]
      exact h.holds j p hp hpholds

end Reserved

/-! ## Sessions -/

/-- Where the entries are: in the map under their session id, once they have one. -/
structure Entries (g : Gateway) : Prop where
  own : ∀ request p i, g.requests.get request = some p → p.makes = some i → i = request
  named : ∀ i sessionId, (g.entries i).sessionId = some sessionId →
    sessionId < g.nextSessionId ∧ i < g.nextRequest ∧ ∀ p, g.requests.get i = some p → p.unnamed = false
  mapped : ∀ sessionId i, g.sessions.get sessionId = some i →
    (g.entries i).sessionId = some sessionId ∧ (g.entries i).removed = false ∧ (g.entries i).transportCloses = 0
  blank : ∀ i, (g.entries i).sessionId = none →
    (g.entries i).inFlight = 0 ∧ (g.entries i).removed = false ∧ (g.entries i).transportCloses = 0 ∧
      ∀ request p, g.requests.get request = some p → p.isFor i = false
  inFlight : ∀ sessionId i, g.sessions.get sessionId = some i → (g.entries i).inFlight = g.served i
  unclamped : ∀ i, (g.served i : ℤ) ≤ (g.entries i).inFlight
  finish : ∀ sessionId i, g.sessions.get sessionId = some i → ∀ t, (g.entries i).lastFinish = some t →
    (g.entries i).unread = true ∨ (g.entries i).lastActivityAt = t ∨ 0 < g.served i

section Entries

theorem entries_init : Entries init where
  own := by
    intro request p i h
    cases h
  named := by
    intro i sessionId h
    cases h
  mapped := by
    intro sessionId i h
    cases h
  blank := by
    intro i _
    refine ⟨rfl, rfl, rfl, ?_⟩
    intro request p h
    cases h
  inFlight := by
    intro sessionId i h
    cases h
  unclamped := fun i => le_rfl
  finish := by
    intro sessionId i h
    cases h

theorem isFor_of_serves {i : ℕ} {p : Phase} (h : p.serves i = true) : p.isFor i = true := by
  cases p with
  | reading j => cases h
  | _ => exact h

theorem Entries.own_moved (h : Entries g) {request : ℕ} {new : Option Phase}
    (hmoved : JsMap.Moved g.requests g'.requests request new)
    (hnew : ∀ p i, new = some p → p.makes = some i → i = request) :
    ∀ j p i, g'.requests.get j = some p → p.makes = some i → i = j := by
  intro j p i hp hmakes
  rw [hmoved.get] at hp
  split at hp
  · rename_i hj
    subst hj
    exact hnew p i hp hmakes
  · exact h.own j p i hp hmakes

/-- A session leaves the map. -/
theorem Entries.remove (h : Entries g) {sessionId i : ℕ} (hget : g.sessions.get sessionId = some i)
    (f : SessionEntry → SessionEntry) (hid : ∀ e, (f e).sessionId = e.sessionId) (hflight : ∀ e, (f e).inFlight = e.inFlight)
    (hsessions : g'.sessions = g.sessions.delete sessionId) (hentries : g'.entries = (g.modify i f).entries)
    (hrequests : g'.requests = g.requests) (hnext : g.nextRequest ≤ g'.nextRequest) (hnextId : g'.nextSessionId = g.nextSessionId) :
    Entries g' := by
  have hnamed := (h.mapped sessionId i hget).1
  have hserved : ∀ j, g'.served j = g.served j := by
    intro j
    unfold served
    rw [hrequests]
  have hentry : ∀ j, g'.entries j = if j = i then f (g.entries i) else g.entries j := by
    intro j
    rw [hentries, entries_modify]
  have hsame : ∀ j, (g'.entries j).sessionId = (g.entries j).sessionId ∧ (g'.entries j).inFlight = (g.entries j).inFlight := by
    intro j
    rw [hentry]
    split
    · rename_i hj
      subst hj
      exact ⟨hid _, hflight _⟩
    · exact ⟨rfl, rfl⟩
  have hother : ∀ sessionId' j, g'.sessions.get sessionId' = some j →
      g.sessions.get sessionId' = some j ∧ g'.entries j = g.entries j := by
    intro sessionId' j hget'
    rw [hsessions, JsMap.get_delete] at hget'
    split at hget'
    · cases hget'
    · rename_i hne
      refine ⟨hget', ?_⟩
      rw [hentry, if_neg]
      rintro rfl
      have := (h.mapped sessionId' j hget').1
      rw [hnamed] at this
      exact hne (Option.some.inj this)
  refine ⟨?_, ?_, ?_, ?_, ?_, ?_, ?_⟩
  · rw [hrequests]
    exact h.own
  · intro j sessionId' hj
    rw [(hsame j).1] at hj
    obtain ⟨hlt, hrequest, hphase⟩ := h.named j sessionId' hj
    rw [hnextId, hrequests]
    exact ⟨hlt, by omega, hphase⟩
  · intro sessionId' j hget'
    obtain ⟨hold, heq⟩ := hother sessionId' j hget'
    rw [heq]
    exact h.mapped sessionId' j hold
  · intro j hj
    have hne : j ≠ i := by
      rintro rfl
      rw [(hsame j).1, hnamed] at hj
      cases hj
    rw [hentry, if_neg hne] at hj ⊢
    rw [hrequests]
    exact h.blank j hj
  · intro sessionId' j hget'
    obtain ⟨hold, heq⟩ := hother sessionId' j hget'
    rw [heq, hserved]
    exact h.inFlight sessionId' j hold
  · intro j
    rw [hserved, (hsame j).2]
    exact h.unclamped j
  · intro sessionId' j hget'
    obtain ⟨hold, heq⟩ := hother sessionId' j hget'
    rw [heq, hserved]
    exact h.finish sessionId' j hold

/-- A request goes on that is counted on no entry before and behind. -/
theorem Entries.moved (h : Entries g) {request : ℕ} {new : Option Phase}
    (hmoved : JsMap.Moved g.requests g'.requests request new)
    (hserves : ∀ i, (g.requests.get request).any (Phase.serves i) = new.any (Phase.serves i))
    (hown : ∀ p i, new = some p → p.makes = some i → i = request)
    (hunnamed : ∀ p, new = some p → p.unnamed = true → (g.entries request).sessionId = none)
    (hfor : ∀ p i, new = some p → p.isFor i = true → (g.entries i).sessionId ≠ none)
    (hentries : ∀ i, (g'.entries i).sessionId = (g.entries i).sessionId ∧ (g'.entries i).inFlight = (g.entries i).inFlight ∧
      (g'.entries i).removed = (g.entries i).removed ∧ (g'.entries i).transportCloses = (g.entries i).transportCloses)
    (hfinish : ∀ i, (g.entries i).sessionId ≠ none → g'.entries i = g.entries i) (hsessions : g'.sessions = g.sessions)
    (hnext : g.nextRequest ≤ g'.nextRequest) (hnextId : g'.nextSessionId = g.nextSessionId) : Entries g' := by
  have hserved : ∀ i, g'.served i = g.served i := by
    intro i
    have hcount := hmoved.count (Phase.serves i)
    rw [hserves i] at hcount
    unfold served
    omega
  have hopen : ∀ sessionId i, g'.sessions.get sessionId = some i → g.sessions.get sessionId = some i ∧ g'.entries i = g.entries i := by
    intro sessionId i hget
    rw [hsessions] at hget
    refine ⟨hget, hfinish i ?_⟩
    rw [(h.mapped sessionId i hget).1]
    simp
  refine ⟨h.own_moved hmoved hown, ?_, ?_, ?_, ?_, ?_, ?_⟩
  · intro i sessionId hi
    rw [(hentries i).1] at hi
    obtain ⟨hlt, hrequest, hphase⟩ := h.named i sessionId hi
    refine ⟨by omega, by omega, ?_⟩
    intro p hp
    rw [hmoved.get] at hp
    split at hp
    · rename_i hj
      subst hj
      cases hun : p.unnamed with
      | false => rfl
      | true =>
        rw [hunnamed p hp hun] at hi
        cases hi
    · exact hphase p hp
  · intro sessionId i hget
    obtain ⟨hold, heq⟩ := hopen sessionId i hget
    rw [heq]
    exact h.mapped sessionId i hold
  · intro i hi
    obtain ⟨hid, hflight, hremoved, hcloses⟩ := hentries i
    rw [hid] at hi
    obtain ⟨hzero, hnot, hnone, hfree⟩ := h.blank i hi
    rw [hflight, hremoved, hcloses]
    refine ⟨hzero, hnot, hnone, ?_⟩
    intro j p hp
    rw [hmoved.get] at hp
    split at hp
    · cases hisFor : p.isFor i with
      | false => rfl
      | true => exact absurd hi (hfor p i hp hisFor)
    · exact hfree j p hp
  · intro sessionId i hget
    obtain ⟨hold, heq⟩ := hopen sessionId i hget
    rw [heq, hserved]
    exact h.inFlight sessionId i hold
  · intro i
    rw [hserved, (hentries i).2.1]
    exact h.unclamped i
  · intro sessionId i hget
    obtain ⟨hold, heq⟩ := hopen sessionId i hget
    rw [heq, hserved]
    exact h.finish sessionId i hold

/-- What a count is changed by. -/
def count (o : Option Phase) (i : ℕ) : ℤ := if o.any (Phase.serves i) then 1 else 0

theorem served_moved {request : ℕ} {new : Option Phase} (hmoved : JsMap.Moved g.requests g'.requests request new) (i : ℕ) :
    (g'.served i : ℤ) + count (g.requests.get request) i = g.served i + count new i := by
  have h := congrArg (Nat.cast : ℕ → ℤ) (hmoved.count (Phase.serves i))
  push_cast at h
  exact h

/-- A request starts or finishes on an entry. -/
theorem Entries.counted (h : Entries g) {request i : ℕ} {new : Option Phase} {f : SessionEntry → SessionEntry}
    (hmoved : JsMap.Moved g.requests g'.requests request new) (hid : (g.entries i).sessionId ≠ none)
    (hnew : ∀ p, new = some p → p = .serving i) (hold : ∀ j, j ≠ i → count (g.requests.get request) j = 0)
    (hsame : (f (g.entries i)).sessionId = (g.entries i).sessionId ∧ (f (g.entries i)).removed = (g.entries i).removed ∧
      (f (g.entries i)).transportCloses = (g.entries i).transportCloses)
    (hle : (g.entries i).inFlight + count new i ≤ (f (g.entries i)).inFlight + count (g.requests.get request) i)
    (hmapped : ∀ sessionId, g.sessions.get sessionId = some i →
      (f (g.entries i)).inFlight + count (g.requests.get request) i = (g.entries i).inFlight + count new i ∧
        ∀ t, (f (g.entries i)).lastFinish = some t →
          (f (g.entries i)).unread = true ∨ (f (g.entries i)).lastActivityAt = t ∨ count new i = 1)
    (hentries : g'.entries = (g.modify i f).entries) (hsessions : g'.sessions = g.sessions)
    (hnext : g.nextRequest ≤ g'.nextRequest) (hnextId : g'.nextSessionId = g.nextSessionId) : Entries g' := by
  have hentry : ∀ j, g'.entries j = if j = i then f (g.entries i) else g.entries j := by
    intro j
    rw [hentries, entries_modify]
  have hother : ∀ j, j ≠ i → (g'.served j : ℤ) = g.served j := by
    intro j hj
    have hcount := served_moved hmoved j
    have hzero : count new j = 0 := by
      unfold count
      cases new with
      | none => rfl
      | some p =>
        rw [hnew p rfl]
        simp [Phase.serves, Ne.symm hj]
    rw [hold j hj, hzero] at hcount
    omega
  have hsessionId : ∀ j, (g'.entries j).sessionId = (g.entries j).sessionId := by
    intro j
    rw [hentry]
    split
    · rename_i hj
      subst hj
      exact hsame.1
    · rfl
  refine ⟨h.own_moved hmoved fun p k hp hmakes => (by rw [hnew p hp] at hmakes; cases hmakes), ?_, ?_, ?_, ?_, ?_, ?_⟩
  · intro j sessionId hj
    rw [hsessionId] at hj
    obtain ⟨hlt, hrequest, hphase⟩ := h.named j sessionId hj
    refine ⟨by omega, by omega, ?_⟩
    intro p hp
    rw [hmoved.get] at hp
    split at hp
    · rw [hnew p hp]
      rfl
    · exact hphase p hp
  · intro sessionId j hget
    rw [hsessions] at hget
    have hj := h.mapped sessionId j hget
    rw [hentry]
    split
    · rename_i hji
      subst hji
      rw [hsame.1, hsame.2.1, hsame.2.2]
      exact hj
    · exact hj
  · intro j hj
    rw [hsessionId] at hj
    have hne : j ≠ i := by
      rintro rfl
      exact hid hj
    obtain ⟨hzero, hnot, hnone, hfree⟩ := h.blank j hj
    rw [hentry, if_neg hne]
    refine ⟨hzero, hnot, hnone, ?_⟩
    intro k p hp
    rw [hmoved.get] at hp
    split at hp
    · rw [hnew p hp]
      simp [Phase.isFor, Phase.serves, Ne.symm hne]
    · exact hfree k p hp
  · intro sessionId j hget
    rw [hsessions] at hget
    have hflight := h.inFlight sessionId j hget
    rw [hentry]
    split
    · rename_i hji
      subst hji
      have hcount := served_moved hmoved j
      have heq := (hmapped sessionId hget).1
      omega
    · rename_i hji
      rw [hother j hji]
      exact hflight
  · intro j
    have hflight := h.unclamped j
    rw [hentry]
    split
    · rename_i hji
      subst hji
      have hcount := served_moved hmoved j
      omega
    · rename_i hji
      rw [hother j hji]
      exact hflight
  · intro sessionId j hget t ht
    rw [hsessions] at hget
    rw [hentry] at ht ⊢
    split
    · rename_i hji
      subst hji
      rw [if_pos rfl] at ht
      rcases (hmapped sessionId hget).2 t ht with hunread | hactivity | hcount
      · exact .inl hunread
      · exact .inr (.inl hactivity)
      · right
        right
        have hserved := served_moved hmoved j
        have hpos : count (g.requests.get request) j ≤ g.served j := by
          unfold count
          split
          · rename_i hany
            obtain ⟨p, hp, hserves⟩ := (Option.any_eq_true _ _).1 hany
            have hcountpos : 0 < g.served j := JsMap.countWhere_pos hp hserves
            omega
          · omega
        omega
    · rename_i hji
      rw [if_neg hji] at ht
      have := hother j hji
      rcases h.finish sessionId j hget t ht with hunread | hactivity | hpos
      · exact .inl hunread
      · exact .inr (.inl hactivity)
      · exact .inr (.inr (by omega))

/-- The transport reports its session id. -/
theorem Entries.opened (h : Entries g) {i : ℕ} {t : ℤ} (hget : g.requests.get i = some (.initializing i false))
    (hlt : i < g.nextRequest) (hmoved : JsMap.Moved g.requests g'.requests i (some (.initializing i true)))
    (hentries : g'.entries = (g.modify i (·.initialized g.nextSessionId t)).entries)
    (hsessions : g'.sessions = g.sessions.set g.nextSessionId i) (hnext : g'.nextRequest = g.nextRequest)
    (hnextId : g'.nextSessionId = g.nextSessionId + 1) : Entries g' := by
  have hunnamed : (g.entries i).sessionId = none := by
    cases hid : (g.entries i).sessionId with
    | none => rfl
    | some sessionId =>
      have := (h.named i sessionId hid).2.2 _ hget
      cases this
  obtain ⟨hzero, hnot, hnone, hfree⟩ := h.blank i hunnamed
  have hentry : ∀ j, g'.entries j =
      if j = i then (g.entries i).initialized g.nextSessionId t else g.entries j := by
    intro j
    rw [hentries, entries_modify]
  have hserved : ∀ j, (g'.served j : ℤ) = g.served j + if j = i then 1 else 0 := by
    intro j
    have hcount := served_moved hmoved j
    rw [hget] at hcount
    unfold count at hcount
    by_cases hj : j = i
    · subst hj
      simp [Phase.serves] at hcount
      rw [if_pos rfl]
      exact hcount
    · simp [Phase.serves, Ne.symm hj] at hcount
      rw [if_neg hj]
      omega
  have hempty : g.served i = 0 := by
    apply JsMap.countWhere_eq_zero
    intro request p hp
    cases hserves : p.serves i with
    | false => rfl
    | true =>
      have := hfree request p hp
      rw [isFor_of_serves hserves] at this
      cases this
  have hopen : ∀ sessionId j, g'.sessions.get sessionId = some j →
      (sessionId = g.nextSessionId ∧ j = i) ∨ (j ≠ i ∧ g.sessions.get sessionId = some j) := by
    intro sessionId j hsid
    rw [hsessions, JsMap.get_set] at hsid
    split at hsid
    · rename_i heq
      cases hsid
      exact .inl ⟨heq.symm, rfl⟩
    · refine .inr ⟨?_, hsid⟩
      rintro rfl
      have := (h.mapped sessionId j hsid).1
      rw [hunnamed] at this
      cases this
  refine ⟨h.own_moved hmoved fun p k hp hmakes => (by cases hp; cases hmakes; rfl), ?_, ?_, ?_, ?_, ?_, ?_⟩
  · intro j sessionId hj
    rw [hentry] at hj
    by_cases hji : j = i
    · subst hji
      rw [if_pos rfl] at hj
      cases hj
      refine ⟨by omega, by omega, ?_⟩
      intro p hp
      rw [hmoved.get, if_pos rfl] at hp
      cases hp
      rfl
    · rw [if_neg hji] at hj
      obtain ⟨hlt', hrequest, hphase⟩ := h.named j sessionId hj
      refine ⟨by omega, by omega, ?_⟩
      intro p hp
      rw [hmoved.get, if_neg (Ne.symm hji)] at hp
      exact hphase p hp
  · intro sessionId j hsid
    rw [hentry]
    rcases hopen sessionId j hsid with ⟨rfl, rfl⟩ | ⟨hji, hold⟩
    · rw [if_pos rfl]
      exact ⟨rfl, hnot, hnone⟩
    · rw [if_neg hji]
      exact h.mapped sessionId j hold
  · intro j hj
    rw [hentry] at hj
    by_cases hji : j = i
    · rw [if_pos hji] at hj
      cases hj
    · rw [if_neg hji] at hj
      obtain ⟨hzero', hnot', hnone', hfree'⟩ := h.blank j hj
      rw [hentry, if_neg hji]
      refine ⟨hzero', hnot', hnone', ?_⟩
      intro k p hp
      rw [hmoved.get] at hp
      split at hp
      · cases hp
        simp [Phase.isFor, Phase.serves, Ne.symm hji]
      · exact hfree' k p hp
  · intro sessionId j hsid
    have hcount := hserved j
    rw [hentry]
    rcases hopen sessionId j hsid with ⟨rfl, rfl⟩ | ⟨hji, hold⟩
    · rw [if_pos rfl] at hcount ⊢
      change (g.entries j).inFlight + 1 = _
      omega
    · rw [if_neg hji] at hcount ⊢
      have := h.inFlight sessionId j hold
      omega
  · intro j
    have hcount := hserved j
    have hflight := h.unclamped j
    rw [hentry]
    by_cases hji : j = i
    · subst hji
      rw [if_pos rfl] at hcount ⊢
      change _ ≤ (g.entries j).inFlight + 1
      omega
    · rw [if_neg hji] at hcount ⊢
      omega
  · intro sessionId j hsid t' ht
    have hcount := hserved j
    rw [hentry] at ht ⊢
    rcases hopen sessionId j hsid with ⟨rfl, rfl⟩ | ⟨hji, hold⟩
    · rw [if_pos rfl] at hcount
      exact .inr (.inr (by omega))
    · rw [if_neg hji] at hcount ht ⊢
      rcases h.finish sessionId j hold t' ht with hunread | hactivity | hpos
      · exact .inl hunread
      · exact .inr (.inl hactivity)
      · exact .inr (.inr (by omega))

/-- The server of an entry is closed. -/
theorem Entries.server_closed (h : Entries g) (hrequests : g'.requests = g.requests) (hsessions : g'.sessions = g.sessions)
    (hnext : g.nextRequest ≤ g'.nextRequest) (hnextId : g'.nextSessionId = g.nextSessionId)
    {j : ℕ} (hmodified : g'.entries = (g.modify j SessionEntry.closeServer).entries) : Entries g' := by
  have hentries : ∀ i, (g'.entries i).sessionId = (g.entries i).sessionId ∧ (g'.entries i).inFlight = (g.entries i).inFlight ∧
      (g'.entries i).removed = (g.entries i).removed ∧ (g'.entries i).transportCloses = (g.entries i).transportCloses ∧
      (g'.entries i).lastFinish = (g.entries i).lastFinish ∧ (g'.entries i).unread = (g.entries i).unread ∧
      (g'.entries i).lastActivityAt = (g.entries i).lastActivityAt := by
    intro i
    rw [hmodified, entries_modify]
    split
    · rename_i hi
      subst hi
      exact ⟨rfl, rfl, rfl, rfl, rfl, rfl, rfl⟩
    · exact ⟨rfl, rfl, rfl, rfl, rfl, rfl, rfl⟩
  have hserved : ∀ i, g'.served i = g.served i := by
    intro i
    unfold served
    rw [hrequests]
  refine ⟨?_, ?_, ?_, ?_, ?_, ?_, ?_⟩
  · rw [hrequests]
    exact h.own
  · intro i sessionId hi
    obtain ⟨hid, -⟩ := hentries i
    rw [hid] at hi
    obtain ⟨hlt, hrequest, hphase⟩ := h.named i sessionId hi
    rw [hnextId, hrequests]
    exact ⟨hlt, by omega, hphase⟩
  · intro sessionId i hget
    obtain ⟨hid, -, hremoved, hcloses, -⟩ := hentries i
    rw [hid, hremoved, hcloses]
    exact h.mapped sessionId i (hsessions ▸ hget)
  · intro i hi
    obtain ⟨hid, hflight, hremoved, hcloses, -⟩ := hentries i
    rw [hid] at hi
    rw [hflight, hremoved, hcloses, hrequests]
    exact h.blank i hi
  · intro sessionId i hget
    obtain ⟨-, hflight, -⟩ := hentries i
    rw [hflight, hserved]
    exact h.inFlight sessionId i (hsessions ▸ hget)
  · intro i
    obtain ⟨-, hflight, -⟩ := hentries i
    rw [hflight, hserved]
    exact h.unclamped i
  · intro sessionId i hget t ht
    obtain ⟨-, -, -, -, hfinish, hunread, hactivity⟩ := hentries i
    rw [hfinish] at ht
    rw [hunread, hactivity, hserved]
    exact h.finish sessionId i (hsessions ▸ hget) t ht

end Entries

/-! ## Calls of `closeSession` -/

structure Closings (g : Gateway) : Prop where
  transport : ∀ i, (g.entries i).transportCloses ≤ 1
  server : ∀ i, (g.entries i).serverCloses ≤ (g.entries i).transportCloses
  waiting : ∀ c i, g.closings.get c = some i →
    (g.entries i).transportCloses = 1 ∧ (g.entries i).serverCloses = 0 ∧ c < g.nextClosing
  once : ∀ c c' i, g.closings.get c = some i → g.closings.get c' = some i → c = c'

section Closings

theorem closings_init : Closings init where
  transport := fun i => Nat.zero_le 1
  server := fun i => le_rfl
  waiting := by
    intro c i h
    cases h
  once := by
    intro c c' i h
    cases h

theorem Closings.congr (h : Closings g) (hclosings : g'.closings = g.closings) (hnext : g'.nextClosing = g.nextClosing)
    (hentries : ∀ i, (g'.entries i).transportCloses = (g.entries i).transportCloses ∧
      (g'.entries i).serverCloses = (g.entries i).serverCloses) : Closings g' where
  transport := by
    intro i
    rw [(hentries i).1]
    exact h.transport i
  server := by
    intro i
    rw [(hentries i).1, (hentries i).2]
    exact h.server i
  waiting := by
    intro c i hget
    rw [(hentries i).1, (hentries i).2, hnext]
    exact h.waiting c i (hclosings ▸ hget)
  once := by
    rw [hclosings]
    exact h.once

/-- A change of an entry that closes nothing. -/
theorem Closings.modify (h : Closings g) {i : ℕ} {f : SessionEntry → SessionEntry}
    (hf : ∀ e, (f e).transportCloses = e.transportCloses ∧ (f e).serverCloses = e.serverCloses)
    (hentries : g'.entries = (g.modify i f).entries) (hclosings : g'.closings = g.closings)
    (hnext : g'.nextClosing = g.nextClosing) : Closings g' := by
  apply h.congr hclosings hnext
  intro j
  rw [hentries, entries_modify]
  split
  · rename_i hj
    subst hj
    exact hf _
  · exact ⟨rfl, rfl⟩

theorem Closings.start (h : Closings g) {i : ℕ} (hzero : (g.entries i).transportCloses = 0)
    (hclosings : g'.closings = g.closings.set g.nextClosing i) (hnext : g'.nextClosing = g.nextClosing + 1)
    (hentries : g'.entries = (g.modify i SessionEntry.close).entries) : Closings g' := by
  have hentries : ∀ j, g'.entries j = if j = i then (g.entries i).close else g.entries j := by
    intro j
    rw [hentries, entries_modify]
  have hserver := h.server i
  have hnone : ∀ c, g.closings.get c ≠ some i := by
    intro c hget
    have := (h.waiting c i hget).1
    omega
  refine ⟨?_, ?_, ?_, ?_⟩
  · intro j
    rw [hentries]
    split
    · change (g.entries i).transportCloses + 1 ≤ 1
      omega
    · exact h.transport j
  · intro j
    rw [hentries]
    split
    · change (g.entries i).serverCloses ≤ (g.entries i).transportCloses + 1
      omega
    · exact h.server j
  · intro c j hget
    rw [hclosings, JsMap.get_set] at hget
    rw [hentries]
    by_cases hc : g.nextClosing = c
    · rw [if_pos hc] at hget
      cases hget
      rw [if_pos rfl]
      change (g.entries i).transportCloses + 1 = 1 ∧ (g.entries i).serverCloses = 0 ∧ c < g'.nextClosing
      omega
    · rw [if_neg hc] at hget
      obtain ⟨htransport, hnot, hlt⟩ := h.waiting c j hget
      rw [if_neg]
      · exact ⟨htransport, hnot, by omega⟩
      · rintro rfl
        exact hnone c hget
  · intro c c' j hget hget'
    rw [hclosings, JsMap.get_set] at hget hget'
    by_cases hc : g.nextClosing = c
    · rw [if_pos hc] at hget
      cases hget
      by_cases hc' : g.nextClosing = c'
      · exact hc.symm.trans hc'
      · rw [if_neg hc'] at hget'
        exact absurd hget' (hnone c')
    · rw [if_neg hc] at hget
      by_cases hc' : g.nextClosing = c'
      · rw [if_pos hc'] at hget'
        cases hget'
        exact absurd hget (hnone c)
      · rw [if_neg hc'] at hget'
        exact h.once c c' j hget hget'

theorem Closings.server_closed (h : Closings g) {c i : ℕ} (hget : g.closings.get c = some i)
    (hclosings : g'.closings = g.closings.delete c) (hnext : g'.nextClosing = g.nextClosing)
    (hentries : g'.entries = (g.modify i SessionEntry.closeServer).entries) : Closings g' := by
  have hentries : ∀ j, g'.entries j = if j = i then (g.entries i).closeServer else g.entries j := by
    intro j
    rw [hentries, entries_modify]
  obtain ⟨htransport, hserver, -⟩ := h.waiting c i hget
  refine ⟨?_, ?_, ?_, ?_⟩
  · intro j
    rw [hentries]
    split
    · exact h.transport i
    · exact h.transport j
  · intro j
    rw [hentries]
    split
    · change (g.entries i).serverCloses + 1 ≤ (g.entries i).transportCloses
      omega
    · exact h.server j
  · intro c' j hget'
    rw [hclosings, JsMap.get_delete] at hget'
    split at hget'
    · cases hget'
    · rename_i hne
      rw [hentries, if_neg, hnext]
      · exact h.waiting c' j hget'
      · rintro rfl
        exact hne (h.once c c' j hget hget')
  · intro c' c'' j hget' hget''
    rw [hclosings, JsMap.get_delete] at hget' hget''
    split at hget'
    · cases hget'
    · split at hget''
      · cases hget''
      · exact h.once c' c'' j hget' hget''

end Closings

/-! ## Steps -/

structure Inv (limits : Limits) (g : Gateway) : Prop extends Reserved limits g, Entries g, Closings g

section Steps

theorem inv_init (limits : Limits) : Inv limits init := ⟨reserved_init limits, entries_init, closings_init⟩

theorem Inv.closeSession (h : Inv limits g) (sessionId : ℕ) : Inv limits (g.closeSession sessionId) := by
  unfold Gateway.closeSession
  split
  · exact h
  · rename_i i hget
    refine ⟨h.toReserved.same rfl rfl ?_ rfl le_rfl, ?_, ?_⟩
    · have := JsMap.size_delete hget
      change (g.sessions.delete sessionId).size ≤ g.sessions.size
      omega
    · exact h.toEntries.remove hget SessionEntry.close (fun _ => rfl) (fun _ => rfl) rfl rfl rfl le_rfl rfl
    · exact h.toClosings.start (h.mapped sessionId i hget).2.2 rfl rfl rfl

theorem Inv.closeSessions (h : Inv limits g) (sessionIds : List ℕ) : Inv limits (g.closeSessions sessionIds) := by
  unfold Gateway.closeSessions
  induction sessionIds generalizing g with
  | nil => exact h
  | cons sessionId sessionIds ih => exact ih (h.closeSession sessionId)

theorem Inv.onclose (h : Inv limits g) (i : ℕ) : Inv limits (g.onclose i) := by
  unfold Gateway.onclose
  split
  · exact h
  · rename_i sessionId _
    split
    · exact h
    · rename_i j hget
      refine ⟨h.toReserved.same rfl rfl ?_ rfl le_rfl, ?_, ?_⟩
      · have := JsMap.size_delete hget
        change (g.sessions.delete sessionId).size ≤ g.sessions.size
        omega
      · exact h.toEntries.remove hget SessionEntry.leave (fun _ => rfl) (fun _ => rfl) rfl rfl rfl le_rfl rfl
      · exact h.toClosings.modify (i := j) (f := SessionEntry.leave) (fun _ => ⟨rfl, rfl⟩) rfl rfl rfl

theorem Inv.closeServer (h : Inv limits g) (closing : ℕ) : Inv limits (g.closeServer closing) := by
  unfold Gateway.closeServer
  split
  · exact h
  · rename_i i hget
    refine ⟨h.toReserved.same rfl rfl le_rfl rfl le_rfl, ?_, ?_⟩
    · exact h.toEntries.server_closed (j := i) rfl rfl le_rfl rfl rfl
    · exact h.toClosings.server_closed hget rfl rfl rfl

theorem any_eq_false_of_none {request : ℕ} (h : g.requests.get request = none) (q : Phase → Bool) :
    (g.requests.get request).any q = false := by
  rw [h]
  rfl

/-- A matched request is counted, and dispatched. -/
theorem Inv.serve (h : Inv limits g) {request i n : ℕ} (now : ℤ) (hid : (g.entries i).sessionId ≠ none)
    (hold : g.requests.get request = none ∨ g.requests.get request = some (.reading i)) (hlt : request < n)
    (hn : g.nextRequest ≤ n) : Inv limits { g.serve request i now with nextRequest := n } := by
  have hserves : ∀ j, (g.requests.get request).any (Phase.serves j) = false := by
    intro j
    rcases hold with hold | hold
    · exact any_eq_false_of_none hold _
    · rw [hold]
      rfl
  have hholds : (g.requests.get request).any Phase.holds = false := by
    rcases hold with hold | hold
    · exact any_eq_false_of_none hold _
    · rw [hold]
      rfl
  have hcount : ∀ j, count (g.requests.get request) j = 0 := fun j => if_neg (by simp [hserves j])
  have hone : count (some (.serving i)) i = 1 := by simp [count, Phase.serves]
  have hmoved := JsMap.moved_set g.requests request (.serving i)
  refine ⟨h.toReserved.moved hmoved hholds rfl le_rfl rfl hn hlt, ?_, ?_⟩
  · refine h.toEntries.counted (f := (·.begin now)) hmoved hid (by simp [eq_comm]) (fun j _ => hcount j) ⟨rfl, rfl, rfl⟩ ?_ ?_ rfl rfl hn rfl
    · rw [hcount, hone]
      change _ ≤ (g.entries i).inFlight + 1 + 0
      omega
    · intro sessionId _
      rw [hcount, hone]
      constructor
      · change (g.entries i).inFlight + 1 + 0 = _
        omega
      · exact fun t _ => .inr (.inr rfl)
  · exact h.toClosings.modify (i := i) (f := (·.begin now)) (fun e => ⟨rfl, rfl⟩) rfl rfl rfl

/-- A request that is for an entry: the entry has a session id. -/
theorem Entries.named_of_isFor (h : Entries g) {request i : ℕ} {p : Phase} (hp : g.requests.get request = some p)
    (hfor : p.isFor i = true) : (g.entries i).sessionId ≠ none := by
  intro hnone
  have := (h.blank i hnone).2.2.2 request p hp
  rw [hfor] at this
  cases this

theorem Inv.failBody (h : Inv limits g) {request i : ℕ} (now : ℤ) (hold : g.requests.get request = some (.reading i)) :
    Inv limits (g.failBody request i now) := by
  have hid : (g.entries i).sessionId ≠ none := h.toEntries.named_of_isFor hold (by simp [Phase.isFor])
  have hcount : ∀ j, count (g.requests.get request) j = 0 := by
    intro j
    rw [hold]
    rfl
  have hmoved := JsMap.moved_delete g.requests request
  refine ⟨h.toReserved.moved hmoved (by rw [hold]; rfl) rfl le_rfl rfl le_rfl (h.toReserved.lt hold), ?_, ?_⟩
  · refine h.toEntries.counted (f := (·.fail now)) hmoved hid (by simp) (fun j _ => hcount j) ⟨rfl, rfl, rfl⟩ ?_ ?_ rfl rfl le_rfl rfl
    · rw [hcount]
      exact le_rfl
    · intro sessionId _
      rw [hcount]
      exact ⟨rfl, fun t _ => .inl rfl⟩
  · exact h.toClosings.modify (i := i) (f := (·.fail now)) (fun e => ⟨rfl, rfl⟩) rfl rfl rfl

/-- A request that holds nothing and is counted nowhere goes on as such a request, or ends. -/
theorem Inv.plain (h : Inv limits g) {request n : ℕ} {new : Option Phase} {requests : JsMap ℕ Phase}
    (hmoved : JsMap.Moved g.requests requests request new)
    (hold : (g.requests.get request).any Phase.holds = new.any Phase.holds)
    (hserves : ∀ i, (g.requests.get request).any (Phase.serves i) = new.any (Phase.serves i))
    (hown : ∀ p i, new = some p → p.makes = some i → i = request)
    (hunnamed : ∀ p, new = some p → p.unnamed = true → (g.entries request).sessionId = none)
    (hfor : ∀ p i, new = some p → p.isFor i = true → (g.entries i).sessionId ≠ none) (hn : g.nextRequest ≤ n)
    (hlt : request < n) : Inv limits { g with requests := requests, nextRequest := n } :=
  ⟨h.toReserved.moved hmoved hold rfl le_rfl rfl hn hlt,
    h.toEntries.moved hmoved hserves hown hunnamed hfor (fun _ => ⟨rfl, rfl, rfl, rfl⟩) (fun _ _ => rfl) rfl hn rfl,
    h.toClosings.congr rfl rfl fun _ => ⟨rfl, rfl⟩⟩

theorem Inv.bump (h : Inv limits g) {n : ℕ} (hn : g.nextRequest ≤ n) : Inv limits { g with nextRequest := n } := by
  refine ⟨h.toReserved.same rfl rfl le_rfl rfl hn, ⟨h.own, ?_, h.mapped, h.blank, h.inFlight, h.unclamped, h.finish⟩,
    h.toClosings.congr rfl rfl fun _ => ⟨rfl, rfl⟩⟩
  intro i sessionId hi
  obtain ⟨hlt, hrequest, hphase⟩ := h.named i sessionId hi
  exact ⟨hlt, lt_of_lt_of_le hrequest hn, hphase⟩

theorem closeSession_nextRequest (g : Gateway) (sessionId : ℕ) : (g.closeSession sessionId).nextRequest = g.nextRequest := by
  unfold Gateway.closeSession
  split
  · rfl
  · rfl

theorem Inv.stop (h : Inv limits g) : Inv limits { g with reaping := false } :=
  ⟨h.toReserved.same rfl rfl le_rfl rfl le_rfl, ⟨h.own, h.named, h.mapped, h.blank, h.inFlight, h.unclamped, h.finish⟩,
    h.toClosings.congr rfl rfl fun _ => ⟨rfl, rfl⟩⟩

theorem Inv.post (h : Inv limits g) {sessionId i : ℕ} (hget : g.sessions.get sessionId = some i) :
    Inv limits { g with requests := g.requests.set g.nextRequest (.reading i), nextRequest := g.nextRequest + 1 } := by
  have hnone := (h.fresh g.nextRequest le_rfl).1
  refine h.plain (JsMap.moved_set g.requests g.nextRequest (.reading i)) ?_ ?_ ?_ ?_ ?_ (Nat.le_succ _) (Nat.lt_succ_self _)
  · exact any_eq_false_of_none hnone _
  · intro j
    exact any_eq_false_of_none hnone _
  · intro p j hp hmakes
    cases hp
    cases hmakes
  · intro p hp hunnamed
    cases hp
    cases hunnamed
  · intro p j hp hfor
    cases hp
    have hij : i = j := by simpa [Phase.isFor] using hfor
    subst hij
    rw [(h.mapped sessionId i hget).1]
    simp

theorem Inv.first (h : Inv limits g) :
    Inv limits { g with requests := g.requests.set g.nextRequest .readingFirst, nextRequest := g.nextRequest + 1 } := by
  have hnone := (h.fresh g.nextRequest le_rfl).1
  refine h.plain (JsMap.moved_set g.requests g.nextRequest .readingFirst) ?_ ?_ ?_ ?_ ?_ (Nat.le_succ _) (Nat.lt_succ_self _)
  · exact any_eq_false_of_none hnone _
  · intro j
    exact any_eq_false_of_none hnone _
  · intro p j hp hmakes
    cases hp
    cases hmakes
  · intro p _ _
    cases hid : (g.entries g.nextRequest).sessionId with
    | none => rfl
    | some sessionId => exact absurd (h.named _ sessionId hid).2.1 (lt_irrefl _)
  · intro p j hp hfor
    cases hp
    cases hfor

/-- A request without a session ends. -/
theorem Inv.drop (h : Inv limits g) {request : ℕ} (hold : (g.requests.get request).any Phase.holds = false)
    (hserves : ∀ i, (g.requests.get request).any (Phase.serves i) = false) (hlt : request < g.nextRequest) :
    Inv limits { g with requests := g.requests.delete request } :=
  h.plain (JsMap.moved_delete g.requests request) hold hserves (by simp) (by simp) (by simp) le_rfl hlt

/-- The entry of a request that has no session id yet. -/
theorem Entries.unnamed (h : Entries g) {request : ℕ} {p : Phase} (hget : g.requests.get request = some p)
    (hp : p.unnamed = true) : (g.entries request).sessionId = none := by
  cases hid : (g.entries request).sessionId with
  | none => rfl
  | some sessionId =>
    have := (h.named request sessionId hid).2.2 p hget
    rw [hp] at this
    cases this

theorem Inv.reserve (h : Inv limits g) {request : ℕ} (hget : g.requests.get request = some .readingFirst)
    (isInitialize created : Bool) (now : ℤ) : Inv limits (g.reserve limits request isInitialize created now) := by
  have hlt := h.toReserved.lt hget
  have hholds : (g.requests.get request).any Phase.holds = false := by
    rw [hget]
    rfl
  have hserves : ∀ i, (g.requests.get request).any (Phase.serves i) = false := by
    intro i
    rw [hget]
    rfl
  unfold Gateway.reserve
  split
  · exact h.drop hholds hserves hlt
  · rename_i hroom
    have hroom : (g.sessions.size : ℤ) + g.pendingInitializes < limits.maxSessions := by
      simp only [Bool.or_eq_true, decide_eq_true_eq, not_or, not_le] at hroom
      exact hroom.2
    have hnamed := h.toEntries.unnamed hget rfl
    split
    · have hmoved := JsMap.moved_set g.requests request (.connecting request)
      have hentry : ∀ i, (g.modify request (·.create now)).entries i =
          if i = request then (g.entries request).create now else g.entries i := fun i => entries_modify g request i _
      refine ⟨?_, ?_, ?_⟩
      · refine h.toReserved.reserved hholds hlt hmoved (n := 0) rfl rfl ?_ (fun j => Function.update_apply _ _ _ _) rfl
        change (g.sessions.size : ℤ) + (g.pendingInitializes + 1) ≤ limits.maxSessions
        omega
      · refine h.toEntries.moved hmoved hserves ?_ (fun _ _ _ => hnamed) ?_ ?_ ?_ rfl le_rfl rfl
        · intro p i hp hmakes
          cases hp
          cases hmakes
          rfl
        · intro p i hp hfor
          cases hp
          cases hfor
        · intro i
          change ((g.modify request (·.create now)).entries i).sessionId = _ ∧
            ((g.modify request (·.create now)).entries i).inFlight = _ ∧
            ((g.modify request (·.create now)).entries i).removed = _ ∧
            ((g.modify request (·.create now)).entries i).transportCloses = _
          rw [hentry]
          split
          · rename_i hi
            subst hi
            exact ⟨rfl, rfl, rfl, rfl⟩
          · exact ⟨rfl, rfl, rfl, rfl⟩
        · intro i hi
          change (g.modify request (·.create now)).entries i = g.entries i
          rw [hentry, if_neg]
          rintro rfl
          exact hi hnamed
      · exact h.toClosings.modify (i := request) (f := (·.create now)) (fun _ => ⟨rfl, rfl⟩) rfl rfl rfl
    · have hmoved := JsMap.moved_delete g.requests request
      have hpending : (0 : ℤ) ≤ g.pendingInitializes := by
        rw [h.pending]
        omega
      have hagain : max 0 (g.pendingInitializes + 1 - 1) = g.pendingInitializes := by omega
      refine ⟨?_, ?_, h.toClosings.congr rfl rfl fun _ => ⟨rfl, rfl⟩⟩
      · refine h.toReserved.reserved hholds hlt hmoved (n := 1) rfl ?_ ?_ ?_ rfl
        · change max 0 (g.pendingInitializes + 1 - 1) = g.pendingInitializes + 0
          omega
        · change (g.sessions.size : ℤ) + max 0 (g.pendingInitializes + 1 - 1) ≤ limits.maxSessions
          omega
        · intro j
          change Function.update (Function.update g.releases request (some 0)) request
            ((Function.update g.releases request (some 0) request).map (· + 1)) j = _
          rw [Function.update_apply, Function.update_self, Function.update_apply]
          split
          · rfl
          · rfl
      · exact h.toEntries.moved hmoved hserves (by simp) (by simp) (by simp) (fun _ => ⟨rfl, rfl, rfl, rfl⟩) (fun _ _ => rfl) rfl
          le_rfl rfl

/-- A request ends, and its reservation is released. -/
theorem Inv.release (h : Inv limits g) {request : ℕ} {old : Phase} (hget : g.requests.get request = some old)
    (hholds : old.holds = true) (hserves : ∀ i, old.serves i = false) :
    Inv limits { g.releaseInitializeReservation request false with requests := g.requests.delete request } := by
  have hmoved := JsMap.moved_delete g.requests request
  refine ⟨h.toReserved.release hget hholds rfl hmoved rfl (Nat.le_succ _) rfl rfl, ?_, h.toClosings.congr rfl rfl fun _ => ⟨rfl, rfl⟩⟩
  refine h.toEntries.moved hmoved ?_ (by simp) (by simp) (by simp) (fun _ => ⟨rfl, rfl, rfl, rfl⟩) (fun _ _ => rfl) rfl le_rfl rfl
  intro i
  rw [hget]
  exact hserves i

theorem Inv.connected (h : Inv limits g) (request : ℕ) (ok : Bool) : Inv limits (g.connected request ok).1 := by
  unfold Gateway.connected
  split
  · rename_i i hget
    split
    · refine h.plain (JsMap.moved_set g.requests request (.initializing i false)) ?_ ?_ ?_ ?_ ?_ le_rfl (h.toReserved.lt hget)
      · rw [hget]
        rfl
      · intro j
        rw [hget]
        rfl
      · intro p j hp hmakes
        cases hp
        cases hmakes
        exact h.own request _ i hget rfl
      · intro p _ _
        exact h.toEntries.unnamed hget rfl
      · intro p j hp hfor
        cases hp
        cases hfor
    · exact h.release hget rfl fun _ => rfl
  · exact h

theorem Inv.onSessionInitialized (h : Inv limits g) (request : ℕ) (now : ℤ) :
    Inv limits (g.onSessionInitialized request now) := by
  unfold Gateway.onSessionInitialized
  split
  · rename_i i hget
    have hi : i = request := h.own request _ i hget rfl
    subst hi
    have hmoved := JsMap.moved_set g.requests i (.initializing i true)
    have hnone : g.sessions.get g.nextSessionId = none := by
      cases hsession : g.sessions.get g.nextSessionId with
      | none => rfl
      | some j =>
        have hnamed := (h.mapped _ j hsession).1
        exact absurd (h.named j _ hnamed).1 (lt_irrefl _)
    refine ⟨h.toReserved.release hget rfl rfl hmoved rfl ?_ rfl rfl, ?_, ?_⟩
    · exact (JsMap.size_set_of_none hnone i).le
    · exact h.toEntries.opened (t := now) hget (h.toReserved.lt hget) hmoved rfl rfl rfl rfl
    · exact h.toClosings.modify (i := i) (f := (·.initialized g.nextSessionId now)) (fun _ => ⟨rfl, rfl⟩) rfl rfl rfl
  · exact h

/-- A request that was counted on an entry finishes. -/
theorem Inv.complete (h : Inv limits g) {request i : ℕ} {old : Phase} (now : ℤ) (hget : g.requests.get request = some old)
    (hholds : old.holds = false) (hserves : ∀ j, old.serves j = decide (i = j)) :
    Inv limits { g.touchSessionComplete i now with requests := g.requests.delete request } := by
  have hserved : old.serves i = true := by simp [hserves]
  have hid := h.toEntries.named_of_isFor hget (isFor_of_serves hserved)
  have hmoved := JsMap.moved_delete g.requests request
  have hpos : 0 < g.served i := JsMap.countWhere_pos hget hserved
  have hflight : (g.served i : ℤ) ≤ (g.entries i).inFlight := h.unclamped i
  have hone : count (g.requests.get request) i = 1 := by
    rw [hget]
    exact if_pos hserved
  have hcomplete : max 0 ((g.entries i).inFlight - 1) = (g.entries i).inFlight - 1 := by omega
  refine ⟨h.toReserved.moved hmoved ?_ rfl le_rfl rfl le_rfl (h.toReserved.lt hget), ?_, ?_⟩
  · rw [hget]
    exact hholds
  · refine h.toEntries.counted (i := i) (f := (·.complete now)) hmoved hid (by simp) ?_ ⟨rfl, rfl, rfl⟩ ?_ ?_ rfl rfl le_rfl rfl
    · intro j hj
      rw [hget]
      refine if_neg ?_
      simp [hserves, Ne.symm hj]
    · rw [hone]
      change (g.entries i).inFlight + 0 ≤ max 0 ((g.entries i).inFlight - 1) + 1
      omega
    · intro sessionId _
      rw [hone]
      refine ⟨?_, ?_⟩
      · change max 0 ((g.entries i).inFlight - 1) + 1 = (g.entries i).inFlight + 0
        omega
      · intro t ht
        cases ht
        exact .inr (.inl rfl)
  · exact h.toClosings.modify (i := i) (f := (·.complete now)) (fun _ => ⟨rfl, rfl⟩) rfl rfl rfl

/-- A request that was counted on an entry finishes, and the entry has left the map. -/
theorem Inv.complete_closed (h : Inv limits g) {request i : ℕ} (hget : g.requests.get request = some (.initializing i true))
    (hclosed : ∀ sessionId, g.sessions.get sessionId ≠ some i) :
    Inv limits { g with requests := g.requests.delete request } := by
  have hserved : Phase.serves i (.initializing i true) = true := by simp [Phase.serves]
  have hid := h.toEntries.named_of_isFor hget (isFor_of_serves hserved)
  have hmoved := JsMap.moved_delete g.requests request
  refine ⟨h.toReserved.moved hmoved ?_ rfl le_rfl rfl le_rfl (h.toReserved.lt hget), ?_, h.toClosings.congr rfl rfl fun _ => ⟨rfl, rfl⟩⟩
  · rw [hget]
    rfl
  · refine h.toEntries.counted (i := i) (f := id) hmoved hid (by simp) ?_ ⟨rfl, rfl, rfl⟩ ?_ ?_ ?_ rfl le_rfl rfl
    · intro j hj
      rw [hget]
      refine if_neg ?_
      simp [Phase.serves, Ne.symm hj]
    · have hone : count (g.requests.get request) i = 1 := by
        rw [hget]
        exact if_pos hserved
      rw [hone]
      change (g.entries i).inFlight + 0 ≤ (g.entries i).inFlight + 1
      omega
    · intro sessionId hsession
      exact absurd hsession (hclosed sessionId)
    · funext j
      rw [entries_modify]
      split
      · rename_i hj
        rw [hj]
        rfl
      · rfl

theorem Entries.isOpen (h : Entries g) {sessionId i : ℕ} (hsession : g.sessions.get sessionId = some i) :
    g.isOpen i = true := by
  unfold Gateway.isOpen
  rw [(h.mapped sessionId i hsession).1, Option.any_some, hsession]
  exact beq_self_eq_true _

theorem Inv.handled (h : Inv limits g) (request : ℕ) (now : ℤ) : Inv limits (g.handled request now) := by
  unfold Gateway.handled
  split
  · rename_i i hget
    exact h.complete now hget rfl fun _ => rfl
  · rename_i i released hget
    cases released with
    | false =>
      have hi : i = request := h.own request _ i hget rfl
      have hclosed : g.isOpen i = false := by
        unfold Gateway.isOpen
        rw [hi, h.toEntries.unnamed hget rfl]
        rfl
      rw [hclosed]
      exact h.release hget rfl fun _ => rfl
    | true =>
      cases hcounted : (g.isOpen i && decide (0 < (g.entries i).inFlight)) with
      | true => exact h.complete now hget rfl fun _ => rfl
      | false =>
        refine h.complete_closed hget ?_
        intro sessionId hsession
        have hpos : 0 < g.served i := JsMap.countWhere_pos hget (by simp [Phase.serves])
        have hflight := h.inFlight sessionId i hsession
        rw [h.toEntries.isOpen hsession, Bool.true_and, decide_eq_false_iff_not] at hcounted
        omega
  · exact h

theorem Inv.body (h : Inv limits g) (request : ℕ) (read isInitialize created : Bool) (now : ℤ) :
    Inv limits (g.body limits request read isInitialize created now).1 := by
  unfold Gateway.body
  split
  · rename_i i hget
    split
    · refine h.serve now ?_ (.inr hget) (h.toReserved.lt hget) le_rfl
      exact h.toEntries.named_of_isFor hget (by simp [Phase.isFor])
    · exact h.failBody now hget
  · rename_i hget
    split
    · exact h.reserve hget isInitialize created now
    · refine h.drop ?_ ?_ (h.toReserved.lt hget)
      · rw [hget]
        rfl
      · intro i
        rw [hget]
        rfl
  · exact h

theorem Inv.step (h : Inv limits g) (e : Event) : Inv limits (Gateway.step limits g e).1 := by
  cases e with
  | delete sessionId =>
    refine (h.closeSession sessionId).bump ?_
    rw [closeSession_nextRequest]
    exact Nat.le_succ _
  | get sessionId now =>
    dsimp only [Gateway.step]
    split
    · exact h.bump (Nat.le_succ _)
    · rename_i i hget
      refine h.serve now ?_ (.inl (h.fresh g.nextRequest le_rfl).1) (Nat.lt_succ_self _) (Nat.le_succ _)
      rw [(h.mapped sessionId i hget).1]
      simp
  | post sessionId =>
    dsimp only [Gateway.step]
    split
    · exact h.bump (Nat.le_succ _)
    · rename_i i hget
      exact h.post hget
  | first => exact h.first
  | body request read isInitialize created now => exact h.body request read isInitialize created now
  | connected request ok => exact h.connected request ok
  | sessionInitialized request now => exact h.onSessionInitialized request now
  | handled request now => exact h.handled request now
  | onclose i => exact h.onclose i
  | tick now =>
    dsimp only [Gateway.step]
    split
    · exact h.closeSessions _
    · exact h
  | shutdown => exact h.stop.closeSessions _
  | transportClosed closing => exact h.closeServer closing

end Steps

/-! ## What is dispatched and reaped -/

section Exact

/-- What is dispatched to a session and what is reaped in a step is as it should be. -/
def Proper (limits : Limits) (g : Gateway) (e : Event) : Prop := ∀ act ∈ (step limits g e).2, g.ProperAct limits act

theorem Inv.sound (h : Inv limits g) : Sound limits g where
  pending := h.pending
  capacity := h.capacity
  released := h.released
  inFlight := h.inFlight
  unclamped := h.unclamped
  closes := fun i => ⟨h.transport i, le_trans (h.server i) (h.transport i)⟩

theorem isFor_eq (i : ℕ) (p : Phase) : p.isFor i = (p.reads i || p.serves i) := by
  cases p with
  | reading j => exact (Bool.or_false _).symm
  | _ => rfl

theorem quiet_reads {i : ℕ} :
    (g.requests.values.all fun p => !p.reads i) = true ↔ ∀ request p, g.requests.get request = some p → p.reads i = false := by
  rw [List.all_eq_true]
  constructor
  · intro h request p hp
    have := h p (JsMap.mem_values.2 ⟨request, hp⟩)
    simpa using this
  · intro h p hp
    obtain ⟨request, hrequest⟩ := JsMap.mem_values.1 hp
    simp [h request p hrequest]

/-- A session that the reaper closes: where no body is being read for it, nothing is. -/
theorem Inv.reaped_iff (h : Inv limits g) {now : ℤ} {e : ℕ × ℕ} (he : e ∈ g.idleSessions limits now) :
    g.ProperAct limits (.reaped e.2 now) ↔ g.quiet limits now e.2 = true := by
  obtain ⟨sessionId, i⟩ := e
  unfold idleSessions at he
  obtain ⟨hrow, hidle⟩ := List.mem_filter.1 he
  have hget : g.sessions.get sessionId = some i := JsMap.get_of_mem hrow
  unfold idle at hidle
  simp only [Bool.and_eq_true, decide_eq_true_eq] at hidle
  obtain ⟨hnone, hlong⟩ := hidle
  have hserved : g.served i = 0 := by
    have := h.inFlight sessionId i hget
    omega
  have hserves : ∀ request p, g.requests.get request = some p → p.serves i = false := by
    intro request p hp
    cases hp' : p.serves i with
    | false => rfl
    | true =>
      have hpos : 0 < g.served i := JsMap.countWhere_pos hp hp'
      omega
  have hfinish := h.finish sessionId i hget
  unfold ProperAct quiet
  rw [Bool.and_eq_true, quiet_reads]
  apply and_congr
  · apply forall₃_congr
    intro request p hp
    rw [isFor_eq, hserves request p hp, Bool.or_false]
  · constructor
    · intro hlast
      cases hfinished : (g.entries i).lastFinish with
      | none => simp
      | some t =>
        have := hlast t hfinished
        simp [this]
    · intro hlast t ht
      rw [ht, Option.all_some, Bool.or_eq_true, decide_eq_true_eq] at hlast
      rcases hlast with hread | hlast
      · rcases hfinish t ht with hunread | hactivity | hpos
        · rw [hunread] at hread
          cases hread
        · omega
        · omega
      · exact hlast

theorem Inv.proper_iff (h : Inv limits g) (e : Event) : Proper limits g e ↔ g.Meets limits e := by
  unfold Proper
  cases e with
  | get sessionId now =>
    refine iff_of_true ?_ trivial
    intro act hact
    dsimp only [Gateway.step] at hact
    split at hact
    · cases hact
    · rename_i i hget
      rw [List.mem_singleton.1 hact]
      exact (h.mapped sessionId i hget).2.1
  | post sessionId =>
    refine iff_of_true ?_ trivial
    intro act hact
    dsimp only [Gateway.step] at hact
    split at hact
    · cases hact
    · cases hact
  | body request read isInitialize created now =>
    dsimp only [Gateway.step, Gateway.body, Meets]
    cases hget : g.requests.get request with
    | none => simp
    | some p =>
      cases p with
      | reading i => cases read <;> simp [ProperAct]
      | readingFirst => cases read <;> simp
      | _ => simp
  | connected request ok =>
    refine iff_of_true ?_ trivial
    intro act hact
    dsimp only [Gateway.step, Gateway.connected] at hact
    split at hact
    · rename_i i hget
      split at hact
      · rw [List.mem_singleton.1 hact]
        have hi : i = request := h.own request _ i hget rfl
        exact (h.blank i (hi ▸ h.toEntries.unnamed hget rfl)).2.1
      · cases hact
    · cases hact
  | tick now =>
    dsimp only [Gateway.step, Meets]
    split
    · rename_i hreaping
      rw [List.forall_mem_map]
      constructor
      · intro hproper _ e he
        exact (h.reaped_iff he).1 (hproper e he)
      · intro hquiet e he
        exact (h.reaped_iff he).2 (hquiet hreaping e he)
    · rename_i hreaping
      refine iff_of_true ?_ fun h => absurd h hreaping
      intro act hact
      cases hact
  | _ =>
    refine iff_of_true ?_ trivial
    intro act hact
    cases hact

/-- **The gateway keeps its promise exactly where every step meets the condition**, and the counters are right in any case. -/
theorem gateway_sound_iff (limits : Limits) (es : List Event) :
    (Run.Throughout (step limits) (Sound limits) init es ∧ Run.Along (step limits) (Proper limits) init es) ↔
      Run.Along (step limits) (Meets limits) init es := by
  have hinv : Run.Throughout (step limits) (Inv limits) init es := by
    apply Run.throughout_of_along (C := fun _ _ => True)
    · intro g e _ h
      exact h.step e
    · exact inv_init limits
    · exact Run.along_of_forall fun _ _ => trivial
  have hproper : Run.Along (step limits) (Proper limits) init es ↔ Run.Along (step limits) (Meets limits) init es := by
    apply Run.along_iff_of_invariant (P := Inv limits)
    · intro g e _ h
      exact h.step e
    · intro g e h
      exact h.proper_iff e
    · exact inv_init limits
  rw [hproper]
  exact and_iff_right (hinv.mono fun g h => h.sound)

section Fixed

/-- A session that is open, and to which a request has just been matched. -/
def matchedRun : List Event :=
  [.first, .body 0 true true true 0, .connected 0 true, .sessionInitialized 0 0, .handled 0 1, .post 0]

/-- The reaper closes a session while the body of a request to it is read, and a request whose body was read is dispatched to a
session that was deleted. -/
theorem gateway_not_sound :
    ¬Run.Along (step ⟨1, 10⟩) (Proper ⟨1, 10⟩) init (matchedRun ++ [.tick 20]) ∧
      ¬Run.Along (step ⟨1, 10⟩) (Proper ⟨1, 10⟩) init (matchedRun ++ [.delete 0, .body 1 true false false 2]) := by
  constructor
  · intro h
    obtain ⟨hproper, -⟩ := (Run.along_append.1 h).2
    have hact := hproper (.reaped 0 20) (.head _)
    have hfor := hact.1 1 (.reading 0) rfl
    cases hfor
  · intro h
    obtain ⟨-, hproper, -⟩ := (Run.along_append.1 h).2
    have hact := hproper (.dispatched 0) (.head _)
    cases hact

end Fixed

end Exact

end Gateway

end LlmGateway.Http
