import LlmGateway.Lib.Run
import LlmGateway.Sessions.FileMoves

/-!
# The attempt lease

While a Kit session holds an attempt, nobody else gets one, and its row stays.

* `Session.Holds` — a visible row with an attempt; `Kept` — what one operation leaves of it;
* `attemptLease` — the lease along a run.

The guard that is missing: `updateSessionMetadata` and `compareAndSetSession` refuse metadata with another `kit`, but not
metadata with the key that hides a deleted row.
-/

namespace LlmGateway.Sessions.FileStore

open LlmGateway.Lib Utf16 Sessions.Kit IsoTime

variable {α : Type}

/-! ## Holders -/

section Holders

variable (cfg : Config)

/-- A visible row with the attempt. -/
structure Session.Holds (session : Session α) (a : KitSessionAttempt) : Prop where
  visible : session.isPendingWorktreeDeletion = false
  binding : ∃ b, getKitSessionBinding cfg session = some b ∧ b.attempt = some a

/-- The same row, at another time. -/
structure Session.Same (session session' : Session α) : Prop where
  id : session'.id = session.id
  cli : session'.cli = session.cli
  createdAt : session'.createdAt = session.createdAt
  ownerPrincipal : session'.ownerPrincipal = session.ownerPrincipal
  generation : session'.generation = session.generation

/-- The execution of the binding. -/
def Session.execution (session : Session α) : Option KitExecutionRef :=
  (getKitSessionBinding cfg session).map KitSessionBinding.execution

/-- The row in the file. -/
def Manager.row (m : Manager α) (id : Text) : Option (Session α) := m.disk.bind fun s => s.sessions.get id

/-- What an operation leaves of a row that holds the attempt `a`: it is there and visible, and its binding is what it was
or what a lease operation that names `a` has made of it. -/
structure Kept (c : Call α) (reply : Reply α) (session session' : Session α) (a : KitSessionAttempt) : Prop where
  same : session.Same session'
  visible : session'.isPendingWorktreeDeletion = false
  binding : getKitSessionBinding cfg session' = getKitSessionBinding cfg session ∨
    reply = .bool true ∧ ∃ b', getKitSessionBinding cfg session' = some b' ∧ session'.execution cfg = session.execution cfg ∧
      AttemptStep cfg c session.id (some a) b'.attempt

end Holders

section HolderLemmas

variable {cfg : Config} {session session' session'' : Session α} {a : KitSessionAttempt}

theorem Session.Same.refl (session : Session α) : session.Same session := ⟨rfl, rfl, rfl, rfl, rfl⟩

theorem Session.Same.trans (h : session.Same session') (h' : session'.Same session'') : session.Same session'' :=
  ⟨h'.id.trans h.id, h'.cli.trans h.cli, h'.createdAt.trans h.createdAt, h'.ownerPrincipal.trans h.ownerPrincipal,
    h'.generation.trans h.generation⟩

theorem execution_congr (h : session'.kit = session.kit) : session'.execution cfg = session.execution cfg := by
  unfold Session.execution
  rw [getKitSessionBinding_congr h]

theorem Session.Holds.not_removable (h : session.Holds cfg a) : ¬Removable cfg session := by
  rintro ⟨-, hidle⟩
  obtain ⟨b, hb, ha⟩ := h.binding
  rw [hidle b hb] at ha
  cases ha

/-! ### The copy that the reader makes -/

theorem getKitSessionBinding_canonicalSession :
    getKitSessionBinding cfg (canonicalSession cfg session) = getKitSessionBinding cfg session := by
  unfold canonicalSession
  cases hb : getKitSessionBinding cfg session with
  | none => exact hb
  | some b => exact getKitSessionBinding_setKit (getKitSessionBinding_eq_some hb).1

theorem isPendingWorktreeDeletion_canonicalSession :
    (canonicalSession cfg session).isPendingWorktreeDeletion = session.isPendingWorktreeDeletion := by
  unfold canonicalSession
  cases getKitSessionBinding cfg session with
  | none => rfl
  | some b => exact isPendingWorktreeDeletion_setKit

theorem same_canonicalSession : session.Same (canonicalSession cfg session) := by
  unfold canonicalSession
  cases getKitSessionBinding cfg session <;> exact ⟨rfl, rfl, rfl, rfl, rfl⟩

theorem holds_canonicalSession : (canonicalSession cfg session).Holds cfg a ↔ session.Holds cfg a := by
  constructor
  · rintro ⟨hv, hb⟩
    rw [isPendingWorktreeDeletion_canonicalSession] at hv
    rw [getKitSessionBinding_canonicalSession] at hb
    exact ⟨hv, hb⟩
  · rintro ⟨hv, hb⟩
    rw [← @isPendingWorktreeDeletion_canonicalSession _ cfg] at hv
    rw [← getKitSessionBinding_canonicalSession] at hb
    exact ⟨hv, hb⟩

/-- The rows that are read are the canonical copies of the rows in the file. -/
theorem get_loadStorage {m : Manager α} {s : Storage α} (hs : m.loadStorage cfg = some s) (id : Text) :
    s.sessions.get id = (m.row id).map (canonicalSession cfg) := by
  unfold Manager.loadStorage at hs
  unfold Manager.row
  cases hd : m.disk with
  | none =>
    rw [hd] at hs
    cases hs
    rfl
  | some d =>
    rw [hd] at hs
    simp only [Option.elim_some, normaliseStorage] at hs
    split at hs
    · obtain ⟨kit, -, rfl⟩ := Option.map_eq_some_iff.1 hs
      simp [Table.get_update]
    · cases hs

end HolderLemmas

/-! ## One operation -/

section Step

variable [DecidableEq α] {cfg : Config} {q : Request} {c : Call α} {s₀ s s' : Storage α}
  {session session' : Session α} {a : KitSessionAttempt} {id : Text}

/-- A housekeeping move leaves the row of a holder there and visible, with its `kit`. -/
theorem keeps_housekeeping (hm : Housekeeping cfg q c s₀ s s') (hread : s₀.sessions.get session.id = some session)
    (hh : ¬c.hides cfg session) (hr : s.sessions.get session.id = some session')
    (ha : session'.Holds cfg a) :
    ∃ next, s'.sessions.get session.id = some next ∧ session'.Same next ∧ next.isPendingWorktreeDeletion = false ∧
      next.kit = session'.kit := by
  have hkeep : ∃ next, s.sessions.get session.id = some next ∧ session'.Same next ∧
      next.isPendingWorktreeDeletion = false ∧ next.kit = session'.kit := ⟨session', hr, .refl session', ha.visible, rfl⟩
  cases hm with
  | @remove _ other hother hi =>
    rw [get_removeOrStage]
    by_cases hid : other.id = session.id
    · rw [hid, hr] at hother
      cases hother
      exact absurd hi ha.not_removable
    · rw [if_neg hid]
      exact hkeep
  | @insertKit _ cli sessionId description binding hc hb hp hnone | @insert _ cli sessionId description metadata hc hm hnone =>
    rw [get_setSession, if_neg]
    · exact hkeep
    · intro hid
      have hnew : s.sessions.get session.id = none := hid ▸ hnone
      rw [hnew] at hr
      cases hr
  | point other hother => exact hkeep
  | unpoint hc => exact hkeep
  | pointKit other hother hb hk => exact hkeep
  | unpointKit cli scope =>
    rw [sessions_dropKitPointer]
    exact hkeep
  | @rewrite _ other metadata lastUsedAt hother hv hkit ht hhides =>
    rw [get_setSession]
    by_cases hid : other.id = session.id
    · rw [if_pos hid]
      rw [hid, hr] at hother
      cases hother
      refine ⟨_, rfl, ⟨rfl, rfl, rfl, rfl, rfl⟩, ?_, hkit⟩
      by_contra hp
      obtain ⟨read, hget, hhidden⟩ := hhides (by simpa [Session.isPendingWorktreeDeletion] using hp)
      rw [hid, hread] at hget
      cases hget
      exact hh hhidden
    · rw [if_neg hid]
      exact hkeep
  | @finalize other hother hf =>
    rw [get_deleteSession, if_neg]
    · exact hkeep
    · intro hid
      rw [hid, hr] at hother
      cases hother
      cases c with
      | finalizePendingWorktreeCleanup given =>
        have hv := hf.2.1
        rw [ha.visible] at hv
        cases hv
      | _ => exact hf

theorem keeps_moves (hm : Moves cfg q c s₀ s₀ s') (hread : s₀.sessions.get session.id = some session)
    (hh : ¬c.hides cfg session) (ha : session.Holds cfg a) :
    ∃ next, s'.sessions.get session.id = some next ∧ session.Same next ∧ next.isPendingWorktreeDeletion = false ∧
      next.kit = session.kit := by
  induction hm with
  | refl => exact ⟨session, hread, .refl session, ha.visible, rfl⟩
  | tail _ hlast ih =>
    obtain ⟨mid, hmid, hsame, hv, hkit⟩ := ih
    have hholds : mid.Holds cfg a := ⟨hv, by rw [getKitSessionBinding_congr hkit]; exact ha.binding⟩
    obtain ⟨next, hnext, hsame', hv', hkit'⟩ := keeps_housekeeping hlast hread hh hmid hholds
    exact ⟨next, hnext, hsame.trans hsame', hv', hkit'.trans hkit⟩

omit [DecidableEq α] in
theorem keeps_leaseMove {reply : Reply α} (hm : LeaseMove cfg c s₀ s') (htrue : reply = .bool true)
    (hread : s₀.sessions.get session.id = some session) (ha : session.Holds cfg a) :
    ∃ next, s'.sessions.get session.id = some next ∧ Kept cfg c reply session next a := by
  cases hm with
  | @write other binding next hother hv hb hn he hs =>
    rw [get_setSession]
    by_cases hid : (other.setKit next).id = session.id
    · rw [if_pos hid]
      have heq : other = session := by
        have hid' : other.id = session.id := hid
        rw [hid', hread] at hother
        exact (Option.some.inj hother).symm
      subst heq
      obtain ⟨b, hb', hattempt⟩ := ha.binding
      rw [hb] at hb'
      cases hb'
      rw [hattempt] at hs
      have hnext : getKitSessionBinding cfg (other.setKit next) = some next := getKitSessionBinding_setKit hn
      refine ⟨_, rfl, ⟨rfl, rfl, rfl, rfl, rfl⟩, isPendingWorktreeDeletion_setKit.trans hv, .inr ⟨htrue, next, hnext, ?_, hs⟩⟩
      simp [Session.execution, hnext, hb, he]
    · rw [if_neg hid]
      exact ⟨session, hread, .refl session, ha.visible, .inl rfl⟩

/-- Every operation keeps a holder that it does not hide. -/
theorem keeps_run (hread : s₀.sessions.get session.id = some session) (hh : ¬c.hides cfg session)
    (ha : session.Holds cfg a) {d : Storage α} (hd : (run cfg q c ⟨s₀, none⟩).2.saved = some d) :
    ∃ next, d.sessions.get session.id = some next ∧ Kept cfg c (run cfg q c ⟨s₀, none⟩).1 session next a := by
  rcases run_writes cfg q c s₀ d hd with hm | ⟨htrue, hm⟩
  · obtain ⟨next, hnext, hsame, hv, hkit⟩ := keeps_moves hm hread hh ha
    exact ⟨next, hnext, hsame, hv, .inl (getKitSessionBinding_congr hkit)⟩
  · exact keeps_leaseMove hm htrue hread ha

/-- No holder's metadata is hidden by the operation, in the file that it reads. -/
def HidesNoHolder (cfg : Config) (m : Manager α) (c : Call α) : Prop :=
  ∀ s, m.loadStorage cfg = some s → ∀ id session a, s.sessions.get id = some session → session.Holds cfg a →
    ¬c.hides cfg session

/-- **The lease of one operation.**  The row of a holder stays, and its binding is what it was or what an operation that
names the attempt has made of it. -/
theorem keeps_step {m : Manager α} {i : Request × Call α} (hc : HidesNoHolder cfg m i.2)
    (hr : m.row id = some session) (ha : session.Holds cfg a) :
    ∃ next, (step cfg m i).1.row id = some next ∧ Kept cfg i.2 (step cfg m i).2 session next a := by
  have hstay : ∃ next, m.row id = some next ∧ Kept cfg i.2 (step cfg m i).2 session next a :=
    ⟨session, hr, .refl session, ha.visible, .inl rfl⟩
  unfold step at hstay ⊢
  cases hs : m.loadStorage cfg with
  | none =>
    rw [hs] at hstay
    exact hstay
  | some s =>
    rw [hs] at hstay
    cases hd : (run cfg i.1 i.2 ⟨s, none⟩).2.saved with
    | none => simpa [Manager.row, hd] using hstay
    | some d =>
      have hget := get_loadStorage hs id
      rw [hr, Option.map_some] at hget
      have hid : (canonicalSession cfg session).id = id := Table.key_of_get hget
      have hholds := holds_canonicalSession.2 ha
      have hread := hget
      rw [← hid] at hread
      obtain ⟨next, hnext, hkept⟩ := keeps_run hread (hc s hs id _ a hget hholds) hholds hd
      rw [hid] at hnext
      refine ⟨next, by simpa [Manager.row, hd] using hnext, same_canonicalSession.trans hkept.same, hkept.visible, ?_⟩
      have hexecution : (canonicalSession cfg session).execution cfg = session.execution cfg := by
        unfold Session.execution
        rw [getKitSessionBinding_canonicalSession]
      have hbinding := hkept.binding
      rw [getKitSessionBinding_canonicalSession, hexecution, canonicalSession_id] at hbinding
      exact hbinding

/-! ### Executions -/

/-- Where a row after an operation comes from: it is new, or it has the generation and the execution of the row that was
there before. -/
def Descends (cfg : Config) (generation : Text) (before : Option (Session α)) (session' : Session α) : Prop :=
  session'.generation = generation ∨
    ∃ session, before = some session ∧ session.generation = session'.generation ∧
      session.execution cfg = session'.execution cfg

omit [DecidableEq α] in
/-- A row under an id, after one row of the storage has been written. -/
theorem descends_setSession {w : Session α} (hw : Descends cfg q.generation (s.sessions.get w.id) w)
    (hr : (s.setSession w).sessions.get id = some session') :
    Descends cfg q.generation (s.sessions.get id) session' := by
  rw [get_setSession] at hr
  split at hr
  · rename_i hid
    cases hr
    rwa [← hid]
  · exact .inr ⟨session', hr, rfl, rfl⟩

theorem descends_housekeeping (hm : Housekeeping cfg q c s₀ s s') (hr : s'.sessions.get id = some session') :
    Descends cfg q.generation (s.sessions.get id) session' := by
  cases hm with
  | @remove _ session hother hi =>
    rw [get_removeOrStage] at hr
    split at hr
    · rename_i hid
      split at hr
      · cases hr
        exact .inr ⟨session, hid ▸ hother, rfl, (execution_congr kit_stage).symm⟩
      · cases hr
    · exact .inr ⟨session', hr, rfl, rfl⟩
  | insertKit description hc hb hp hnone | insert description hc hm hnone => exact descends_setSession (.inl rfl) hr
  | point other hother | unpoint hc | pointKit other hother hb hk => exact .inr ⟨session', hr, rfl, rfl⟩
  | unpointKit cli scope =>
    rw [sessions_dropKitPointer] at hr
    exact .inr ⟨session', hr, rfl, rfl⟩
  | @rewrite _ session metadata lastUsedAt hother hv hkit ht hhides =>
    have hkept : Session.kit { session with metadata := metadata, lastUsedAt := lastUsedAt } = session.kit := hkit
    exact descends_setSession (w := { session with metadata := metadata, lastUsedAt := lastUsedAt })
      (.inr ⟨session, hother, rfl, (execution_congr hkept).symm⟩) hr
  | finalize hother hf =>
    rw [get_deleteSession] at hr
    split at hr
    · cases hr
    · exact .inr ⟨session', hr, rfl, rfl⟩

theorem descends_moves (hm : Moves cfg q c s₀ s s') (hr : s'.sessions.get id = some session') :
    Descends cfg q.generation (s.sessions.get id) session' := by
  induction hm generalizing session' with
  | refl => exact .inr ⟨session', hr, rfl, rfl⟩
  | tail _ hlast ih =>
    rcases descends_housekeeping hlast hr with hnew | ⟨mid, hmid, hgeneration, hexecution⟩
    · exact .inl hnew
    rcases ih hmid with hnew | ⟨session, hget, hgeneration', hexecution'⟩
    · exact .inl (hgeneration.symm.trans hnew)
    · exact .inr ⟨session, hget, hgeneration'.trans hgeneration, hexecution'.trans hexecution⟩

/-- **Executions of one operation.** -/
theorem executions_step {m : Manager α} {i : Request × Call α} (hr : (step cfg m i).1.row id = some session') :
    Descends cfg i.1.generation (m.row id) session' := by
  unfold step at hr
  cases hs : m.loadStorage cfg with
  | none =>
    rw [hs] at hr
    exact .inr ⟨session', hr, rfl, rfl⟩
  | some s =>
    rw [hs] at hr
    cases hd : (run cfg i.1 i.2 ⟨s, none⟩).2.saved with
    | none => exact .inr ⟨session', by simpa [Manager.row, hd] using hr, rfl, rfl⟩
    | some d =>
      have hget : d.sessions.get id = some session' := by simpa [Manager.row, hd] using hr
      have hread : Descends cfg i.1.generation (s.sessions.get id) session' := by
        rcases run_writes cfg i.1 i.2 s d hd with hm | ⟨-, hm⟩
        · exact descends_moves hm hget
        · cases hm with
          | @write session binding next hother hv hb hn he hs =>
            have hexecution : session.execution cfg = (session.setKit next).execution cfg := by
              simp [Session.execution, getKitSessionBinding_setKit hn, hb, he]
            exact descends_setSession (w := session.setKit next) (.inr ⟨session, hother, rfl, hexecution⟩) hget
      rw [get_loadStorage hs] at hread
      rcases hread with hnew | ⟨copy, hcopy, hgeneration, hexecution⟩
      · exact .inl hnew
      · obtain ⟨session, hsession, rfl⟩ := Option.map_eq_some_iff.1 hcopy
        refine .inr ⟨session, hsession, same_canonicalSession.generation.symm.trans hgeneration, ?_⟩
        rw [← hexecution, Session.execution, Session.execution, getKitSessionBinding_canonicalSession]

/-! ### Claims -/

/-- A claim that succeeds has found a session without an attempt, and has written the attempt. -/
theorem claim_true {cli : Text} {scopeRoot : Option Text} {execution : KitExecutionRef} {attempt : KitSessionAttempt}
    (hreply : (claimKitSessionAttempt cfg q cli scopeRoot execution id attempt ⟨s, none⟩).1 = .bool true) :
    ∃ session b next, s.sessions.get id = some session ∧ session.isPendingWorktreeDeletion = false ∧
      getKitSessionBinding cfg session = some b ∧ b.attempt = none ∧ Canonical cfg.dateParse next ∧
      next.attempt.map KitSessionAttempt.id = some attempt.id ∧
      (claimKitSessionAttempt cfg q cli scopeRoot execution id attempt ⟨s, none⟩).2.saved =
        some (s.setSession (session.setKit next)) := by
  revert hreply
  unfold claimKitSessionAttempt
  split
  · intro h
    cases h
  split
  · intro h
    cases h
  rename_i nextAttempt hnext
  obtain ⟨hvalid, hclone⟩ := cloneKitSessionAttempt_eq_some hnext
  split
  · intro h
    cases h
  have hfound := ((.init : Tidy cfg q .assertKitStorageHealthy s ⟨s, none⟩).getExactKitSession cli scopeRoot execution
    id).2
  split
  · intro h
    cases h
  · intro h
    cases h
  rename_i session b h' heq
  rw [heq] at hfound
  obtain ⟨rfl, -, hr, hv, hb⟩ := hfound session b rfl
  split
  · intro h
    cases h
  rename_i hidle
  split
  · intro h
    cases h
  refine fun _ => ⟨session, b, { b with attempt := some nextAttempt }, hr, hv, hb, by simpa using hidle, ?_, ?_, rfl⟩
  · refine (getKitSessionBinding_eq_some hb).1.withAttempt fun a h => ?_
    cases h
    exact ⟨hvalid, by rw [hclone]⟩
  · simp [hclone]

end Step

/-! ## Runs -/

section Runs

variable [DecidableEq α]

/-- The operation ends the attempt: it answers true, and it is a release or an update that names the attempt. -/
def Ends (cfg : Config) (m : Manager α) (i : Request × Call α) (id attemptId : Text) : Prop :=
  (step cfg m i).2 = .bool true ∧
    ((∃ cli scopeRoot execution, i.2 = .releaseKitSessionAttempt cli scopeRoot execution id attemptId) ∨
      ∃ binding, i.2 = .updateKitSessionBinding id binding (some attemptId))

/-- Every request of the run brings a generation of its own, which no row of the file has. -/
structure FreshGenerations (m : Manager α) (is : List (Request × Call α)) : Prop where
  nodup : (is.map fun i => i.1.generation.1).Nodup
  fresh : ∀ id session, m.row id = some session → session.generation ∉ is.map fun i => i.1.generation.1

/-- The lease along a run: executions never change; a holder's row stays, and its binding changes only as the holder says;
claims on it are refused; and from a claim to its end the session holds the attempt of the claim. -/
structure AttemptLease (cfg : Config) (m : Manager α) (is : List (Request × Call α)) : Prop where
  execution : ∀ pre mid post, is = pre ++ (mid ++ post) → ∀ id session session',
    (Run.final (step cfg) m pre).row id = some session → (Run.final (step cfg) m (pre ++ mid)).row id = some session' →
      session'.generation = session.generation → session'.execution cfg = session.execution cfg
  kept : ∀ pre i post, is = pre ++ i :: post → ∀ id session a,
    (Run.final (step cfg) m pre).row id = some session → session.Holds cfg a →
      ∃ next, (Run.final (step cfg) m (pre ++ [i])).row id = some next ∧
        Kept cfg i.2 (step cfg (Run.final (step cfg) m pre) i).2 session next a
  refused : ∀ pre i post, is = pre ++ i :: post → ∀ id session a,
    (Run.final (step cfg) m pre).row id = some session → session.Holds cfg a → ∀ cli scopeRoot execution attempt,
      i.2 = .claimKitSessionAttempt cli scopeRoot execution id attempt →
        (step cfg (Run.final (step cfg) m pre) i).2 ≠ .bool true
  exclusive : ∀ pre i mid post, is = pre ++ i :: (mid ++ post) → ∀ cli scopeRoot execution id attempt,
    i.2 = .claimKitSessionAttempt cli scopeRoot execution id attempt →
      (step cfg (Run.final (step cfg) m pre) i).2 = .bool true →
        Run.Along (step cfg) (fun m i => ¬Ends cfg m i id attempt.id) (Run.final (step cfg) m (pre ++ [i])) mid →
          ∃ session a, (Run.final (step cfg) m (pre ++ i :: mid)).row id = some session ∧ session.Holds cfg a ∧
            a.id = attempt.id

variable {cfg : Config} {m : Manager α} {is : List (Request × Call α)} {id : Text} {session session' : Session α}
  {a : KitSessionAttempt}

/-- Where a row after a run comes from. -/
theorem executions_final (hr : (Run.final (step cfg) m is).row id = some session') :
    session'.generation ∈ is.map (fun i => i.1.generation.1) ∨
      ∃ session, m.row id = some session ∧ session.generation = session'.generation ∧
        session.execution cfg = session'.execution cfg := by
  induction is generalizing m with
  | nil => exact .inr ⟨session', hr, rfl, rfl⟩
  | cons i is ih =>
    rcases ih hr with hnew | ⟨mid, hmid, hgeneration, hexecution⟩
    · exact .inl (List.mem_cons_of_mem _ hnew)
    rcases executions_step hmid with hnew | ⟨session, hsession, hgeneration', hexecution'⟩
    · refine .inl ?_
      rw [← hgeneration, hnew]
      exact List.mem_cons_self
    · exact .inr ⟨session, hsession, hgeneration'.trans hgeneration, hexecution'.trans hexecution⟩

theorem FreshGenerations.execution {pre mid post : List (Request × Call α)}
    (hf : FreshGenerations m (pre ++ (mid ++ post))) (hr : (Run.final (step cfg) m pre).row id = some session)
    (hr' : (Run.final (step cfg) m (pre ++ mid)).row id = some session')
    (hg : session'.generation = session.generation) : session'.execution cfg = session.execution cfg := by
  rw [Run.final_append] at hr'
  rcases executions_final hr' with hmid | ⟨old, hold, -, hexecution⟩
  · -- a generation of the second part is neither in the file nor of the first part
    have hnodup := hf.nodup
    rw [List.map_append, List.map_append, List.nodup_append] at hnodup
    rw [hg] at hmid
    have hlate := List.mem_append_left (post.map fun i => i.1.generation.1) hmid
    rcases executions_final hr with hpre | ⟨first, hfirst, hgeneration, -⟩
    · exact absurd rfl (hnodup.2.2 _ hpre _ hlate)
    · refine absurd ?_ (hf.fresh id first hfirst)
      rw [hgeneration, List.map_append, List.map_append]
      exact List.mem_append_right _ hlate
  · rw [hr] at hold
    cases hold
    exact hexecution.symm

theorem refused_step {i : Request × Call α} (hr : m.row id = some session) (ha : session.Holds cfg a) {cli : Text}
    {scopeRoot : Option Text} {execution : KitExecutionRef} {attempt : KitSessionAttempt}
    (hi : i.2 = .claimKitSessionAttempt cli scopeRoot execution id attempt) : (step cfg m i).2 ≠ .bool true := by
  unfold step
  rw [hi]
  cases hs : m.loadStorage cfg with
  | none =>
    intro h
    cases h
  | some s =>
    intro htrue
    obtain ⟨read, b, _, hread, _, hb, hidle, _⟩ := claim_true htrue
    have hget := get_loadStorage hs id
    rw [hr, hread, Option.map_some] at hget
    cases hget
    obtain ⟨b', hb', hattempt⟩ := ha.binding
    rw [getKitSessionBinding_canonicalSession, hb'] at hb
    cases hb
    rw [hidle] at hattempt
    cases hattempt

/-- After a claim that succeeds, the session holds its attempt. -/
theorem holds_of_claim {i : Request × Call α} {cli : Text} {scopeRoot : Option Text} {execution : KitExecutionRef}
    {attempt : KitSessionAttempt} (hi : i.2 = .claimKitSessionAttempt cli scopeRoot execution id attempt)
    (htrue : (step cfg m i).2 = .bool true) :
    ∃ session a, (step cfg m i).1.row id = some session ∧ session.Holds cfg a ∧ a.id = attempt.id := by
  unfold step at htrue ⊢
  rw [hi] at htrue ⊢
  cases hs : m.loadStorage cfg with
  | none =>
    rw [hs] at htrue
    cases htrue
  | some s =>
    rw [hs] at htrue
    obtain ⟨session, b, next, hr, hv, hb, -, hcanonical, hid, hsaved⟩ := claim_true htrue
    obtain ⟨a, ha, haid⟩ := Option.map_eq_some_iff.1 hid
    have hsid : session.id = id := Table.key_of_get hr
    refine ⟨session.setKit next, a, ?_, ⟨?_, next, getKitSessionBinding_setKit hcanonical, ha⟩, haid⟩
    · simp only [Manager.row, run, hsaved, Option.some_or, Option.bind_some]
      exact get_setSession.trans (if_pos hsid)
    · exact isPendingWorktreeDeletion_setKit.trans hv

/-- A holder still holds its attempt after a step that does not end it. -/
theorem holds_step {i : Request × Call α} (hc : HidesNoHolder cfg m i.2) (hr : m.row id = some session)
    (ha : session.Holds cfg a) (he : ¬Ends cfg m i id a.id) :
    ∃ next a', (step cfg m i).1.row id = some next ∧ next.Holds cfg a' ∧ a'.id = a.id := by
  obtain ⟨next, hnext, hkept⟩ := keeps_step hc hr ha
  have hid : session.id = id := by
    unfold Manager.row at hr
    obtain ⟨d, -, hget⟩ := Option.bind_eq_some_iff.1 hr
    exact Table.key_of_get hget
  refine ⟨next, ?_⟩
  rcases hkept.binding with hsame | ⟨htrue, b', hb', -, hstep⟩
  · refine ⟨a, hnext, ⟨hkept.visible, ?_⟩, rfl⟩
    rw [hsame]
    exact ha.binding
  · rw [hid] at hstep
    generalize hnew : b'.attempt = new at hstep
    cases hstep with
    | renew hi ho hn hlt => exact ⟨_, hnext, ⟨hkept.visible, b', hb', hnew⟩, rfl⟩
    | release hi => exact absurd ⟨htrue, .inl ⟨_, _, _, hi⟩⟩ he
    | refresh old new hi hnamed =>
      rw [hnamed a rfl] at hi
      exact absurd ⟨htrue, .inr ⟨_, hi⟩⟩ he

/-- A holder holds its attempt as long as no step ends it. -/
theorem holds_final (hc : Run.Along (step cfg) (fun m i => HidesNoHolder cfg m i.2) m is) (hr : m.row id = some session)
    (ha : session.Holds cfg a) (he : Run.Along (step cfg) (fun m i => ¬Ends cfg m i id a.id) m is) :
    ∃ next a', (Run.final (step cfg) m is).row id = some next ∧ next.Holds cfg a' ∧ a'.id = a.id := by
  induction is generalizing m session a with
  | nil => exact ⟨session, a, hr, ha, rfl⟩
  | cons i is ih =>
    obtain ⟨next, a', hnext, ha', hid⟩ := holds_step hc.1 hr ha he.1
    rw [← hid] at he ⊢
    exact ih hc.2 hnext ha' he.2

end Runs

/-! ## Two runs -/

section Fixed

/-- A Kit session is created and claimed, and another principal's and the holder's renewal follow. -/
def renewedRun : List (Request × Call Unit) :=
  [(requestOf (text "local") 48, .createKitSession (text "claude") someBinding none (some (text "s"))),
    (requestOf (text "local") 49, .claimKitSessionAttempt (text "claude") none someExecution (text "s") someAttempt),
    (requestOf (text "local") 50, .claimKitSessionAttempt (text "claude") none someExecution (text "s") someAttempt),
    (requestOf (text "local") 51, .renewKitSessionAttempt (text "claude") none someExecution (text "s") (text "attempt")
      (text "2026-01-01T02:00:00.000Z"))]

/-- The same session is claimed, and then hidden by its own metadata. -/
def hiddenRun : List (Request × Call Unit) :=
  [(requestOf (text "local") 48, .createKitSession (text "claude") someBinding none (some (text "s"))),
    (requestOf (text "local") 49, .claimKitSessionAttempt (text "claude") none someExecution (text "s") someAttempt)]

def hidingCall : Request × Call Unit :=
  (requestOf (text "local") 50,
    .updateSessionMetadata (text "s") (JsMap.set Table.empty WORKTREE_CLEANUP_TOMBSTONE_KEY (.bool true)))

theorem freshGenerations_init (is : List (Request × Call Unit)) (h : (is.map fun i => i.1.generation.1).Nodup) :
    FreshGenerations Manager.init is := ⟨h, fun _ _ hr => by cases hr⟩

end Fixed

end LlmGateway.Sessions.FileStore
