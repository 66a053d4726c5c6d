import LlmGateway.Sessions.AttemptLease

/-!
# Rows that are pending deletion

A row that was deleted but for its worktree is left alone by all operations, until the cleanup of its worktree is finalized.
-/

namespace LlmGateway.Sessions.FileStore

open LlmGateway.Lib Utf16 Sessions.Kit

variable {α : Type} [DecidableEq α] {cfg : Config} {q : Request} {c : Call α} {s₀ s s' : Storage α} {m : Manager α}
  {session : Session α} {id : Text}

omit [DecidableEq α] in
/-- A visible row is another one. -/
theorem ne_of_visible {other : Session α} (hr : s.sessions.get session.id = some session)
    (hv : session.isPendingWorktreeDeletion = true) (hother : s.sessions.get other.id = some other)
    (hvisible : other.isPendingWorktreeDeletion = false) : other.id ≠ session.id := by
  intro hid
  rw [hid, hr] at hother
  cases hother
  rw [hv] at hvisible
  cases hvisible

/-- A hidden row passes every check of no move but its finalization. -/
theorem absorbed_housekeeping (hm : Housekeeping cfg q c s₀ s s') (hread : s₀.sessions.get session.id = some session)
    (hv : session.isPendingWorktreeDeletion = true) (hf : ¬c.finalizes session)
    (hr : s.sessions.get session.id = some session) : s'.sessions.get session.id = some session := by
  cases hm with
  | @remove _ other hother hi =>
    rw [get_removeOrStage, if_neg (ne_of_visible hr hv hother hi.visible)]
    exact hr
  | @insertKit _ cli sessionId description binding hc hb hp hnone | @insert _ cli sessionId description metadata hc hm hnone =>
    rw [get_setSession, if_neg]
    · exact hr
    · intro hid
      have hnew : s.sessions.get session.id = none := hid ▸ hnone
      rw [hnew] at hr
      cases hr
  | point other hother => exact hr
  | unpoint hc => exact hr
  | pointKit other hother hb hk => exact hr
  | unpointKit cli scope =>
    rw [sessions_dropKitPointer]
    exact hr
  | @rewrite _ other metadata lastUsedAt hother hvisible hkit ht hhides =>
    rw [get_setSession, if_neg (ne_of_visible hr hv hother hvisible)]
    exact hr
  | @finalize other hother hfinal =>
    rw [get_deleteSession, if_neg]
    · exact hr
    · intro hid
      rw [hid, hread] at hother
      cases hother
      exact hf hfinal

/-- Every operation that writes leaves a hidden row as it has read it, or finalizes it. -/
theorem absorbed_run (hread : s₀.sessions.get session.id = some session) (hv : session.isPendingWorktreeDeletion = true)
    (hf : ¬c.finalizes session) {d : Storage α} (hd : (run cfg q c ⟨s₀, none⟩).2.saved = some d) :
    d.sessions.get session.id = some session := by
  rcases run_writes cfg q c s₀ d hd with hm | ⟨-, hm⟩
  · clear hd
    induction hm with
    | refl => exact hread
    | tail _ hlast ih => exact absorbed_housekeeping hlast hread hv hf ih
  · cases hm with
    | @write other binding next hother hvisible =>
      rw [get_setSession]
      exact (if_neg (ne_of_visible hread hv hother hvisible)).trans hread

/-- The operation finalizes this generation of the row, and says so. -/
def Finalizes (cfg : Config) (m : Manager α) (i : Request × Call α) (session : Session α) : Prop :=
  (step cfg m i).2 = .bool true ∧
    ∃ given, i.2 = .finalizePendingWorktreeCleanup given ∧ given.id = session.id ∧ given.generation = session.generation

theorem absorbed_step {i : Request × Call α} (hr : m.row id = some session) (hv : session.isPendingWorktreeDeletion = true) :
    (∃ next, (step cfg m i).1.row id = some next ∧ session.Same next ∧ next.isPendingWorktreeDeletion = true) ∨
      Finalizes cfg m i session := by
  have hstay : ∃ next, m.row id = some next ∧ session.Same next ∧ next.isPendingWorktreeDeletion = true :=
    ⟨session, hr, .refl session, hv⟩
  unfold Finalizes step
  cases hs : m.loadStorage cfg with
  | none => exact .inl hstay
  | some s =>
    have hget := get_loadStorage hs id
    rw [hr, Option.map_some] at hget
    have hid : (canonicalSession cfg session).id = id := Table.key_of_get hget
    have hv' := (@isPendingWorktreeDeletion_canonicalSession _ cfg session).trans hv
    rw [← hid] at hget
    by_cases hf : i.2.finalizes (canonicalSession cfg session)
    · right
      obtain ⟨q, c⟩ := i
      cases c with
      | finalizePendingWorktreeCleanup given =>
        obtain ⟨hgiven, -, hgeneration, hmetadata⟩ := hf
        refine ⟨?_, given, rfl, hgiven.trans (canonicalSession_id cfg session), ?_⟩
        · simp [run, finalizePendingWorktreeCleanup, hgiven, hget, hv', hgeneration, hmetadata]
        · exact hgeneration.symm.trans same_canonicalSession.generation
      | _ => exact hf.elim
    · left
      cases hd : (run cfg i.1 i.2 ⟨s, none⟩).2.saved with
      | none => simpa [Manager.row, hd] using hstay
      | some d =>
        refine ⟨_, ?_, @same_canonicalSession _ cfg session, hv'⟩
        simpa [Manager.row, hd, hid] using absorbed_run hget hv' hf hd

end LlmGateway.Sessions.FileStore
