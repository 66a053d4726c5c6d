import Mathlib.Logic.Relation
import LlmGateway.Sessions.FileStore

/-!
# What an operation of the file store can write

* `Housekeeping` — one change of the storage that leaves every attempt alone, with all that the code has checked first;
* `run_writes` — every operation, between reading the file and writing it, is a sequence of housekeeping moves, or one
  lease move and answers true.

What holds of every move holds of every operation.
-/

namespace LlmGateway.Sessions.FileStore

open LlmGateway.Lib Utf16 Sessions.Kit IsoTime

variable {α : Type}

/-- The provider and the session id of an operation that may write a new row, and whether it is a Kit row. -/
def Call.creates : Call α → Option (Text × Option Text × Bool)
  | .createSession cli _ id binding _ => some (cli, id, binding.isSome)
  | .createSessionWithMetadata cli _ id _ => some (cli, some id, false)
  | .createKitSession cli _ _ id => some (cli, id, true)
  | .getOrCreateKitSession cli _ _ id => some (cli, id, true)
  | _ => none

section Moves

variable [DecidableEq α]

/-- The metadata that the operation would give the row hides it. -/
def Call.hides (cfg : Config) (session : Session α) : Call α → Prop
  | .updateSessionMetadata id metadata =>
    id = session.id ∧ metadata.get kitKey = none ∧ metadata.isPendingDeletion = true
  | .compareAndSetSession identity (.replaceMetadata expectedMetadata metadata) =>
    identity.id = session.id ∧ session.isGeneration identity expectedMetadata = true ∧
      session.kit = metadata.bind (fun metadata => metadata.get kitKey) ∧ session.kit.all (Value.isKitSessionBinding cfg) ∧
      metadata.any Metadata.isPendingDeletion = true
  | _ => False

/-- The operation finalizes the hidden row. -/
def Call.finalizes (session : Session α) : Call α → Prop
  | .finalizePendingWorktreeCleanup given =>
    given.id = session.id ∧ session.isPendingWorktreeDeletion = true ∧ session.generation = given.generation ∧
      sameMetadata session.metadata given.metadata = true
  | _ => False

/-- The row may be removed: it is not hidden, and holds no attempt. -/
structure Removable (cfg : Config) (session : Session α) : Prop where
  visible : session.isPendingWorktreeDeletion = false
  idle : ∀ b, getKitSessionBinding cfg session = some b → b.attempt = none

variable (cfg : Config) (q : Request) (c : Call α)

/-- A change of the storage, in an operation that read `s₀`. -/
inductive Housekeeping (s₀ : Storage α) : Storage α → Storage α → Prop
  | remove {s session} (hr : s.sessions.get session.id = some session) (hi : Removable cfg session) :
      Housekeeping s₀ s (s.removeOrStage session)
  | insertKit {s cli sessionId} (description : Option Text) {binding : KitSessionBinding}
      (hc : c.creates = some (cli, sessionId, true)) (hb : Canonical cfg.dateParse binding)
      (hp : isNonEmptyString q.principal = true)
      (hr : s.sessions.get ((truthy sessionId).getD q.id) = none) :
      Housekeeping s₀ s (s.setSession
        (newSession cfg q cli description sessionId (some (JsMap.set Table.empty kitKey (.binding binding)))))
  | insert {s cli sessionId} (description : Option Text) {metadata : Option (Metadata α)}
      (hc : c.creates = some (cli, sessionId, false)) (hm : ∀ m, metadata = some m → m.get kitKey = none)
      (hr : s.sessions.get ((truthy sessionId).getD q.id) = none) :
      Housekeeping s₀ s (s.setSession (newSession cfg q cli description sessionId metadata))
  | point {s} (session : Session α) (hr : s.sessions.get session.id = some session) :
      Housekeeping s₀ s (s.setActive session.cli (some session.id))
  | unpoint {s cli} (hc : (s.activeSession.get cli).isSome ∨ c = .setActiveSession cli none) :
      Housekeeping s₀ s (s.setActive cli none)
  | pointKit {s binding scope} (session : Session α) (hr : s.sessions.get session.id = some session)
      (hb : getKitSessionBinding cfg session = some binding)
      (hk : kitActiveSessionKey binding.execution.scopeRoot binding.execution
        (session.ownerPrincipal.getD (text "local")) = some scope) :
      Housekeeping s₀ s (s.setKitPointer session.cli scope session.id)
  | unpointKit {s} (cli scope : Text) : Housekeeping s₀ s (s.dropKitPointer cli scope)
  | rewrite {s session} (metadata : Option (Metadata α)) (lastUsedAt : Text)
      (hr : s.sessions.get session.id = some session) (hv : session.isPendingWorktreeDeletion = false)
      (hk : metadata.bind (fun m => m.get kitKey) = session.kit)
      (ht : lastUsedAt = session.lastUsedAt ∨ lastUsedAt = text (isoText q.now))
      (hh : metadata.any Metadata.isPendingDeletion = true →
        ∃ read, s₀.sessions.get session.id = some read ∧ c.hides cfg read) :
      Housekeeping s₀ s (s.setSession { session with metadata := metadata, lastUsedAt := lastUsedAt })
  | finalize {session} (hr : s₀.sessions.get session.id = some session) (hf : c.finalizes session) :
      Housekeeping s₀ s₀ (s₀.deleteSession session.id)

/-- What a lease operation makes of the attempt of the session `id`. -/
inductive AttemptStep (id : Text) : Option KitSessionAttempt → Option KitSessionAttempt → Prop
  | claim {cli scopeRoot execution given} (a : KitSessionAttempt)
      (hc : c = .claimKitSessionAttempt cli scopeRoot execution id given) : AttemptStep id none (some a)
  | renew {cli scopeRoot execution} {a : KitSessionAttempt} {expiresAt : Text} {old new : ℤ}
      (hc : c = .renewKitSessionAttempt cli scopeRoot execution id a.id expiresAt)
      (ho : cfg.dateParse a.expiresAt = some old) (hn : cfg.dateParse expiresAt = some new) (hlt : old < new) :
      AttemptStep id (some a) (some { a with expiresAt := expiresAt })
  | release {cli scopeRoot execution} {a : KitSessionAttempt}
      (hc : c = .releaseKitSessionAttempt cli scopeRoot execution id a.id) : AttemptStep id (some a) none
  | refresh {given expected} (old new : Option KitSessionAttempt) (hc : c = .updateKitSessionBinding id given expected)
      (he : ∀ a, old = some a → expected = some a.id) : AttemptStep id old new

inductive LeaseMove : Storage α → Storage α → Prop
  | write {s session binding next} (hr : s.sessions.get session.id = some session)
      (hv : session.isPendingWorktreeDeletion = false) (hb : getKitSessionBinding cfg session = some binding)
      (hn : Canonical cfg.dateParse next) (he : next.execution = binding.execution)
      (hs : AttemptStep cfg c session.id binding.attempt next.attempt) :
      LeaseMove s (s.setSession (session.setKit next))

abbrev Moves (s₀ : Storage α) : Storage α → Storage α → Prop := Relation.ReflTransGen (Housekeeping cfg q c s₀)

/-- The storage in memory, and the one written, are reached by moves from the one that was read. -/
structure Tidy (s₀ : Storage α) (h : Hold α) : Prop where
  storage : Moves cfg q c s₀ s₀ h.storage
  saved : ∀ d, h.saved = some d → Moves cfg q c s₀ s₀ d

end Moves

section Tidy

variable [DecidableEq α] {cfg : Config} {q : Request} {c : Call α} {s₀ s' : Storage α} {h : Hold α}

theorem Tidy.init : Tidy cfg q c s₀ ⟨s₀, none⟩ := ⟨.refl, fun _ hd => by cases hd⟩

theorem Tidy.moves (ht : Tidy cfg q c s₀ h) (hm : Moves cfg q c s₀ h.storage s') : Tidy cfg q c s₀ (h.put s') :=
  ⟨ht.storage.trans hm, ht.saved⟩

theorem Tidy.put (ht : Tidy cfg q c s₀ h) (hm : Housekeeping cfg q c s₀ h.storage s') : Tidy cfg q c s₀ (h.put s') :=
  ht.moves (.single hm)

theorem Tidy.saveStorage (ht : Tidy cfg q c s₀ h) : Tidy cfg q c s₀ h.saveStorage := by
  refine ⟨ht.storage, fun d hd => ?_⟩
  cases hd
  exact ht.storage

end Tidy

/-! ## Removing rows -/

section Removing

variable {cfg : Config} {q : Request} {c : Call α} {s s₀ : Storage α} {h : Hold α}

theorem removable_of_isExpired {session : Session α} (he : isExpired cfg q s session = true) :
    Removable cfg session := by
  unfold isExpired at he
  split at he
  · cases he
  · rename_i hv
    refine ⟨by simpa using hv, fun b hb => ?_⟩
    by_contra hattempt
    have hsome : b.attempt.isSome = true := Option.isSome_iff_ne_none.2 hattempt
    simp [hb, hsome] at he

theorem Removable.of_guard {session : Session α} (hv : ¬session.isPendingWorktreeDeletion = true)
    (hi : ¬((getKitSessionBinding cfg session).any fun b => b.attempt.isSome) = true) : Removable cfg session := by
  refine ⟨by simpa using hv, fun b hb => ?_⟩
  simpa [hb] using hi

/-- The eviction loop removes a sublist of the rows, all of them expired. -/
theorem evictLoop_spec (rows : List (Session α)) (s : Storage α) :
    (evictLoop cfg q rows s).1 = (evictLoop cfg q rows s).2.foldl Storage.removeOrStage s ∧
      (evictLoop cfg q rows s).2.Sublist rows ∧ ∀ r ∈ (evictLoop cfg q rows s).2, Removable cfg r := by
  induction rows generalizing s with
  | nil => exact ⟨rfl, .slnil, fun r hr => absurd hr List.not_mem_nil⟩
  | cons r rows ih =>
    unfold evictLoop
    split
    · rename_i he
      obtain ⟨heq, hsub, hall⟩ := ih (s.removeOrStage r)
      refine ⟨heq, hsub.cons_cons r, fun r' hr' => ?_⟩
      rcases List.mem_cons.1 hr' with rfl | hr'
      · exact removable_of_isExpired he
      · exact hall r' hr'
    · obtain ⟨heq, hsub, hall⟩ := ih s
      exact ⟨heq, hsub.cons r, hall⟩

variable [DecidableEq α]

/-- Rows with different ids, each of them stored and removable, are removed one after another. -/
theorem moves_foldl_removeOrStage (rows : List (Session α)) (hid : (rows.map Session.id).Nodup)
    (hrows : ∀ r ∈ rows, s.sessions.get r.id = some r ∧ Removable cfg r) :
    Moves cfg q c s₀ s (rows.foldl Storage.removeOrStage s) := by
  induction rows generalizing s with
  | nil => exact .refl
  | cons r rows ih =>
    rw [List.map_cons, List.nodup_cons] at hid
    have hr := hrows r List.mem_cons_self
    refine .head (.remove hr.1 hr.2) (ih hid.2 fun r' hr' => ?_)
    have hne : r.id ≠ r'.id := by
      intro he
      exact hid.1 (he ▸ List.mem_map_of_mem hr')
    rw [get_removeOrStage, if_neg hne]
    exact hrows r' (List.mem_cons_of_mem _ hr')

theorem Tidy.evictExpiredSessions (ht : Tidy cfg q c s₀ h) : Tidy cfg q c s₀ (evictExpiredSessions cfg q h) := by
  unfold FileStore.evictExpiredSessions
  obtain ⟨heq, hsub, hall⟩ := @evictLoop_spec _ cfg q h.storage.sessions.rows h.storage
  have hmoves : Moves cfg q c s₀ h.storage (evictLoop cfg q h.storage.sessions.rows h.storage).1 := by
    rw [heq]
    refine moves_foldl_removeOrStage _ (h.storage.sessions.nodup.sublist (hsub.map _)) fun r hr => ⟨?_, hall r hr⟩
    exact Table.get_of_mem (hsub.mem hr)
  simp only
  split
  · exact ht
  · exact (ht.moves hmoves).saveStorage

theorem Tidy.removeSessionRow (ht : Tidy cfg q c s₀ h) (id : Text) (caller : Option Text) :
    Tidy cfg q c s₀ (removeSessionRow cfg id caller h).2 := by
  unfold FileStore.removeSessionRow
  split
  · exact ht
  · rename_i session hr
    have hid : session.id = id := Table.key_of_get hr
    split_ifs with hv hc hi
    · exact ht
    · exact ht
    · exact ht
    · exact (ht.put (.remove (by rw [hid]; exact hr) (.of_guard hv hi))).saveStorage

theorem Tidy.evictSessionRow (ht : Tidy cfg q c s₀ h) (id : Text) : Tidy cfg q c s₀ (evictSessionRow cfg id h) :=
  ht.removeSessionRow id none

end Removing

/-! ## The operations -/

section Operations

variable {cfg : Config} {q : Request} {c : Call α} {s₀ : Storage α} {h : Hold α}

theorem getKitSessionBinding_newSession {binding : KitSessionBinding} (hb : Canonical cfg.dateParse binding) (cli : Text)
    (description sessionId : Option Text) :
    getKitSessionBinding cfg (newSession cfg q cli description sessionId
      (some (JsMap.set Table.empty kitKey (.binding binding))) : Session α) = some binding := by
  simp [getKitSessionBinding, Session.kit, newSession, JsMap.get_set, hb.clone]

variable [DecidableEq α]

theorem Tidy.wrote_createSession (ht : Tidy cfg q c s₀ h) {cli : Text} (description : Option Text)
    {sessionId : Option Text} {kitBinding : Option KitSessionBinding} (initialMetadata : Option (Metadata α))
    (hc : c.creates = some (cli, sessionId, kitBinding.isSome)) {d : Storage α}
    (hd : (createSession cfg q cli description sessionId kitBinding initialMetadata h).2.saved = some d) :
    Moves cfg q c s₀ s₀ d := by
  have he := ht.evictExpiredSessions
  unfold createSession at hd
  split at hd
  · exact ht.saved d hd
  rename_i hkit
  split at hd
  · exact ht.saved d hd
  dsimp only at hd
  split at hd
  · exact he.saved d hd
  rename_i hid
  have hnone : (FileStore.evictExpiredSessions cfg q h).storage.sessions.get ((truthy sessionId).getD q.id) = none := by
    simpa using hid
  cases kitBinding with
  | some binding =>
    dsimp only at hd
    split at hd
    · exact he.saved d hd
    rename_i cloned hcloned
    have hcanonical := (canonical_clone hcloned).1
    split at hd
    · exact he.saved d hd
    rename_i scope hscope
    have hp := (kitActiveSessionKey_eq_some.1 hscope).2.1
    have hinsert := he.put (.insertKit description hc hcanonical hp hnone)
    split_ifs at hd
    · exact hinsert.saveStorage.saved d hd
    · refine (hinsert.put (.pointKit _ ?_ (getKitSessionBinding_newSession hcanonical cli description sessionId) ?_)).saveStorage.saved d hd
      · exact get_setSession.trans (if_pos rfl)
      · exact hscope
  | none =>
    dsimp only at hd
    have hm : ∀ m, initialMetadata = some m → m.get kitKey = none := by
      intro m hm
      simpa [hm] using hkit
    have hinsert := he.put (.insert description hc hm hnone)
    split_ifs at hd
    · exact hinsert.saveStorage.saved d hd
    · refine (hinsert.put (.point (newSession cfg q cli description sessionId initialMetadata) ?_)).saveStorage.saved d hd
      exact get_setSession.trans (if_pos rfl)

theorem Tidy.wrote_adoptOrCreate (ht : Tidy cfg q c s₀ h) {cli scope : Text} (description : Option Text)
    {sessionId : Option Text} {requested : KitSessionBinding} (hc : c.creates = some (cli, sessionId, true))
    (hk : kitActiveSessionKey requested.execution.scopeRoot requested.execution q.principal = some scope) {d : Storage α}
    (hd : (adoptOrCreate cfg q cli requested scope description sessionId h).2.saved = some d) :
    Moves cfg q c s₀ s₀ d := by
  unfold adoptOrCreate at hd
  split at hd
  · rename_i identified hidentified
    obtain ⟨id, -, hr⟩ := Option.bind_eq_some_iff.1 hidentified
    have hid : identified.id = id := Table.key_of_get hr
    split at hd
    · exact ht.saved d hd
    split at hd
    · rename_i hm
      -- the row is of this provider, of this execution, and of this principal
      unfold sessionMatchesKitBinding at hm
      split at hm
      · cases hm
      rename_i hguard
      simp only [ne_eq, Bool.not_eq_true', not_or, not_not, Bool.not_eq_false] at hguard
      obtain ⟨rfl, ho⟩ := hguard
      split at hm
      · cases hm
      rename_i b hb
      have hexecution : b.execution = requested.execution := by
        simpa using (sameKitExecutionRef_eq_some hm).symm
      rw [← hexecution, ← owner_of_principalCanAccess ho] at hk
      exact (ht.put (.pointKit identified (by rw [hid]; exact hr) hb hk)).saveStorage.saved d hd
    · exact ht.saved d hd
  · exact ht.wrote_createSession description none hc hd

theorem Tidy.wrote_getOrCreateKitSession (ht : Tidy cfg q c s₀ h) {cli : Text} {binding : KitSessionBinding}
    (description : Option Text) {sessionId : Option Text} (hc : c.creates = some (cli, sessionId, true)) {d : Storage α}
    (hd : (getOrCreateKitSession cfg q cli binding description sessionId h).2.saved = some d) :
    Moves cfg q c s₀ s₀ d := by
  have he := ht.evictExpiredSessions
  unfold getOrCreateKitSession at hd
  split at hd
  · exact ht.saved d hd
  dsimp only at hd
  split at hd
  · exact he.saved d hd
  rename_i scope hk
  split at hd
  · exact he.wrote_adoptOrCreate description hc hk hd
  split at hd
  · exact he.saved d hd
  · exact he.saved d hd
  · exact (he.put (.unpointKit cli scope)).saveStorage.wrote_adoptOrCreate description hc hk hd

/-! ### Lease operations -/

/-- Finding the session of an execution: it is stored, visible and bound; what is not found may have been evicted. -/
theorem Tidy.getExactKitSession (ht : Tidy cfg q c s₀ h) (cli : Text) (scopeRoot : Option Text)
    (execution : KitExecutionRef) (sessionId : Text) :
    Tidy cfg q c s₀ (getExactKitSession cfg q cli scopeRoot execution sessionId h).2 ∧
      ∀ session binding, (getExactKitSession cfg q cli scopeRoot execution sessionId h).1 = some (some (session, binding)) →
        (getExactKitSession cfg q cli scopeRoot execution sessionId h).2 = h ∧ session.id = sessionId ∧
          h.storage.sessions.get sessionId = some session ∧ session.isPendingWorktreeDeletion = false ∧
          getKitSessionBinding cfg session = some binding := by
  unfold FileStore.getExactKitSession
  split
  · exact ⟨ht, fun _ _ hf => by simp at hf⟩
  split
  · exact ⟨ht, fun _ _ hf => by simp at hf⟩
  rename_i session hr
  split
  · exact ⟨ht, fun _ _ hf => by simp at hf⟩
  rename_i hv
  split
  · exact ⟨ht.evictSessionRow sessionId, fun _ _ hf => by simp at hf⟩
  split
  · exact ⟨ht, fun _ _ hf => by simp at hf⟩
  rename_i binding hb
  split
  · exact ⟨ht, fun _ _ hf => by simp at hf⟩
  refine ⟨ht, fun session' binding' hf => ?_⟩
  obtain ⟨same, -, hf⟩ := Option.map_eq_some_iff.1 hf
  split at hf
  · cases hf
    exact ⟨rfl, Table.key_of_get hr, hr, by simpa using hv, hb⟩
  · cases hf

/-- What a lease operation writes: housekeeping, or one lease move, and then it answers true. -/
def Leased (cfg : Config) (q : Request) (c : Call α) (s₀ : Storage α) (out : Reply α × Hold α) : Prop :=
  ∀ d, out.2.saved = some d → Moves cfg q c s₀ s₀ d ∨ out.1 = .bool true ∧ LeaseMove cfg c s₀ d

theorem Tidy.leased (ht : Tidy cfg q c s₀ h) (reply : Reply α) : Leased cfg q c s₀ (reply, h) :=
  fun d hd => .inl (ht.saved d hd)

/-- Writing the binding of a stored session is a lease move. -/
theorem leased_saveKit {session : Session α} {binding next : KitSessionBinding}
    (hr : s₀.sessions.get session.id = some session) (hv : session.isPendingWorktreeDeletion = false)
    (hb : getKitSessionBinding cfg session = some binding) (hn : Canonical cfg.dateParse next)
    (he : next.execution = binding.execution) (hs : AttemptStep cfg c session.id binding.attempt next.attempt) :
    Leased cfg q c s₀ (.bool true, Hold.saveKit ⟨s₀, none⟩ session next) := by
  intro d hd
  cases hd
  exact .inr ⟨rfl, .write hr hv hb hn he hs⟩

/-- **What follows `getExactKitSession`** works on a stored session with its binding, or writes nothing. -/
theorem leased_getExactKitSession (cli : Text) (scopeRoot : Option Text) (execution : KitExecutionRef) (sessionId : Text)
    {k : Session α → KitSessionBinding → Hold α → Reply α × Hold α}
    (hk : ∀ session binding, session.id = sessionId → s₀.sessions.get session.id = some session →
      session.isPendingWorktreeDeletion = false → getKitSessionBinding cfg session = some binding →
      Leased cfg q c s₀ (k session binding ⟨s₀, none⟩)) :
    Leased cfg q c s₀ (match getExactKitSession cfg q cli scopeRoot execution sessionId ⟨s₀, none⟩ with
      | (none, h) => (.threw, h)
      | (some none, h) => (.bool false, h)
      | (some (some (session, binding)), h) => k session binding h) := by
  obtain ⟨htidy, hfound⟩ := (.init : Tidy cfg q c s₀ ⟨s₀, none⟩).getExactKitSession cli scopeRoot execution sessionId
  split
  · rename_i h' heq
    rw [heq] at htidy
    exact htidy.leased _
  · rename_i h' heq
    rw [heq] at htidy
    exact htidy.leased _
  · rename_i session binding h' heq
    rw [heq] at hfound
    obtain ⟨rfl, rfl, hr, hv, hb⟩ := hfound session binding rfl
    exact hk session binding rfl hr hv hb

theorem leased_claimKitSessionAttempt (cli : Text) (scopeRoot : Option Text) (execution : KitExecutionRef)
    (sessionId : Text) (attempt : KitSessionAttempt)
    (hc : c = .claimKitSessionAttempt cli scopeRoot execution sessionId attempt) :
    Leased cfg q c s₀ (claimKitSessionAttempt cfg q cli scopeRoot execution sessionId attempt ⟨s₀, none⟩) := by
  unfold claimKitSessionAttempt
  split
  · exact Tidy.init.leased _
  split
  · exact Tidy.init.leased _
  rename_i nextAttempt hnext
  obtain ⟨hvalid, hclone⟩ := cloneKitSessionAttempt_eq_some hnext
  split
  · exact Tidy.init.leased _
  refine leased_getExactKitSession cli scopeRoot execution sessionId ?_
  rintro session binding rfl hr hv hb
  have hcanonical := (getKitSessionBinding_eq_some hb).1
  split_ifs with ha hnative
  · exact Tidy.init.leased _
  · exact Tidy.init.leased _
  · have hnone : binding.attempt = none := by simpa using ha
    refine leased_saveKit hr hv hb (hcanonical.withAttempt fun a h => ?_) rfl ?_
    · cases h
      exact ⟨hvalid, by rw [hclone]⟩
    · rw [hnone]
      exact .claim nextAttempt hc

theorem leased_renewKitSessionAttempt (cli : Text) (scopeRoot : Option Text) (execution : KitExecutionRef)
    (sessionId attemptId expiresAt : Text)
    (hc : c = .renewKitSessionAttempt cli scopeRoot execution sessionId attemptId expiresAt) :
    Leased cfg q c s₀ (renewKitSessionAttempt cfg q cli scopeRoot execution sessionId attemptId expiresAt ⟨s₀, none⟩) := by
  unfold renewKitSessionAttempt
  split
  · exact Tidy.init.leased _
  refine leased_getExactKitSession cli scopeRoot execution sessionId ?_
  rintro session binding rfl hr hv hb
  have hcanonical := (getKitSessionBinding_eq_some hb).1
  split
  · exact Tidy.init.leased _
  rename_i currentAttempt hcurrent
  split
  · exact Tidy.init.leased _
  rename_i hattemptId
  obtain rfl : currentAttempt.id = attemptId := by simpa using hattemptId
  split
  · exact Tidy.init.leased _
  rename_i renewedAttempt hrenewed
  obtain ⟨hvalid, hclone⟩ := cloneKitSessionAttempt_eq_some hrenewed
  split
  · exact Tidy.init.leased _
  rename_i hactive
  simp only [Bool.or_eq_true, Bool.not_eq_true', not_or, Bool.not_eq_false] at hactive
  have hsame : renewedAttempt = { currentAttempt with expiresAt := expiresAt } := by
    rw [hclone, ← (hcanonical.attempt _ hcurrent).2]
  obtain ⟨old, hold⟩ : ∃ old, cfg.dateParse currentAttempt.expiresAt = some old := by
    have := (hcanonical.attempt _ hcurrent).1
    simp only [isKitSessionAttempt, Bool.and_eq_true] at this
    cases ho : cfg.dateParse currentAttempt.expiresAt with
    | some old => exact ⟨old, rfl⟩
    | none => simp [ho] at this
  obtain ⟨new, hnew⟩ : ∃ new, cfg.dateParse expiresAt = some new := by
    have := hactive.1
    simp only [isKitSessionAttemptActive, hsame] at this
    cases ho : cfg.dateParse expiresAt with
    | some new => exact ⟨new, rfl⟩
    | none => simp [ho] at this
  have hlt : old < new := by
    have := hactive.2
    simpa [parsesAtMost, hsame, hold, hnew] using this
  refine leased_saveKit hr hv hb (hcanonical.withAttempt fun a h => ?_) rfl ?_
  · cases h
    exact ⟨hvalid, by rw [hclone]⟩
  · rw [hcurrent, hsame]
    exact .renew hc hold hnew hlt

theorem leased_releaseKitSessionAttempt (cli : Text) (scopeRoot : Option Text) (execution : KitExecutionRef)
    (sessionId attemptId : Text)
    (hc : c = .releaseKitSessionAttempt cli scopeRoot execution sessionId attemptId) :
    Leased cfg q c s₀ (releaseKitSessionAttempt cfg q cli scopeRoot execution sessionId attemptId ⟨s₀, none⟩) := by
  unfold releaseKitSessionAttempt
  split
  · exact Tidy.init.leased _
  refine leased_getExactKitSession cli scopeRoot execution sessionId ?_
  rintro session binding rfl hr hv hb
  have hcanonical := (getKitSessionBinding_eq_some hb).1
  split
  · rename_i ha
    obtain ⟨a, hattempt, haid⟩ := (Option.any_eq_true _ _).1 ha
    obtain rfl : a.id = attemptId := by simpa using haid
    refine leased_saveKit hr hv hb (hcanonical.withAttempt fun a h => by cases h) rfl ?_
    rw [hattempt]
    exact .release hc
  · exact Tidy.init.leased _

theorem leased_updateKitSessionBinding (sessionId : Text) (binding : KitSessionBinding) (expectedAttemptId : Option Text)
    (hc : c = .updateKitSessionBinding sessionId binding expectedAttemptId) :
    Leased cfg q c s₀ (updateKitSessionBinding cfg q sessionId binding expectedAttemptId ⟨s₀, none⟩) := by
  unfold updateKitSessionBinding
  split
  · exact Tidy.init.leased _
  rename_i session hr
  obtain rfl : session.id = sessionId := Table.key_of_get hr
  split
  · exact Tidy.init.leased _
  rename_i hv
  split
  · exact (Tidy.init.evictSessionRow session.id).leased _
  split
  · exact Tidy.init.leased _
  rename_i next hnext
  obtain ⟨hcanonical, -⟩ := canonical_clone hnext
  split
  · exact Tidy.init.leased _
  rename_i existing hb
  split
  · exact Tidy.init.leased _
  · exact Tidy.init.leased _
  rename_i hsame
  have hexecution : existing.execution = next.execution := by
    simpa using (sameKitExecutionRef_eq_some hsame).symm
  have hwrite : (∀ a, existing.attempt = some a → expectedAttemptId = some a.id) →
      Leased cfg q c s₀ (.bool true, Hold.saveKit ⟨s₀, none⟩ session next) := fun ha =>
    leased_saveKit hr (by simpa using hv) hb hcanonical hexecution.symm (.refresh _ _ hc ha)
  split
  · split
    · exact Tidy.init.leased _
    · rename_i hidle
      exact hwrite fun a ha => by simp [ha] at hidle
  · split
    · exact Tidy.init.leased _
    · rename_i expected hguard
      refine hwrite fun a ha => ?_
      simp only [ha, Option.any_some, Bool.or_eq_true, Bool.not_eq_true', not_or, Bool.not_eq_false,
        decide_eq_true_eq] at hguard
      rw [hguard.2.1]

/-! ### Reads, pointers and removal -/

theorem Tidy.getSession (ht : Tidy cfg q c s₀ h) (sessionId : Text) :
    Tidy cfg q c s₀ (getSession cfg q sessionId h).2 := by
  unfold FileStore.getSession
  split
  · exact ht
  split
  · exact ht
  split
  · exact ht.evictSessionRow sessionId
  · exact ht

theorem Tidy.setActiveSession (ht : Tidy cfg q c s₀ h) (cli : Text) (sessionId : Option Text)
    (hc : c = .setActiveSession cli sessionId) : Tidy cfg q c s₀ (setActiveSession cfg q cli sessionId h).2 := by
  unfold FileStore.setActiveSession
  split
  · exact (ht.put (.unpoint (.inr hc))).saveStorage
  rename_i id
  split
  · exact ht
  rename_i session hr
  obtain rfl : session.id = id := Table.key_of_get hr
  split
  · exact ht
  split
  · exact ht.evictSessionRow session.id
  split
  · exact ht
  · rename_i hguard
    simp only [ne_eq, not_or, not_not] at hguard
    obtain ⟨rfl, -⟩ := hguard
    exact (ht.put (.point session hr)).saveStorage

theorem Tidy.getActiveSession (ht : Tidy cfg q c s₀ h) (cli : Text) :
    Tidy cfg q c s₀ (getActiveSession cfg q cli h).2 := by
  unfold FileStore.getActiveSession
  split
  · exact ht
  rename_i sessionId hactive
  have hclear : Tidy cfg q c s₀ (h.put (h.storage.setActive cli none)) :=
    ht.put (.unpoint (.inl (isSome_of_active hactive)))
  split
  · exact hclear.saveStorage
  rename_i session hr
  obtain rfl : session.id = sessionId := Table.key_of_get hr
  split
  · exact hclear.saveStorage
  split
  · rename_i hexpired
    exact (hclear.put (.remove (s := h.storage.setActive cli none) hr (removable_of_isExpired hexpired))).saveStorage
  · exact ht

theorem Tidy.setActiveKitSession (ht : Tidy cfg q c s₀ h) (cli : Text) (scopeRoot sessionId : Option Text)
    (expectedExecution : Option KitExecutionRef) :
    Tidy cfg q c s₀ (setActiveKitSession cfg q cli scopeRoot sessionId expectedExecution h).2 := by
  unfold FileStore.setActiveKitSession
  split
  · exact ht
  split
  · split
    · exact ht
    · unfold pointKit
      split
      · exact ht
      · exact (ht.put (.unpointKit cli _)).saveStorage
  rename_i id
  split
  · exact ht
  rename_i session hr
  obtain rfl : session.id = id := Table.key_of_get hr
  split
  · exact ht
  split
  · exact ht.evictSessionRow session.id
  split
  · exact ht
  rename_i binding hb
  split
  · exact ht
  rename_i hguard
  simp only [ne_eq, not_or, not_not] at hguard
  obtain ⟨rfl, rfl⟩ := hguard
  split
  · exact ht
  · exact ht
  split
  · exact ht
  rename_i haccess
  have howner : session.ownerPrincipal.getD q.principal = session.ownerPrincipal.getD (text "local") := by
    have := owner_of_principalCanAccess (by simpa using haccess)
    cases hp : session.ownerPrincipal with
    | some o => rfl
    | none => simpa [hp] using this.symm
  rw [howner]
  unfold pointKit
  split
  · exact ht
  · rename_i scope hk
    exact (ht.put (.pointKit session hr hb hk)).saveStorage

theorem Tidy.getActiveKitSession (ht : Tidy cfg q c s₀ h) (cli : Text) (scopeRoot : Option Text)
    (expectedExecution : Option KitExecutionRef) :
    Tidy cfg q c s₀ (getActiveKitSession cfg q cli scopeRoot expectedExecution h).2 := by
  have hdrop : ∀ scope, Tidy cfg q c s₀ (h.put (h.storage.dropKitPointer cli scope)) := fun scope =>
    ht.put (.unpointKit cli scope)
  unfold FileStore.getActiveKitSession
  split
  · exact ht
  split
  · exact ht
  rename_i scope hk
  split
  · exact ht
  rename_i sessionId hpointer
  split
  · exact (hdrop scope).saveStorage
  rename_i session hr
  obtain rfl : session.id = sessionId := Table.key_of_get hr
  dsimp only
  split
  · exact ht
  · exact ht
  split
  · exact (hdrop scope).saveStorage
  split
  · unfold dropStaleKit
    split
    · rename_i hexpired
      refine ((hdrop scope).put (.remove ?_ (removable_of_isExpired hexpired))).saveStorage
      rw [Hold.put, sessions_dropKitPointer]
      exact hr
    · exact (hdrop scope).saveStorage
  split
  · exact ht
  · exact ht

theorem Tidy.clearActiveKitSessionIfCurrent (ht : Tidy cfg q c s₀ h) (cli : Text) (scopeRoot : Option Text)
    (execution : KitExecutionRef) (sessionId : Text) :
    Tidy cfg q c s₀ (clearActiveKitSessionIfCurrent cfg q cli scopeRoot execution sessionId h).2 := by
  have he := ht.evictExpiredSessions
  unfold FileStore.clearActiveKitSessionIfCurrent
  split
  · exact ht
  dsimp only
  split
  · exact he
  split
  · exact he
  split
  · exact he
  split
  · exact he
  split
  · exact he
  split
  · exact he
  split
  · exact he
  · exact he
  · exact (he.put (.unpointKit cli _)).saveStorage

theorem Tidy.clearAllSessions (ht : Tidy cfg q c s₀ h) (cli : Option Text) :
    Tidy cfg q c s₀ (clearAllSessions cfg cli h).2 := by
  unfold FileStore.clearAllSessions
  refine (ht.moves (moves_foldl_removeOrStage _ ?_ fun r hr => ?_)).saveStorage
  · exact h.storage.sessions.nodup.sublist (List.filter_sublist.map _)
  · obtain ⟨hmem, hguard⟩ := List.mem_filter.1 hr
    simp only [Bool.and_eq_true, Bool.not_eq_true'] at hguard
    exact ⟨Table.get_of_mem hmem, .of_guard (by simp [hguard.1.2]) (by simp [hguard.2])⟩

/-! ### Usage and metadata -/

theorem Tidy.updateSessionUsage (ht : Tidy cfg q c s₀ h) (sessionId : Text) :
    Tidy cfg q c s₀ (updateSessionUsage q sessionId h).2 := by
  unfold FileStore.updateSessionUsage
  split
  · exact ht
  rename_i session hr
  obtain rfl : session.id = sessionId := Table.key_of_get hr
  split
  · exact ht
  rename_i hv
  refine (ht.put (.rewrite session.metadata _ hr (by simpa using hv) rfl (.inr rfl) fun hp => ?_)).saveStorage
  exact absurd hp hv

theorem tidy_updateSessionMetadata (sessionId : Text) (metadata : Metadata α)
    (hc : c = .updateSessionMetadata sessionId metadata) :
    Tidy cfg q c s₀ (updateSessionMetadata cfg q sessionId metadata ⟨s₀, none⟩).2 := by
  have ht : Tidy cfg q c s₀ ⟨s₀, none⟩ := .init
  unfold FileStore.updateSessionMetadata
  split
  · exact ht
  rename_i hkit
  split
  · exact ht
  rename_i session hr
  obtain rfl : session.id = sessionId := Table.key_of_get hr
  split
  · exact ht
  rename_i hv
  have hkit : metadata.get kitKey = none := by simpa using hkit
  have hsame : ((session.metadata.getD Table.empty).assign metadata).get kitKey = session.kit := by
    rw [JsMap.get_assign, hkit, Option.none_or, Session.kit]
    cases session.metadata <;> rfl
  -- a row that was visible is hidden by the given metadata only
  have hhides : Metadata.isPendingDeletion ((session.metadata.getD Table.empty).assign metadata) = true →
      ∃ read, s₀.sessions.get session.id = some read ∧ c.hides cfg read := by
    intro hp
    refine ⟨session, hr, ?_⟩
    rw [hc]
    refine ⟨rfl, hkit, ?_⟩
    unfold Metadata.isPendingDeletion at hp ⊢
    rw [JsMap.get_assign] at hp
    cases hm : metadata.get WORKTREE_CLEANUP_TOMBSTONE_KEY with
    | some v => simpa [hm] using hp
    | none =>
      cases hold : session.metadata with
      | none => simp [hm, hold] at hp
      | some old =>
        refine absurd ?_ hv
        simpa [hm, hold, Session.isPendingWorktreeDeletion, Metadata.isPendingDeletion] using hp
  dsimp only
  split
  · exact (ht.put (.rewrite (some _) _ hr (by simpa using hv) hsame (.inr rfl) hhides)).saveStorage
  · exact (ht.put (.rewrite (some _) _ hr (by simpa using hv) hsame (.inl rfl) hhides)).saveStorage

theorem tidy_compareAndSetSession (identity : SessionGenerationIdentity)
    (mutation : SessionCompareAndSetMutation α) (hc : c = .compareAndSetSession identity mutation) :
    Tidy cfg q c s₀ (compareAndSetSession cfg identity mutation ⟨s₀, none⟩).2 := by
  have ht : Tidy cfg q c s₀ ⟨s₀, none⟩ := .init
  unfold FileStore.compareAndSetSession
  split
  · exact ht
  rename_i session hr
  have hid : session.id = identity.id := Table.key_of_get hr
  rw [← hid] at hr
  split
  · exact ht
  rename_i hv
  split
  · rename_i expectedMetadata metadata
    dsimp only
    split
    · exact ht
    rename_i hgeneration
    split
    · exact ht
    rename_i hkit
    simp only [ne_eq, Bool.not_eq_true', not_or, not_not, Bool.not_eq_false] at hgeneration hkit
    refine (ht.put (.rewrite metadata _ hr (by simpa using hv) hkit.1.symm (.inl rfl) fun hp => ?_)).saveStorage
    refine ⟨session, hr, ?_⟩
    rw [hc]
    exact ⟨hid.symm, hgeneration, hkit.1, by rw [hkit.1]; exact hkit.2, hp⟩
  · split
    · exact ht
    split
    · exact ht
    · rename_i hi
      exact (ht.put (.remove hr (.of_guard hv hi))).saveStorage

theorem tidy_finalizePendingWorktreeCleanup (session : Session α)
    (hc : c = .finalizePendingWorktreeCleanup session) :
    Tidy cfg q c s₀ (finalizePendingWorktreeCleanup session ⟨s₀, none⟩).2 := by
  have ht : Tidy cfg q c s₀ ⟨s₀, none⟩ := .init
  unfold FileStore.finalizePendingWorktreeCleanup
  split
  · exact ht
  rename_i current hr
  have hid : current.id = session.id := Table.key_of_get hr
  split
  · exact ht
  · rename_i hguard
    simp only [Bool.not_eq_true', ne_eq, not_or, not_not, Bool.not_eq_false] at hguard
    rw [← hid] at hr ⊢
    refine (ht.put (.finalize hr ?_)).saveStorage
    rw [hc]
    exact ⟨hid.symm, hguard⟩

/-- **What an operation writes** is reached from what it read by housekeeping moves, or it is one lease move away and the
operation answers true. -/
theorem run_writes (cfg : Config) (q : Request) (c : Call α) (s : Storage α) :
    Leased cfg q c s (run cfg q c ⟨s, none⟩) := by
  have htidy : ∀ c : Call α, Tidy cfg q c s ⟨s, none⟩ := fun _ => .init
  have hleased : ∀ (c : Call α) (out : Reply α × Hold α), Tidy cfg q c s out.2 → Leased cfg q c s out :=
    fun _ out ht => ht.leased out.1
  cases c with
  | createSession cli description sessionId kitBinding initialMetadata =>
    exact fun d hd => .inl ((htidy _).wrote_createSession description initialMetadata rfl hd)
  | createSessionWithMetadata cli description sessionId metadata =>
    exact fun d hd => .inl ((htidy _).wrote_createSession description (some metadata) rfl hd)
  | createKitSession cli binding description sessionId =>
    exact fun d hd => .inl ((htidy _).wrote_createSession description none rfl hd)
  | getOrCreateKitSession cli binding description sessionId =>
    exact fun d hd => .inl ((htidy _).wrote_getOrCreateKitSession description rfl hd)
  | clearActiveKitSessionIfCurrent cli scopeRoot execution sessionId =>
    exact hleased _ _ ((htidy _).clearActiveKitSessionIfCurrent cli scopeRoot execution sessionId)
  | claimKitSessionAttempt cli scopeRoot execution sessionId attempt =>
    exact leased_claimKitSessionAttempt cli scopeRoot execution sessionId attempt rfl
  | renewKitSessionAttempt cli scopeRoot execution sessionId attemptId expiresAt =>
    exact leased_renewKitSessionAttempt cli scopeRoot execution sessionId attemptId expiresAt rfl
  | releaseKitSessionAttempt cli scopeRoot execution sessionId attemptId =>
    exact leased_releaseKitSessionAttempt cli scopeRoot execution sessionId attemptId rfl
  | updateKitSessionBinding sessionId binding expectedAttemptId =>
    exact leased_updateKitSessionBinding sessionId binding expectedAttemptId rfl
  | getSession sessionId => exact hleased _ _ ((htidy _).getSession sessionId)
  | listSessions cli => exact hleased _ _ (htidy _).evictExpiredSessions
  | deleteSession sessionId => exact hleased _ _ ((htidy _).removeSessionRow sessionId (some q.principal))
  | setActiveSession cli sessionId => exact hleased _ _ ((htidy _).setActiveSession cli sessionId rfl)
  | getActiveSession cli => exact hleased _ _ ((htidy _).getActiveSession cli)
  | setActiveKitSession cli scopeRoot sessionId expectedExecution =>
    exact hleased _ _ ((htidy _).setActiveKitSession cli scopeRoot sessionId expectedExecution)
  | getActiveKitSession cli scopeRoot expectedExecution =>
    exact hleased _ _ ((htidy _).getActiveKitSession cli scopeRoot expectedExecution)
  | updateSessionUsage sessionId => exact hleased _ _ ((htidy _).updateSessionUsage sessionId)
  | updateSessionMetadata sessionId metadata =>
    exact hleased _ _ (tidy_updateSessionMetadata sessionId metadata rfl)
  | compareAndSetSession identity mutation =>
    exact hleased _ _ (tidy_compareAndSetSession identity mutation rfl)
  | clearAllSessions cli => exact hleased _ _ ((htidy _).clearAllSessions cli)
  | getPinnedKitReleaseIds => exact hleased _ _ (htidy _).evictExpiredSessions
  | assertKitStorageHealthy | listPendingWorktreeCleanupSessions ownerHostname => exact hleased _ _ (htidy _)
  | finalizePendingWorktreeCleanup session =>
    exact hleased _ _ (tidy_finalizePendingWorktreeCleanup session rfl)

end Operations

end LlmGateway.Sessions.FileStore
