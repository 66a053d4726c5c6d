import LlmGateway.OAuth.Flow

/-!
# The life of an access token

A bearer request is let in exactly as long as its token lives (`bearer_lifetime`).

* `Kept` — the store holds every granted token that has not expired, and no other.
-/

namespace LlmGateway.OAuth

open LlmGateway.Lib

/-- Whom a token lets in, for which scope, and until when. -/
structure Life where
  clientId : String
  scope : String
  expiresAt : ℕ

def OAuthAccessTokenEntry.life (e : OAuthAccessTokenEntry) : Life := ⟨e.clientId, " ".intercalate e.scopes, e.expiresAt⟩

/-- The life of a token, as the step that has issued it has answered. -/
def Trace.Granted (t : Trace) (accessToken : String) (life : Life) : Prop :=
  ∃ o ∈ t, ∃ i ttl, o.2.issued = some i ∧ i.accessToken = accessToken ∧ i.client.clientId = life.clientId ∧
    o.2.response = .token accessToken ttl life.scope ∧ life.expiresAt = i.time + ttl * 1000

/-- The client that is let in, and its scope. -/
def Response.lets : Response → Option (String × String)
  | .authorized clientId scopes => some (clientId, " ".intercalate scopes)
  | _ => none

/-- The answer to a bearer request is that of the life of its token. -/
def Lives (start : ℕ) (past : Trace) (o : Event × Effect) : Prop :=
  ∀ supplied, o.1 = .bearer supplied → ∀ clientId scope, o.2.response.lets = some (clientId, scope) ↔
    ∃ expiresAt, past.Granted supplied ⟨clientId, scope, expiresAt⟩ ∧ past.clock start < expiresAt

/-- The store holds every granted token that has not expired, and no other. -/
structure Kept (node : Node) (start : ℕ) (s : State) (past : Trace) : Prop where
  now : s.now = past.clock start
  stored : ∀ a l, (s.oauthAccessTokens.get a).map OAuthAccessTokenEntry.life = some l → past.Granted a l
  kept : ∀ a l, past.Granted a l → s.now < l.expiresAt → (s.oauthAccessTokens.get a).map OAuthAccessTokenEntry.life = some l
  drawn : ∀ a l, past.Granted a l → ∃ k < s.drawn, a = "oauth_" ++ node.random k

namespace Kept

variable {node : Node} {cfg : RemoteOAuthConfig} {start : ℕ} {s s' : State} {past : Trace} {e : Event} {f : Effect}

theorem init : Kept node start (init cfg start) [] where
  now := rfl
  stored := by
    intro a l hget
    cases hget
  kept := by
    rintro a l ⟨o, ho, -⟩
    cases ho
  drawn := by
    rintro a l ⟨o, ho, -⟩
    cases ho

theorem granted_concat {o : Event × Effect} {a : String} {l : Life} (h : (past ++ [o]).Granted a l) :
    past.Granted a l ∨ Trace.Granted [o] a l := by
  obtain ⟨o', ho, h⟩ := h
  exact (List.mem_append.1 ho).imp (fun ho => ⟨o', ho, h⟩) (fun ho => ⟨o', ho, h⟩)

/-- A step that issues no token and forgets expired ones only. -/
theorem keep (h : Kept node start s past) (hnow : s'.now = s.now + e.ms) (hdrawn : s.drawn ≤ s'.drawn)
    (hstored : ∀ a entry, s'.oauthAccessTokens.get a = some entry → s.oauthAccessTokens.get a = some entry)
    (hkept : ∀ a entry, s.oauthAccessTokens.get a = some entry → s.now < entry.expiresAt →
      s'.oauthAccessTokens.get a = some entry) (hissued : f.issued = none) : Kept node start s' (past ++ [(e, f)]) := by
  have hold : ∀ a l, Trace.Granted (past ++ [(e, f)]) a l → past.Granted a l := by
    intro a l hgranted
    refine (granted_concat hgranted).resolve_right ?_
    rintro ⟨o, ho, i, ttl, hi, -⟩
    rw [List.mem_singleton.1 ho, hissued] at hi
    cases hi
  refine ⟨by rw [hnow, h.now, clock_concat], ?_, ?_, ?_⟩
  · intro a l hget
    obtain ⟨entry, hget, hlife⟩ := Option.map_eq_some_iff.1 hget
    obtain ⟨o, ho, h⟩ := h.stored a l (Option.map_eq_some_iff.2 ⟨entry, hstored a entry hget, hlife⟩)
    exact ⟨o, List.mem_append_left _ ho, h⟩
  · intro a l hgranted hlt
    obtain ⟨entry, hget, rfl⟩ := Option.map_eq_some_iff.1 (h.kept a l (hold a l hgranted) (by omega))
    exact Option.map_eq_some_iff.2 ⟨entry, hkept a entry hget (by change _ < entry.expiresAt at hlt; omega), rfl⟩
  · intro a l hgranted
    obtain ⟨k, hk, ha⟩ := h.drawn a l (hold a l hgranted)
    exact ⟨k, by omega, ha⟩

/-- A token is issued: none that has been issued before, as the value has not been drawn. -/
theorem redeem (h : Kept node start s past) (hfresh : node.Fresh) (req : Request) (params : Params) (code : String)
    (client : RuntimeOAuthClient) (entry : OAuthCodeEntry) :
    let r := redeemCode node cfg s req params code client entry
    Kept node start r.1 (past ++ [(.token req, r.2)]) := by
  intro r
  obtain ⟨e₀, hget₀, hgranted₀⟩ : ∃ e₀ : OAuthAccessTokenEntry,
      (∀ a, r.1.oauthAccessTokens.get a = if "oauth_" ++ node.random s.drawn = a then some e₀ else s.oauthAccessTokens.get a) ∧
      ∀ a l, Trace.Granted [(.token req, r.2)] a l ↔ a = "oauth_" ++ node.random s.drawn ∧ l = e₀.life := by
    refine ⟨_, fun a => JsMap.get_set _ _ _ _, ?_⟩
    intro a l
    constructor
    · rintro ⟨o, ho, i, ttl, hi, rfl, hclient, hresponse, hexpires⟩
      obtain rfl := List.mem_singleton.1 ho
      cases hi
      obtain ⟨-, rfl, hscope⟩ := Response.token.inj hresponse
      obtain ⟨clientId, scope, expiresAt⟩ := l
      cases hclient
      cases hscope
      cases hexpires
      exact ⟨rfl, rfl⟩
    · rintro ⟨rfl, rfl⟩
      exact ⟨_, List.mem_singleton_self _, _, _, rfl, rfl, rfl, rfl, rfl⟩
  have hnew : ∀ a l, past.Granted a l → "oauth_" ++ node.random s.drawn ≠ a := by
    rintro a l hgranted rfl
    obtain ⟨k, hk, ha⟩ := h.drawn _ l hgranted
    have := hfresh.injective ((String.append_right_inj _).1 ha)
    omega
  refine ⟨?_, ?_, ?_, ?_⟩
  · rw [clock_concat]
    exact h.now
  · intro a l hget
    rw [hget₀] at hget
    split at hget
    · next ha =>
      obtain ⟨o, ho, h⟩ := (hgranted₀ a l).2 ⟨ha.symm, (Option.some.inj hget).symm⟩
      exact ⟨o, List.mem_append_right _ ho, h⟩
    · obtain ⟨o, ho, h⟩ := h.stored a l hget
      exact ⟨o, List.mem_append_left _ ho, h⟩
  · intro a l hgranted hlt
    rw [hget₀]
    rcases granted_concat hgranted with hgranted | hgranted
    · rw [if_neg (hnew a l hgranted)]
      exact h.kept a l hgranted hlt
    · obtain ⟨rfl, rfl⟩ := (hgranted₀ a l).1 hgranted
      rw [if_pos rfl]
      rfl
  · intro a l hgranted
    rcases granted_concat hgranted with hgranted | hgranted
    · obtain ⟨k, hk, ha⟩ := h.drawn a l hgranted
      exact ⟨k, Nat.lt_succ_of_lt hk, ha⟩
    · exact ⟨s.drawn, Nat.lt_succ_self _, ((hgranted₀ a l).1 hgranted).1⟩

/-- A bearer request forgets its token only when that has expired. -/
theorem bearer (h : Kept node start s past) (supplied : String) :
    Kept node start (authorizeBearerRequest s supplied).1 (past ++ [(.bearer supplied, (authorizeBearerRequest s supplied).2)]) := by
  unfold authorizeBearerRequest
  split
  · exact h.keep rfl le_rfl (fun _ _ h => h) (fun _ _ h _ => h) rfl
  · next entry hentry =>
    split
    · next hexpired =>
      refine h.keep rfl le_rfl ?_ ?_ rfl
      · intro a e hget
        rw [JsMap.get_delete] at hget
        split at hget
        · cases hget
        · exact hget
      · intro a e hget hlt
        rw [JsMap.get_delete, if_neg]
        · exact hget
        · rintro rfl
          obtain rfl := Option.some.inj (hentry.symm.trans hget)
          omega
    · exact h.keep rfl le_rfl (fun _ _ h => h) (fun _ _ h _ => h) rfl

/-- **Every step keeps the tokens that live.** -/
theorem next (h : Kept node start s past) (hfresh : node.Fresh) (e : Event) :
    Kept node start (step node cfg s e).1 (past ++ [(e, (step node cfg s e).2)]) := by
  by_cases hbearer : ∃ supplied, e = .bearer supplied
  · obtain ⟨supplied, rfl⟩ := hbearer
    exact h.bearer supplied
  have hmove : Move node cfg s e _ _ := step_move s e
  generalize step node cfg s e = r at hmove ⊢
  obtain ⟨s', f⟩ := r
  cases hmove with
  | quiet e d r he hd => exact h.keep (by rw [he]; rfl) hd (fun _ _ h => h) (fun _ _ h _ => h) rfl
  | register openDev req id client d r hid hd => exact h.keep rfl hd (fun _ _ h => h) (fun _ _ h _ => h) rfl
  | mint => exact h.keep rfl (Nat.le_succ _) (fun _ _ h => h) (fun _ _ h _ => h) rfl
  | redeem req params client entry => exact h.redeem hfresh req params _ client entry
  | forget supplied | bearer supplied => exact absurd ⟨supplied, rfl⟩ hbearer
  | tick ms => exact h.keep rfl le_rfl (fun _ _ h => h) (fun _ _ h _ => h) rfl

theorem lives (h : Kept node start s past) (e : Event) : Lives start past (record node cfg s e).2 := by
  rintro supplied rfl clientId scope
  change (authorizeBearerRequest s supplied).2.response.lets = _ ↔ _
  have hlets : (authorizeBearerRequest s supplied).2.response.lets =
      ((s.oauthAccessTokens.get supplied).map OAuthAccessTokenEntry.life).bind fun l =>
        if s.now < l.expiresAt then some (l.clientId, l.scope) else none := by
    unfold authorizeBearerRequest
    cases s.oauthAccessTokens.get supplied with
    | none => rfl
    | some entry => by_cases hexpired : entry.expiresAt ≤ s.now <;> simp [hexpired, answer, Response.lets, OAuthAccessTokenEntry.life]
  rw [hlets, ← h.now, Option.bind_eq_some_iff]
  constructor
  · rintro ⟨l, hget, hl⟩
    split at hl
    · next hlt =>
      cases hl
      exact ⟨l.expiresAt, h.stored supplied l hget, hlt⟩
    · cases hl
  · rintro ⟨expiresAt, hgranted, hlt⟩
    exact ⟨_, h.kept supplied _ hgranted hlt, if_pos hlt⟩

end Kept

/-- **The life of an access token.**  In every run, a bearer request is let in exactly as long as its token lives, for the client and
the scope of the answer that has granted the token. -/
theorem bearer_lifetime (node : Node) (hfresh : node.Fresh) (cfg : RemoteOAuthConfig) (start : ℕ) (es : List Event) :
    ∀ past o rest, Run.outputs (record node cfg) (init cfg start) es = past ++ o :: rest → Lives start past o :=
  Run.outputs_of_invariant Kept.init (fun _ _ e hs => hs.next hfresh e) (fun _ _ e hs => hs.lives e) es

/-- The token of the redeemed code, a second before it expires. -/
theorem bearer_lifetime_redeemed :
    countingNode.Fresh ∧ Lives 0 [coded.2, redeemed.2, (.tick 59000, answer .idle)]
      (record countingNode publicConfig (record countingNode publicConfig redeemed.1 (.tick 59000)).1 (.bearer "oauth_xx")).2 :=
  ⟨countingNode_fresh, bearer_lifetime countingNode countingNode_fresh publicConfig 0
    [.authorize codeRequest, .token redeemRequest, .tick 59000, .bearer "oauth_xx"] _ _ [] rfl⟩

end LlmGateway.OAuth
