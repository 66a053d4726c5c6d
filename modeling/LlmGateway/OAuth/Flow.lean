import LlmGateway.Lib.Run
import LlmGateway.OAuth.Server

/-!
# The authorization-code flow

Every code and every access token of a run is accounted for by the steps before it (`authorizationCode_flow`).

* `Mint.Authorized`, `Redeems` — what an authorize step has checked, and what a token request presents for a code;
* `Justified` — a step of a run is accounted for by those before it.
-/

namespace LlmGateway.OAuth

open LlmGateway.Lib

/-- The values of `randomUUID` and `randomBytes` are distinct, and not empty. -/
structure Node.Fresh (node : Node) : Prop where
  injective : Function.Injective node.random
  nonempty : ∀ n, node.random n ≠ ""

/-! ## The statement -/

/-- The steps of a run, with what each of them did. -/
abbrev Trace := List (Event × Effect)

def record (node : Node) (cfg : RemoteOAuthConfig) (s : State) (e : Event) : State × (Event × Effect) :=
  ((step node cfg s e).1, e, (step node cfg s e).2)

def Event.ms : Event → ℕ
  | .tick ms => ms
  | _ => 0

/-- The time after a trace. -/
def Trace.clock (start : ℕ) (t : Trace) : ℕ := start + (t.map fun o => o.1.ms).sum

def Trace.Minted (t : Trace) (m : Mint) : Prop := ∃ o ∈ t, o.2.minted = some m

def Trace.Issued (t : Trace) (i : Issue) : Prop := ∃ o ∈ t, o.2.issued = some i

/-- A client of the configuration, or one that has been registered. -/
def Trace.Registered (cfg : RemoteOAuthConfig) (start : ℕ) (t : Trace) (client : RuntimeOAuthClient) : Prop :=
  (∃ r ∈ cfg.clients, client = toRuntimeClient r cfg.allowPublicClients start) ∨ ∃ o ∈ t, o.2.registered = some client

section Statement

variable (node : Node) (cfg : RemoteOAuthConfig)

/-- The request has submitted the consent form with the cookie's CSRF token and the access code. -/
def Consented (req : Request) (params : Params) : Prop :=
  req.method = "POST" ∧
    (∃ csrf, csrf ≠ "" ∧ readCookie node req "gw_oauth_csrf" = some (some csrf) ∧ params.get "gw_csrf" = some csrf) ∧
    ∃ secret hash, secret ≠ "" ∧ params.get "consent_secret" = some secret ∧ cfg.consentSecretHash = some hash ∧
      verifySecret node secret hash = some true

structure Mint.Authorized (m : Mint) : Prop where
  params : authorizeParams m.request = some m.params
  client : m.client.clientId = m.entry.clientId
  redirectUri : m.params.get "redirect_uri" = some m.entry.redirectUri
  registered : m.entry.redirectUri ∈ m.client.redirectUris
  expiresAt : m.entry.expiresAt = m.time + OAUTH_CODE_TTL_MS
  challenge : m.entry.codeChallenge = m.params.get "code_challenge"
  method : m.entry.codeChallengeMethod = m.params.get "code_challenge_method"
  allowed : m.entry.codeChallenge.getD "" ≠ "" →
    m.entry.codeChallengeMethod = some "S256" ∨ cfg.allowPlainPkce = true ∧ m.entry.codeChallengeMethod = some "plain"
  requirePkce : cfg.requirePkce = true → m.entry.codeChallenge.getD "" ≠ ""
  requireConsent : cfg.requireConsent = true → Consented node cfg m.request m.params

/-- The client is public, or the request presents its secret. -/
def Authenticates (i : Issue) : Prop :=
  oauthClientId node i.request i.params = some (some i.client.clientId) ∧
    (i.client.publicClient = true ∨
      ∃ secret hash, secret ≠ "" ∧ oauthClientSecret node i.request i.params = some (some secret) ∧
        i.client.clientSecretHash = some hash ∧ verifySecret node secret hash = some true)

/-- The request presents the verifier of the challenge, if there is one. -/
def Verifies (entry : OAuthCodeEntry) (params : Params) : Prop :=
  ∀ challenge, entry.codeChallenge = some challenge → challenge ≠ "" →
    ∃ verifier, verifier ≠ "" ∧ params.get "code_verifier" = some verifier ∧
      (entry.codeChallengeMethod = some "S256" ∧ node.sha256 verifier = challenge ∨
        cfg.allowPlainPkce = true ∧ entry.codeChallengeMethod = some "plain" ∧ verifier = challenge)

structure Redeems (m : Mint) (i : Issue) : Prop where
  body : (readOAuthBody i.request).map OAuthRequestBody.params = some i.params
  grant : i.params.get "grant_type" = some "authorization_code"
  code : i.params.get "code" = some m.code ∧ i.code = m.code
  time : i.time ≤ m.entry.expiresAt
  client : i.client.clientId = m.entry.clientId
  authenticates : Authenticates node i
  redirectUri : i.params.get "redirect_uri" = some m.entry.redirectUri
  verifies : Verifies node cfg m.entry i.params

/-- The last step is accounted for by those before it. -/
structure Justified (start : ℕ) (past : Trace) (o : Event × Effect) : Prop where
  registered : ∀ client, o.2.registered = some client → (∃ openDev req, o.1 = .register openDev req) ∧
    (client.publicClient = true → cfg.allowPublicClients = true)
  minted : ∀ m, o.2.minted = some m → o.1 = .authorize m.request ∧ m.time = past.clock start ∧
    past.Registered cfg start m.client ∧ m.Authorized node cfg
  issued : ∀ i, o.2.issued = some i → o.1 = .token i.request ∧ i.time = past.clock start ∧
    past.Registered cfg start i.client ∧ (∃ m, past.Minted m ∧ m.Authorized node cfg ∧ Redeems node cfg m i) ∧
    ∀ j, past.Issued j → j.code ≠ i.code
  token : ∀ accessToken ttl scope, o.2.response = .token accessToken ttl scope →
    ∃ i, o.2.issued = some i ∧ i.accessToken = accessToken
  bearer : ∀ clientId scopes, o.2.response = .authorized clientId scopes →
    ∃ i, past.Issued i ∧ o.1 = .bearer i.accessToken ∧ i.client.clientId = clientId

end Statement

/-! ## One step -/

/-- A response that grants nothing. -/
def Response.Quiet : Response → Prop
  | .token .. | .authorized .. => False
  | _ => True

section Move

variable {node : Node} {cfg : RemoteOAuthConfig}

/-- The conditions of `handleAuthorize` on a request for a client. -/
structure MayMint (node : Node) (cfg : RemoteOAuthConfig) (req : Request) (params : Params) (client : RuntimeOAuthClient) : Prop where
  body : authorizeParams req = some params
  redirectUri : (params.get "redirect_uri").getD "" ≠ ""
  registered : (params.get "redirect_uri").getD "" ∈ client.redirectUris
  challenge : refusesChallenge cfg params = false
  consent : cfg.requireConsent = true → req.method = "POST" ∧ verifyConsent node cfg req params = some true

/-- The conditions of `handleToken` on a request for a code. -/
structure MayRedeem (node : Node) (s : State) (req : Request) (params : Params) (client : RuntimeOAuthClient)
    (entry : OAuthCodeEntry) : Prop where
  body : (readOAuthBody req).map OAuthRequestBody.params = some params
  stored : s.codes.get ((params.get "code").getD "") = some entry
  known : ∃ id, oauthClientId node req params = some (some id) ∧ s.clients.get id = some client
  secret : ∃ clientSecret, oauthClientSecret node req params = some clientSecret ∧
    secretOk node (some client) clientSecret = some true
  redeemable : redeemable node s params client entry true = true

/-- What a step does. -/
inductive Move (node : Node) (cfg : RemoteOAuthConfig) (s : State) : Event → State → Effect → Prop
  | quiet (e : Event) (d : ℕ) (r : Response) (he : e.ms = 0) (hd : s.drawn ≤ d) (hr : r.Quiet) :
      Move node cfg s e { s with drawn := d } (answer r)
  | register (openDev : Bool) (req : Request) (id : String) (client : RuntimeOAuthClient) (d : ℕ) (r : Response)
      (hid : client.clientId = id) (hd : s.drawn ≤ d) (hp : client.publicClient = true → cfg.allowPublicClients = true)
      (hr : r.Quiet) :
      Move node cfg s (.register openDev req) { s with clients := s.clients.set id client, drawn := d }
        ⟨r, some client, none, none⟩
  | mint (req : Request) (params : Params) (client : RuntimeOAuthClient)
      (hclient : s.clients.get ((params.get "client_id").getD "") = some client) (h : MayMint node cfg req params client) :
      Move node cfg s (.authorize req) (mintCode node s req params client ((params.get "redirect_uri").getD "")).1
        (mintCode node s req params client ((params.get "redirect_uri").getD "")).2
  | redeem (req : Request) (params : Params) (client : RuntimeOAuthClient) (entry : OAuthCodeEntry)
      (h : MayRedeem node s req params client entry) :
      Move node cfg s (.token req) (redeemCode node cfg s req params ((params.get "code").getD "") client entry).1
        (redeemCode node cfg s req params ((params.get "code").getD "") client entry).2
  | forget (supplied : String) :
      Move node cfg s (.bearer supplied) { s with oauthAccessTokens := s.oauthAccessTokens.delete supplied }
        (answer .unauthorized)
  | bearer (supplied : String) (entry : OAuthAccessTokenEntry) (h : s.oauthAccessTokens.get supplied = some entry) :
      Move node cfg s (.bearer supplied) s (answer (.authorized entry.clientId entry.scopes))
  | tick (ms : ℕ) : Move node cfg s (.tick ms) { s with now := s.now + ms } (answer .idle)

/-- A step that changes nothing. -/
theorem Move.still {s : State} (e : Event) {r : Response} (he : e.ms = 0) (hr : r.Quiet) : Move node cfg s e s (answer r) :=
  .quiet e s.drawn r he (Nat.le_refl _) hr

theorem handleRegister_move (s : State) (openDev : Bool) (req : Request) :
    Move node cfg s (.register openDev req) (handleRegister node cfg s req openDev).1 (handleRegister node cfg s req openDev).2 := by
  have still : ∀ r : Response, r.Quiet → Move node cfg s (.register openDev req) s (answer r) := fun r hr => .still _ rfl hr
  unfold handleRegister
  split
  · exact still _ trivial
  split
  · exact still _ trivial
  split
  · exact still _ trivial
  split
  · exact still _ trivial
  · exact still _ trivial
  dsimp only
  split
  · exact still _ trivial
  split
  · rename_i hpublic
    refine .register openDev req _ _ _ _ ?_ ?_ (fun _ => hpublic) ?_
    · rfl
    · exact Nat.le_succ _
    · trivial
  split
  · exact .quiet _ _ _ rfl (Nat.le_add_right _ _) trivial
  · refine .register openDev req _ _ _ _ ?_ ?_ ?_ ?_
    · rfl
    · exact Nat.le_add_right _ _
    · intro h
      cases h
    · trivial

theorem handleAuthorize_move (s : State) (req : Request) :
    Move node cfg s (.authorize req) (handleAuthorize node cfg s req).1 (handleAuthorize node cfg s req).2 := by
  have still : ∀ r : Response, r.Quiet → Move node cfg s (.authorize req) s (answer r) := fun r hr => .still _ rfl hr
  have redirect : ∀ uri error state, (errorRedirect node uri error state).Quiet := by
    intro uri error state
    unfold errorRedirect
    split <;> trivial
  have page : ∀ error, Move node cfg s (.authorize req) (renderConsentPage node s error).1 (renderConsentPage node s error).2 :=
    fun error => .quiet _ _ _ rfl (Nat.le_succ _) trivial
  unfold handleAuthorize
  split
  · exact still _ trivial
  split
  · exact still _ trivial
  rename_i params hparams
  split
  · exact still _ trivial
  simp only
  split
  · exact still _ trivial
  rename_i huri
  split
  · exact still _ trivial
  rename_i client hclient
  split
  · exact still _ trivial
  rename_i hregistered
  rw [Decidable.not_not] at hregistered
  split
  · exact still _ (redirect _ _ _)
  rename_i hchallenge
  rw [Bool.not_eq_true] at hchallenge
  split
  · exact still _ (redirect _ _ _)
  split
  · rename_i hconsent
    split
    · rename_i hpost
      split
      · exact still _ trivial
      · exact page _
      · rename_i hverified
        exact .mint req params client hclient ⟨hparams, huri, hregistered, hchallenge, fun _ => ⟨hpost.1, hverified⟩⟩
    · exact page _
  · rename_i hconsent
    exact .mint req params client hclient ⟨hparams, huri, hregistered, hchallenge, fun h => absurd h hconsent⟩

theorem handleToken_move (s : State) (req : Request) :
    Move node cfg s (.token req) (handleToken node cfg s req).1 (handleToken node cfg s req).2 := by
  have still : ∀ r : Response, r.Quiet → Move node cfg s (.token req) s (answer r) := fun r hr => .still _ rfl hr
  unfold handleToken
  split
  · exact still _ trivial
  split
  · exact still _ trivial
  split
  · exact still _ trivial
  rename_i body hbody
  dsimp only
  split
  case h_2 => exact still _ trivial
  rename_i clientId clientSecret hid hsecret
  split
  · exact still _ trivial
  rename_i ok hok
  split
  case h_2 => exact still _ trivial
  rename_i entry client hentry hclient
  split
  case isFalse => exact still _ trivial
  rename_i hredeem
  rw [hclient] at hok
  obtain rfl : ok = true := by
    cases ok
    · simp [redeemable] at hredeem
    · rfl
  refine .redeem req body.params client entry ⟨?_, hentry, ?_, ⟨clientSecret, hsecret, hok⟩, hredeem⟩
  · rw [hbody]
    rfl
  · split at hclient
    · cases hclient
    · obtain ⟨id, rfl, hget⟩ := Option.bind_eq_some_iff.1 hclient
      exact ⟨id, hid, hget⟩

theorem authorizeBearerRequest_move (s : State) (supplied : String) :
    Move node cfg s (.bearer supplied) (authorizeBearerRequest s supplied).1 (authorizeBearerRequest s supplied).2 := by
  unfold authorizeBearerRequest
  split
  · exact .still _ rfl trivial
  split
  · exact .forget supplied
  · exact .bearer supplied _ ‹_›

theorem step_move (s : State) (e : Event) : Move node cfg s e (step node cfg s e).1 (step node cfg s e).2 := by
  cases e with
  | register openDev req => exact handleRegister_move s openDev req
  | authorize req => exact handleAuthorize_move s req
  | token req => exact handleToken_move s req
  | bearer supplied => exact authorizeBearerRequest_move s supplied
  | tick ms => exact .tick ms

/-! ## What the checks have established -/

theorem eq_some_getD {o : Option String} (h : o.getD "" ≠ "") : o = some (o.getD "") := by
  cases o with
  | none => exact absurd rfl h
  | some a => rfl

theorem consented_of_verifyConsent {req : Request} {params : Params} (hpost : req.method = "POST")
    (h : verifyConsent node cfg req params = some true) : Consented node cfg req params := by
  unfold verifyConsent at h
  split at h
  · cases h
  · cases h
  rename_i csrf hcsrf
  split at h
  · cases h
  rename_i hpair
  rw [not_or, not_or, Decidable.not_not] at hpair
  obtain ⟨hne, -, hform⟩ := hpair
  split at h
  · rename_i hash secret hhash hsecret
    split at h
    · cases h
    · rename_i hempty
      rw [not_or] at hempty
      exact ⟨hpost, ⟨csrf, hne, hcsrf, hform⟩, secret, hash, hempty.2, hsecret, hhash, h⟩
  · cases h

theorem authenticates_of_secretOk {i : Issue} {clientSecret : Option String}
    (hid : oauthClientId node i.request i.params = some (some i.client.clientId))
    (hsecret : oauthClientSecret node i.request i.params = some clientSecret)
    (h : secretOk node (some i.client) clientSecret = some true) : Authenticates node i := by
  refine ⟨hid, ?_⟩
  unfold secretOk at h
  dsimp only at h
  split at h
  · exact .inl ‹_›
  split at h
  · rename_i hash secret hhash
    split at h
    · cases h
    · rename_i hempty
      rw [not_or] at hempty
      exact .inr ⟨secret, hash, hempty.2, hsecret, hhash, h⟩
  · cases h

theorem verifies_of_validPkceVerifier {m : Mint} {params : Params} (hm : m.Authorized node cfg)
    (h : validPkceVerifier node (params.get "code_verifier") m.entry.codeChallenge m.entry.codeChallengeMethod = true) :
    Verifies node cfg m.entry params := by
  intro challenge hchallenge hne
  have hallowed := hm.allowed (by rw [hchallenge]; exact hne)
  unfold validPkceVerifier at h
  rw [hchallenge] at h
  dsimp only at h
  rw [if_neg hne] at h
  split at h
  · cases h
  rename_i verifier hverifier
  split at h
  · cases h
  rename_i hempty
  refine ⟨verifier, hempty, hverifier, ?_⟩
  rcases hallowed with hmethod | ⟨hplain, hmethod⟩
  · rw [if_pos hmethod] at h
    exact .inl ⟨hmethod, of_decide_eq_true h⟩
  · rw [hmethod, if_neg (by decide), if_pos (by decide)] at h
    exact .inr ⟨hplain, hmethod, of_decide_eq_true h⟩

theorem MayMint.authorized {s : State} {req : Request} {params : Params} {client : RuntimeOAuthClient}
    (h : MayMint node cfg req params client) (hclient : client.clientId = (params.get "client_id").getD "") {m : Mint}
    (hm : (mintCode node s req params client ((params.get "redirect_uri").getD "")).2.minted = some m) :
    m.Authorized node cfg := by
  cases hm
  have hchallenge := h.challenge
  simp only [refusesChallenge, Bool.or_eq_false_iff, Bool.and_eq_false_iff, decide_eq_false_iff_not, Bool.not_eq_false',
    Bool.and_eq_true, decide_eq_true_eq, not_not] at hchallenge
  obtain ⟨⟨-, hpkce⟩, hmethod⟩ := hchallenge
  exact
    { params := h.body
      client := hclient
      redirectUri := eq_some_getD h.redirectUri
      registered := h.registered
      expiresAt := rfl
      challenge := rfl
      method := rfl
      allowed := by
        intro hne
        rcases hmethod with (he | hs) | hp
        · exact absurd he hne
        · exact .inl hs
        · exact .inr hp
      requirePkce := by
        intro hrequire
        rcases hpkce with hoff | hne
        · rw [hrequire] at hoff
          cases hoff
        · exact hne
      requireConsent := fun hconsent => consented_of_verifyConsent (h.consent hconsent).1 (h.consent hconsent).2 }

theorem MayRedeem.redeems {s : State} {req : Request} {params : Params} {client : RuntimeOAuthClient} {entry : OAuthCodeEntry}
    (h : MayRedeem node s req params client entry) (hkeyed : ∀ id c, s.clients.get id = some c → c.clientId = id) {m : Mint}
    (hm : m.Authorized node cfg) (hcode : m.code = (params.get "code").getD "") (hne : m.code ≠ "") (hentry : m.entry = entry)
    {i : Issue}
    (hi : (redeemCode node cfg s req params ((params.get "code").getD "") client entry).2.issued = some i) :
    Redeems node cfg m i := by
  cases hi
  subst hentry
  obtain ⟨id, hid, hget⟩ := h.known
  obtain rfl := hkeyed id client hget
  obtain ⟨clientSecret, hsecret, hok⟩ := h.secret
  have hredeem := h.redeemable
  simp only [OAuth.redeemable, Bool.and_eq_true, decide_eq_true_eq, Bool.not_eq_true', decide_eq_false_iff_not, Nat.not_lt,
    and_true] at hredeem
  obtain ⟨⟨⟨⟨hgrant, htime⟩, hsame⟩, huri⟩, hverifier⟩ := hredeem
  exact
    { body := h.body
      grant := hgrant
      code := by
        rw [hcode] at hne ⊢
        exact ⟨eq_some_getD hne, rfl⟩
      time := htime
      client := hsame
      authenticates := authenticates_of_secretOk hid hsecret hok
      redirectUri := huri
      verifies := verifies_of_validPkceVerifier hm hverifier }

end Move

/-! ## Runs -/

section Trace

variable {t : Trace} {o : Event × Effect}

theorem minted_concat {m : Mint} : (t ++ [o]).Minted m ↔ t.Minted m ∨ o.2.minted = some m := by
  simp [Trace.Minted, or_and_right, exists_or]

theorem issued_concat {i : Issue} : (t ++ [o]).Issued i ↔ t.Issued i ∨ o.2.issued = some i := by
  simp [Trace.Issued, or_and_right, exists_or]

theorem Trace.Registered.concat {cfg : RemoteOAuthConfig} {start : ℕ} {client : RuntimeOAuthClient}
    (h : t.Registered cfg start client) (o : Event × Effect) : (t ++ [o]).Registered cfg start client := by
  rcases h with h | ⟨p, hp, h⟩
  · exact .inl h
  · exact .inr ⟨p, List.mem_append_left _ hp, h⟩

theorem clock_concat {start : ℕ} : (t ++ [o]).clock start = t.clock start + o.1.ms := by
  simp [Trace.clock, Nat.add_assoc]

end Trace

variable {node : Node} {cfg : RemoteOAuthConfig} {start : ℕ}

/-- The stores hold what the steps so far have put there. -/
structure Inv (node : Node) (cfg : RemoteOAuthConfig) (start : ℕ) (s : State) (past : Trace) : Prop where
  now : s.now = past.clock start
  clients : ∀ id client, s.clients.get id = some client → client.clientId = id ∧ past.Registered cfg start client
  codes : ∀ code entry, s.codes.get code = some entry →
    ∃ m, past.Minted m ∧ m.Authorized node cfg ∧ m.code = code ∧ m.entry = entry
  drawn : ∀ code entry, s.codes.get code = some entry → ∃ k < s.drawn, node.random k = code
  unredeemed : ∀ code entry, s.codes.get code = some entry → ∀ i, past.Issued i → i.code ≠ code
  redeemed : ∀ i, past.Issued i → ∃ k < s.drawn, node.random k = i.code
  tokens : ∀ accessToken entry, s.oauthAccessTokens.get accessToken = some entry →
    ∃ i, past.Issued i ∧ i.accessToken = accessToken ∧ i.client.clientId = entry.clientId

namespace Inv

theorem init : Inv node cfg start (init cfg start) [] := by
  have hclients : ∀ (rs : List RemoteOAuthClientConfig) (clients : JsMap String RuntimeOAuthClient),
      (∀ r ∈ rs, r ∈ cfg.clients) →
      (∀ id client, clients.get id = some client → client.clientId = id ∧ Trace.Registered cfg start [] client) →
      ∀ id client, (rs.foldl (fun clients r => clients.set r.clientId (toRuntimeClient r cfg.allowPublicClients start))
        clients).get id = some client → client.clientId = id ∧ Trace.Registered cfg start [] client := by
    intro rs
    induction rs with
    | nil => exact fun _ _ h => h
    | cons r rs ih =>
      intro clients hrs h
      refine ih _ (fun r' hr' => hrs r' (List.mem_cons_of_mem _ hr')) ?_
      intro id client hget
      rw [JsMap.get_set] at hget
      split at hget
      · cases hget
        exact ⟨‹_›, .inl ⟨r, hrs r List.mem_cons_self, rfl⟩⟩
      · exact h id client hget
  refine ⟨rfl, hclients _ _ (fun _ h => h) (by simp), ?_, ?_, ?_, ?_, ?_⟩
  · intro code entry h
    cases h
  · intro code entry h
    cases h
  · intro code entry h
    cases h
  · rintro i ⟨o, ho, -⟩
    cases ho
  · intro accessToken entry h
    cases h

variable {s s' : State} {past : Trace} {e : Event} {f : Effect}

/-- An answer that grants nothing needs no justification. -/
theorem justified_answer {past : Trace} (e : Event) {r : Response} (hr : r.Quiet) :
    Justified node cfg start past (e, answer r) := by
  have hnone : ∀ {α : Type} {p : α → Prop} (x : α), none = some x → p x := by
    intro α p x h
    cases h
  refine ⟨hnone, hnone, hnone, ?_, ?_⟩
  · rintro a n sc rfl
    cases hr
  · rintro c sc rfl
    cases hr

theorem justified (hs : Inv node cfg start s past) (hfresh : node.Fresh) (h : Move node cfg s e s' f) :
    Justified node cfg start past (e, f) := by
  have hnone : ∀ {α : Type} {p : α → Prop} (x : α), none = some x → p x := by
    intro α p x h
    cases h
  cases h with
  | quiet e d r he hd hr => exact justified_answer e hr
  | register openDev req id client d r hid hd hp hr =>
    have hquiet : Justified node cfg start past (.register openDev req, answer r) := justified_answer _ hr
    refine ⟨?_, hnone, hnone, hquiet.token, hquiet.bearer⟩
    rintro _ ⟨⟩
    exact ⟨⟨openDev, req, rfl⟩, hp⟩
  | mint req params client hclient h =>
    obtain ⟨hid, hregistered⟩ := hs.clients _ _ hclient
    refine ⟨hnone, ?_, hnone, ?_, ?_⟩
    · intro m hm
      refine ⟨?_, ?_, ?_, h.authorized hid hm⟩
      all_goals cases hm
      · rfl
      · exact hs.now
      · exact hregistered
    all_goals
      intros
      dsimp only [mintCode] at *
      split at *
      all_goals contradiction
  | redeem req params client entry h =>
    obtain ⟨m, hm, hauthorized, hcode, hentry⟩ := hs.codes _ _ h.stored
    obtain ⟨k, -, hk⟩ := hs.drawn _ _ h.stored
    obtain ⟨id, -, hget⟩ := h.known
    have hne : m.code ≠ "" := by
      rw [hcode, ← hk]
      exact hfresh.nonempty k
    refine ⟨hnone, hnone, ?_, ?_, ?_⟩
    · intro i hi
      refine ⟨?_, ?_, ?_, ⟨m, hm, hauthorized, h.redeems (fun id c hc => (hs.clients id c hc).1) hauthorized hcode hne hentry hi⟩, ?_⟩
      all_goals cases hi
      · rfl
      · exact hs.now
      · exact (hs.clients _ _ hget).2
      · exact hs.unredeemed _ _ h.stored
    · intro a n sc hr
      cases hr
      exact ⟨_, rfl, rfl⟩
    · intro c sc hr
      cases hr
  | forget supplied => exact justified_answer _ trivial
  | bearer supplied entry h =>
    refine ⟨hnone, hnone, hnone, ?_, ?_⟩
    · intro a n sc hr
      cases hr
    rintro c sc ⟨⟩
    obtain ⟨i, hi, rfl, hclient⟩ := hs.tokens _ _ h
    exact ⟨i, hi, rfl, hclient⟩
  | tick ms => exact justified_answer _ trivial

/-- A step that writes no code and issues no token. -/
theorem keep (hs : Inv node cfg start s past) (hnow : s'.now = s.now + e.ms)
    (hclients : ∀ id client, s'.clients.get id = some client →
      s.clients.get id = some client ∨ client.clientId = id ∧ f.registered = some client)
    (hcodes : s'.codes = s.codes) (hdrawn : s.drawn ≤ s'.drawn)
    (htokens : ∀ a entry, s'.oauthAccessTokens.get a = some entry → s.oauthAccessTokens.get a = some entry)
    (hissued : f.issued = none) : Inv node cfg start s' (past ++ [(e, f)]) := by
  have hold : ∀ i, (past ++ [(e, f)]).Issued i → past.Issued i := by
    intro i hi
    rcases issued_concat.1 hi with hi | hi
    · exact hi
    · rw [hissued] at hi
      cases hi
  refine ⟨?_, ?_, ?_, ?_, ?_, ?_, ?_⟩
  · rw [hnow, hs.now, clock_concat]
  · intro id client h
    rcases hclients id client h with h | ⟨hid, h⟩
    · exact ⟨(hs.clients id client h).1, (hs.clients id client h).2.concat _⟩
    · exact ⟨hid, .inr ⟨_, List.mem_append_right _ List.mem_cons_self, h⟩⟩
  · intro code entry h
    obtain ⟨m, hm, h⟩ := hs.codes code entry (hcodes ▸ h)
    exact ⟨m, minted_concat.2 (.inl hm), h⟩
  · intro code entry h
    obtain ⟨k, hk, h⟩ := hs.drawn code entry (hcodes ▸ h)
    exact ⟨k, Nat.lt_of_lt_of_le hk hdrawn, h⟩
  · exact fun code entry h i hi => hs.unredeemed code entry (hcodes ▸ h) i (hold i hi)
  · intro i hi
    obtain ⟨k, hk, h⟩ := hs.redeemed i (hold i hi)
    exact ⟨k, Nat.lt_of_lt_of_le hk hdrawn, h⟩
  · intro a entry h
    obtain ⟨i, hi, h⟩ := hs.tokens a entry (htokens a entry h)
    exact ⟨i, issued_concat.2 (.inl hi), h⟩

/-- A code is minted: none that has been redeemed, as the value has not been drawn before. -/
theorem mint (hs : Inv node cfg start s past) (hfresh : node.Fresh) {req : Request} {params : Params} {client : RuntimeOAuthClient}
    (hclient : s.clients.get ((params.get "client_id").getD "") = some client) (h : MayMint node cfg req params client) :
    let r := mintCode node s req params client ((params.get "redirect_uri").getD "")
    Inv node cfg start r.1 (past ++ [(.authorize req, r.2)]) := by
  intro r
  have hstored : ∀ code entry, r.1.codes.get code = some entry →
      s.codes.get code = some entry ∨ ∃ m, r.2.minted = some m ∧ m.code = code ∧ m.entry = entry ∧ code = node.random s.drawn := by
    intro code entry hget
    change JsMap.get (JsMap.set _ _ _) code = some entry at hget
    rw [JsMap.get_set] at hget
    split at hget
    · cases hget
      exact .inr ⟨_, rfl, ‹_›, rfl, Eq.symm ‹_›⟩
    · change (s.codes.deleteWhere _).get code = some entry at hget
      rw [JsMap.get_deleteWhere] at hget
      exact .inl (Option.filter_eq_some_iff.1 hget).1
  have hold : ∀ i, (past ++ [(Event.authorize req, r.2)]).Issued i → past.Issued i := by
    intro i hi
    rcases issued_concat.1 hi with hi | hi
    · exact hi
    · cases hi
  have hlt : s.drawn < r.1.drawn := Nat.lt_succ_self _
  refine ⟨?_, ?_, ?_, ?_, ?_, ?_, ?_⟩
  · rw [clock_concat]
    exact hs.now
  · intro id c hget
    exact ⟨(hs.clients id c hget).1, (hs.clients id c hget).2.concat _⟩
  · intro code entry hget
    rcases hstored code entry hget with hget | ⟨m, hm, hcode, hentry, -⟩
    · obtain ⟨m, hm, h⟩ := hs.codes code entry hget
      exact ⟨m, minted_concat.2 (.inl hm), h⟩
    · exact ⟨m, minted_concat.2 (.inr hm), h.authorized (hs.clients _ _ hclient).1 hm, hcode, hentry⟩
  · intro code entry hget
    rcases hstored code entry hget with hget | ⟨m, -, -, -, hcode⟩
    · obtain ⟨k, hk, h⟩ := hs.drawn code entry hget
      exact ⟨k, Nat.lt_trans hk hlt, h⟩
    · exact ⟨s.drawn, hlt, hcode.symm⟩
  · intro code entry hget i hi
    rcases hstored code entry hget with hget | ⟨m, -, -, -, hcode⟩
    · exact hs.unredeemed code entry hget i (hold i hi)
    · obtain ⟨k, hk, hi⟩ := hs.redeemed i (hold i hi)
      rw [← hi, hcode]
      intro heq
      have := hfresh.injective heq
      omega
  · intro i hi
    obtain ⟨k, hk, h⟩ := hs.redeemed i (hold i hi)
    exact ⟨k, Nat.lt_trans hk hlt, h⟩
  · intro a entry hget
    obtain ⟨i, hi, h⟩ := hs.tokens a entry hget
    exact ⟨i, issued_concat.2 (.inl hi), h⟩

/-- A code is redeemed, and is no longer stored. -/
theorem redeem (hs : Inv node cfg start s past) {req : Request} {params : Params} {client : RuntimeOAuthClient}
    {entry : OAuthCodeEntry} (h : MayRedeem node s req params client entry) :
    let r := redeemCode node cfg s req params ((params.get "code").getD "") client entry
    Inv node cfg start r.1 (past ++ [(.token req, r.2)]) := by
  intro r
  have hnew : ∃ i, r.2.issued = some i ∧ i.code = (params.get "code").getD "" ∧ i.accessToken = "oauth_" ++ node.random s.drawn ∧
      i.client = client := ⟨_, rfl, rfl, rfl, rfl⟩
  obtain ⟨i₀, hi₀, hcode₀, htoken₀, hclient₀⟩ := hnew
  have hissued : ∀ i, (past ++ [(Event.token req, r.2)]).Issued i → past.Issued i ∨ i = i₀ := by
    intro i hi
    rcases issued_concat.1 hi with hi | hi
    · exact .inl hi
    · exact .inr (Option.some.inj (hi.symm.trans hi₀))
  have hstored : ∀ code e, r.1.codes.get code = some e → s.codes.get code = some e ∧ (params.get "code").getD "" ≠ code := by
    intro code e hget
    change (s.codes.delete _).get code = some e at hget
    rw [JsMap.get_delete] at hget
    split at hget
    · cases hget
    · exact ⟨hget, ‹_›⟩
  have hlt : s.drawn < r.1.drawn := Nat.lt_succ_self _
  refine ⟨?_, ?_, ?_, ?_, ?_, ?_, ?_⟩
  · rw [clock_concat]
    exact hs.now
  · intro id c hget
    exact ⟨(hs.clients id c hget).1, (hs.clients id c hget).2.concat _⟩
  · intro code e hget
    obtain ⟨m, hm, h⟩ := hs.codes code e (hstored code e hget).1
    exact ⟨m, minted_concat.2 (.inl hm), h⟩
  · intro code e hget
    obtain ⟨k, hk, h⟩ := hs.drawn code e (hstored code e hget).1
    exact ⟨k, Nat.lt_trans hk hlt, h⟩
  · intro code e hget i hi
    obtain ⟨hget, hne⟩ := hstored code e hget
    rcases hissued i hi with hi | rfl
    · exact hs.unredeemed code e hget i hi
    · rw [hcode₀]
      exact hne
  · intro i hi
    rcases hissued i hi with hi | rfl
    · obtain ⟨k, hk, h⟩ := hs.redeemed i hi
      exact ⟨k, Nat.lt_trans hk hlt, h⟩
    · obtain ⟨k, hk, hcode⟩ := hs.drawn _ _ h.stored
      exact ⟨k, Nat.lt_trans hk hlt, hcode.trans hcode₀.symm⟩
  · intro a e hget
    change (s.oauthAccessTokens.set _ _).get a = some e at hget
    rw [JsMap.get_set] at hget
    split at hget
    · cases hget
      refine ⟨i₀, issued_concat.2 (.inr hi₀), htoken₀.trans ‹_›, ?_⟩
      rw [hclient₀]
    · obtain ⟨i, hi, h⟩ := hs.tokens a e hget
      exact ⟨i, issued_concat.2 (.inl hi), h⟩

theorem move (hs : Inv node cfg start s past) (hfresh : node.Fresh) (h : Move node cfg s e s' f) :
    Inv node cfg start s' (past ++ [(e, f)]) := by
  cases h with
  | quiet e d r he hd hr =>
    exact hs.keep (by rw [he]; rfl) (fun _ _ h => .inl h) rfl hd (fun _ _ h => h) rfl
  | register openDev req id client d r hid hd hp hr =>
    refine hs.keep rfl ?_ rfl hd (fun _ _ h => h) rfl
    intro j c hget
    rw [JsMap.get_set] at hget
    split at hget
    · cases hget
      exact .inr ⟨hid.trans ‹_›, rfl⟩
    · exact .inl hget
  | mint req params client hclient h => exact hs.mint hfresh hclient h
  | redeem req params client entry h => exact hs.redeem h
  | forget supplied =>
    refine hs.keep rfl (fun _ _ h => .inl h) rfl (Nat.le_refl _) ?_ rfl
    intro a entry hget
    rw [JsMap.get_delete] at hget
    split at hget
    · cases hget
    · exact hget
  | bearer supplied entry h | tick ms => exact hs.keep rfl (fun _ _ h => .inl h) rfl (Nat.le_refl _) (fun _ _ h => h) rfl

end Inv

/-- **The authorization-code flow.**  In every run, every code and every access token is accounted for by the steps before it. -/
theorem authorizationCode_flow (node : Node) (hfresh : node.Fresh) (cfg : RemoteOAuthConfig) (start : ℕ) (es : List Event) :
    ∀ past o rest, Run.outputs (record node cfg) (init cfg start) es = past ++ o :: rest →
      Justified node cfg start past o :=
  Run.outputs_of_invariant Inv.init (fun s _ e hs => hs.move hfresh (step_move s e))
    (fun s _ e hs => hs.justified hfresh (step_move s e)) es

/-- Counted random values, and a digest that marks its text. -/
def countingNode : Node where
  random n := String.ofList (List.replicate (n + 1) 'x')
  number _ := none
  fromBase64url _ := []
  toBase64url _ := ""
  base64 s := s
  decodeURIComponent := some
  scryptSync _ _ _ _ _ _ := none
  sha256 s := "#" ++ s
  url _ := some ("https:", "a.example")

def publicConfig : RemoteOAuthConfig where
  requirePkce := true
  allowPlainPkce := false
  registrationPolicy := .static_clients
  allowPublicClients := true
  tokenTtlSeconds := 60
  requireConsent := false
  consentSecretHash := none
  clients := [⟨"app", none, ["https://a.example/cb"], []⟩]
  sharedSecretHash := none

def codeRequest : Request :=
  { method := "GET"
    query := [("response_type", "code"), ("client_id", "app"), ("redirect_uri", "https://a.example/cb"),
      ("code_challenge", "#v"), ("code_challenge_method", "S256")]
    body := .unreadable
    cookie := none
    authorization := none }

def redeemRequest : Request :=
  { method := "POST"
    query := []
    body := .form [("grant_type", "authorization_code"), ("code", "x"), ("client_id", "app"),
      ("redirect_uri", "https://a.example/cb"), ("code_verifier", "v")]
    cookie := none
    authorization := none }

theorem countingNode_fresh : countingNode.Fresh where
  injective := by
    intro a b h
    have := congrArg String.length h
    simp [countingNode] at this
    exact this
  nonempty := by
    intro n h
    have := congrArg String.length h
    simp [countingNode] at this

/-- A code is minted, and then redeemed. -/
def coded : State × (Event × Effect) := record countingNode publicConfig (init publicConfig 0) (.authorize codeRequest)

def redeemed : State × (Event × Effect) := record countingNode publicConfig coded.1 (.token redeemRequest)

theorem authorizationCode_redeemed :
    countingNode.Fresh ∧ redeemed.2.2.response = .token "oauth_xx" 60 "mcp" ∧
      Justified countingNode publicConfig 0 [coded.2] redeemed.2 :=
  ⟨countingNode_fresh, by decide +kernel,
    authorizationCode_flow countingNode countingNode_fresh publicConfig 0 [.authorize codeRequest, .token redeemRequest] [coded.2] redeemed.2 [] rfl⟩

end LlmGateway.OAuth
