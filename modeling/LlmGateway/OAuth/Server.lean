import Mathlib.Data.Rat.Floor
import LlmGateway.Lib.JsMap
import LlmGateway.Lib.JsText

/-!
# The OAuth server

`oauth.ts` and the token store of `auth.ts`: clients register, an authorization code is minted for a client and redeemed for an
access token.

* `Node` — what the source takes from the platform: random values, `scrypt` and SHA-256, the readers of URLs and encodings;
* `Request`, `Params` — a request and its body, read as the platform reads them; a text has no lone surrogates there;
* `handleRegister`, `handleAuthorize`, `handleToken`, `authorizeBearerRequest` — the handlers, from a state to a state and its
  `Effect`; a handler runs in one step once the body has been read;
* `Event`, `step` — the requests in the order in which their bodies have been read, and the clock.
-/

namespace LlmGateway.OAuth

open LlmGateway.Lib

structure Node where
  /-- what the `n`-th call of `randomUUID` or `randomBytes` returns, as a text -/
  random : ℕ → String
  /-- `Number(text)`, `none` for `NaN` -/
  number : String → Option ℚ
  /-- `Buffer.from(text, "base64url")`, and back -/
  fromBase64url : String → List UInt8
  toBase64url : List UInt8 → String
  /-- `Buffer.from(text, "base64").toString("utf8")` -/
  base64 : String → String
  /-- `none` where it throws, here and below -/
  decodeURIComponent : String → Option String
  scryptSync : String → List UInt8 → ℕ → ℚ → ℚ → ℚ → Option (List UInt8)
  /-- the SHA-256 digest of a text, in `base64url` -/
  sha256 : String → String
  /-- the protocol and the host name of `new URL(text)` -/
  url : String → Option (String × String)

/-! ## Requests -/

abbrev Params := List (String × String)

namespace Params

def has (params : Params) (key : String) : Bool := params.any fun e => e.1 = key

def get (params : Params) (key : String) : Option String := (params.find? fun e => e.1 = key).map Prod.snd

def getAll (params : Params) (key : String) : List String := (params.filter fun e => e.1 = key).map Prod.snd

end Params

/-- A value of a JSON body: a text, an array with its texts, or another. -/
inductive Value where
  | str (s : String)
  | arr (items : List (Option String))
  | other
deriving DecidableEq

/-- The body of a request: a form, the entries of a JSON object, or one that cannot be read. -/
inductive Body where
  | form (params : Params)
  | json (entries : List (String × Value))
  | unreadable
deriving DecidableEq

structure Request where
  method : String
  /-- the parameters in its URL -/
  query : Params
  body : Body
  cookie : Option String
  authorization : Option String
deriving DecidableEq

structure OAuthRequestBody where
  params : Params
  json : List (String × Value)

/-- The parameters of an entry of a JSON body. -/
def entryParams : String × Value → Params
  | (key, .str s) => [(key, s)]
  | (key, .arr items) => (items.filterMap id).map fun item => (key, item)
  | (_, .other) => []

def readOAuthBody (req : Request) : Option OAuthRequestBody :=
  match req.body with
  | .form params => some ⟨params, []⟩
  | .json entries => some ⟨entries.flatMap entryParams, entries⟩
  | .unreadable => none

/-- An entry of a JSON body. -/
def jsonField (json : List (String × Value)) (key : String) : Option Value :=
  (json.find? fun e => e.1 = key).map Prod.snd

def extractStringArray (value : Option Value) (params : Params) (key : String) : List String :=
  let values := match value with
    | some (.arr items) => items.filterMap id
    | _ => params.getAll key
  values.filter fun item => item ≠ ""

/-- The pieces of a text between the occurrences of a character. -/
def splitAt (c : Char) (s : String) : List String := (s.toList.splitOnP (· == c)).map String.ofList

section Node

variable (node : Node)

/-- The value of an entry of a cookie header; `none` where it cannot be decoded. -/
def readCookie (req : Request) (name : String) : Option (Option String) :=
  match req.cookie with
  | none => some none
  | some header =>
    match (splitAt ';' header).find? fun part =>
        part.toList.any (· == '=') && JsText.trim (String.ofList (part.toList.takeWhile (· != '='))) = name with
    | none => some none
    | some part =>
      (node.decodeURIComponent (JsText.trim (String.ofList ((part.toList.dropWhile (· != '=')).drop 1)))).map some

/-- The client id and secret of a `Basic` header; the outer `none` where they cannot be decoded. -/
def basicClientCredentials (req : Request) : Option (Option (String × String)) :=
  match req.authorization with
  | none => some none
  | some authorization =>
    if !("Basic ".toList.isPrefixOf authorization.toList) then some none
    else
      let raw := (node.base64 (String.ofList (authorization.toList.drop "Basic ".length))).toList
      if raw.all (· != ':') then some none
      else
        match node.decodeURIComponent (String.ofList (raw.takeWhile (· != ':'))),
          node.decodeURIComponent (String.ofList ((raw.dropWhile (· != ':')).drop 1)) with
        | some clientId, some clientSecret => some (some (clientId, clientSecret))
        | _, _ => none

def oauthClientSecret (req : Request) (params : Params) : Option (Option String) :=
  match params.get "client_secret" with
  | some clientSecret => some (some clientSecret)
  | none => (basicClientCredentials node req).map fun credentials => credentials.map Prod.snd

def oauthClientId (req : Request) (params : Params) : Option (Option String) :=
  match params.get "client_id" with
  | some clientId => some (some clientId)
  | none => (basicClientCredentials node req).map fun credentials => credentials.map Prod.fst

/-! ## Secrets -/

/-- `hashSecret`, with a salt. -/
def hashSecret (secret : String) (salt : String) : Option String :=
  (node.scryptSync secret (node.fromBase64url salt) 32 32768 8 1).map fun hash =>
    "scrypt:N=32768,r=8,p=1:" ++ salt ++ ":" ++ node.toBase64url hash

/-- The parameter `key` of a hash; `0` where it is missing or no number. -/
def scryptParam (params : String) (key : String) : ℚ :=
  let entries := (splitAt ',' params).map fun entry => ((splitAt '=' entry).headD "", (splitAt '=' entry)[1]?)
  match (entries.filter fun e => e.1 = key).getLast? with
  | some (_, some value) => (node.number value).getD 0
  | _ => 0

/-- The outer `none` where `scrypt` throws. -/
def verifySecret (secret encodedHash : String) : Option Bool :=
  match splitAt ':' encodedHash with
  | [kind, params, salt, hash] =>
    if kind ≠ "scrypt" then some false
    else if scryptParam node params "N" = 0 ∨ scryptParam node params "r" = 0 ∨ scryptParam node params "p" = 0 then some false
    else
      let expected := node.fromBase64url hash
      (node.scryptSync secret (node.fromBase64url salt) expected.length (scryptParam node params "N")
        (scryptParam node params "r") (scryptParam node params "p")).map fun actual => actual = expected
  | _ => some false

def validPkceVerifier (verifier challenge method : Option String) : Bool :=
  match challenge with
  | none => true
  | some challenge =>
    if challenge = "" then true
    else
      match verifier with
      | none => false
      | some verifier =>
        if verifier = "" then false
        else if method = some "S256" then node.sha256 verifier = challenge
        else if method = none ∨ method = some "" ∨ method = some "plain" then verifier = challenge
        else false

def isHttpsOrLoopbackUrl (value : String) : Bool :=
  match node.url value with
  | none => false
  | some (protocol, hostname) =>
    protocol = "https:" || protocol = "http:" && hostname ∈ ["localhost", "127.0.0.1", "::1", "[::1]"]

end Node

/-- `normalizeScopes` -/
def normalizeScopes (scope : Option String) : List String :=
  let scopes := (((scope.getD "mcp").toList.splitOnP JsText.isSpace).filter (· ≠ [])).map String.ofList
  (if scopes = [] then ["mcp"] else scopes).eraseDups

/-! ## The server -/

inductive OAuthRegistrationPolicy where
  | static_clients
  | shared_secret
  | open_dev
deriving DecidableEq

structure RemoteOAuthClientConfig where
  clientId : String
  clientSecretHash : Option String
  allowedRedirectUris : List String
  scopes : List String

structure RemoteOAuthConfig where
  requirePkce : Bool
  allowPlainPkce : Bool
  registrationPolicy : OAuthRegistrationPolicy
  allowPublicClients : Bool
  tokenTtlSeconds : ℚ
  requireConsent : Bool
  consentSecretHash : Option String
  clients : List RemoteOAuthClientConfig
  /-- the hash of the shared secret, if it is enabled -/
  sharedSecretHash : Option String

structure OAuthCodeEntry where
  clientId : String
  redirectUri : String
  scope : String
  codeChallenge : Option String
  codeChallengeMethod : Option String
  expiresAt : ℕ
deriving DecidableEq

structure RuntimeOAuthClient where
  clientId : String
  clientSecretHash : Option String
  redirectUris : List String
  scopes : List String
  issuedAt : ℕ
  publicClient : Bool
deriving DecidableEq

structure OAuthAccessTokenEntry where
  clientId : String
  scopes : List String
  issuedAt : ℕ
  expiresAt : ℕ
deriving DecidableEq

structure State where
  codes : JsMap String OAuthCodeEntry
  clients : JsMap String RuntimeOAuthClient
  oauthAccessTokens : JsMap String OAuthAccessTokenEntry
  /-- the random values that have been drawn -/
  drawn : ℕ
  now : ℕ

inductive Response where
  | methodNotAllowed
  | error (status : ℕ) (error : String)
  | errorRedirect (redirectUri error : String) (state : Option String)
  | consentPage (csrf : String) (error : Option String)
  | code (redirectUri code : String) (state : Option String)
  | registered (clientId : String) (clientSecret : Option String)
  | token (accessToken : String) (expiresIn : ℕ) (scope : String)
  | authorized (clientId : String) (scopes : List String)
  | unauthorized
  | threw
  /-- to no request -/
  | idle
deriving DecidableEq

/-- A code that an authorize request has minted, for the client that it found. -/
structure Mint where
  code : String
  entry : OAuthCodeEntry
  client : RuntimeOAuthClient
  request : Request
  params : Params
  time : ℕ
deriving DecidableEq

/-- An access token that a token request has issued, to the client that it found. -/
structure Issue where
  code : String
  accessToken : String
  client : RuntimeOAuthClient
  request : Request
  params : Params
  time : ℕ
deriving DecidableEq

/-- What a step answers, and what it registers, mints or issues. -/
structure Effect where
  response : Response
  registered : Option RuntimeOAuthClient
  minted : Option Mint
  issued : Option Issue
deriving DecidableEq

/-- A response, and nothing else. -/
def answer (response : Response) : Effect := ⟨response, none, none, none⟩

def OAUTH_CODE_TTL_MS : ℕ := 5 * 60 * 1000

def toRuntimeClient (client : RemoteOAuthClientConfig) (allowPublicClients : Bool) (now : ℕ) : RuntimeOAuthClient where
  clientId := client.clientId
  clientSecretHash := client.clientSecretHash
  redirectUris := client.allowedRedirectUris
  scopes := if client.scopes = [] then ["mcp"] else client.scopes
  issuedAt := now / 1000
  publicClient := allowPublicClients && (client.clientSecretHash.getD "" = "")

def init (cfg : RemoteOAuthConfig) (now : ℕ) : State where
  codes := Table.empty
  clients := cfg.clients.foldl (fun clients client =>
    clients.set client.clientId (toRuntimeClient client cfg.allowPublicClients now)) Table.empty
  oauthAccessTokens := Table.empty
  drawn := 0
  now := now

section Handlers

variable (node : Node) (cfg : RemoteOAuthConfig) (s : State) (req : Request)

/-- `openDev` says that `LLM_GATEWAY_OAUTH_OPEN_DEV` is `1`; `none` where `scrypt` throws. -/
def registrationAllowedByPolicy (openDev : Bool) (params : Params) : Option Bool :=
  match cfg.registrationPolicy with
  | .open_dev => some openDev
  | .static_clients => some false
  | .shared_secret =>
    match params.get "shared_secret" <|> params.get "registration_secret" with
    | none => some false
    | some supplied =>
      if supplied = "" ∨ supplied.toList.any (· == '?') then some false
      else
        match cfg.sharedSecretHash with
        | none => some false
        | some hash => if hash = "" then some false else verifySecret node supplied hash

def handleRegister (openDev : Bool) : State × Effect :=
  if req.method ≠ "POST" then (s, answer .methodNotAllowed)
  else
    match readOAuthBody req with
    | none => (s, answer .threw)
    | some body =>
      if req.query.has "shared_secret" then (s, answer (.error 400 "invalid_request"))
      else
        match registrationAllowedByPolicy node cfg openDev body.params with
        | none => (s, answer .threw)
        | some false => (s, answer (.error 403 "invalid_client"))
        | some true =>
          let redirectUris := extractStringArray (jsonField body.json "redirect_uris") body.params "redirect_uris"
          if redirectUris = [] ∨ redirectUris.any (fun uri => !isHttpsOrLoopbackUrl node uri) then
            (s, answer (.error 400 "invalid_redirect_uri"))
          else
            let clientId := "llm-cli-gateway-" ++ node.random s.drawn
            let client : RuntimeOAuthClient := ⟨clientId, none, redirectUris, ["mcp"], s.now / 1000, true⟩
            if cfg.allowPublicClients then
              ({ s with clients := s.clients.set clientId client, drawn := s.drawn + 1 },
                ⟨.registered clientId none, some client, none, none⟩)
            else
              let clientSecret := node.random (s.drawn + 1)
              match hashSecret node clientSecret (node.random (s.drawn + 2)) with
              | none => ({ s with drawn := s.drawn + 3 }, answer .threw)
              | some hash =>
                let client := { client with clientSecretHash := some hash, publicClient := false }
                ({ s with clients := s.clients.set clientId client, drawn := s.drawn + 3 },
                  ⟨.registered clientId (some clientSecret), some client, none, none⟩)

/-- `none` where it throws. -/
def verifyConsent (params : Params) : Option Bool :=
  match readCookie node req "gw_oauth_csrf" with
  | none => none
  | some none => some false
  | some (some cookie) =>
    if cookie = "" ∨ (params.get "gw_csrf").getD "" = "" ∨ params.get "gw_csrf" ≠ some cookie then some false
    else
      match cfg.consentSecretHash, params.get "consent_secret" with
      | some hash, some secret => if hash = "" ∨ secret = "" then some false else verifySecret node secret hash
      | _, _ => some false

def renderConsentPage (error : Option String) : State × Effect :=
  ({ s with drawn := s.drawn + 1 }, answer (.consentPage (node.random s.drawn) error))

/-- `oauthErrorRedirect`, which throws for a text that is no URL. -/
def errorRedirect (redirectUri error : String) (state : Option String) : Response :=
  if (node.url redirectUri).isSome then .errorRedirect redirectUri error state else .threw

def pruneExpiredCodes (s : State) : State :=
  { s with codes := s.codes.deleteWhere fun e => e.expiresAt < s.now }

/-- `handleAuthorize`, behind all its checks. -/
def mintCode (params : Params) (client : RuntimeOAuthClient) (redirectUri : String) : State × Effect :=
  let s := pruneExpiredCodes s
  let code := node.random s.drawn
  let entry : OAuthCodeEntry :=
    { clientId := (params.get "client_id").getD ""
      redirectUri := redirectUri
      scope := " ".intercalate (normalizeScopes (params.get "scope"))
      codeChallenge := params.get "code_challenge"
      codeChallengeMethod := params.get "code_challenge_method"
      expiresAt := s.now + OAUTH_CODE_TTL_MS }
  ({ s with codes := s.codes.set code entry, drawn := s.drawn + 1 },
    ⟨if (node.url redirectUri).isSome then .code redirectUri code (params.get "state") else .threw,
      none, some ⟨code, entry, client, req, params, s.now⟩, none⟩)

/-- The parameters of an authorize request. -/
def authorizeParams : Option Params :=
  if req.method = "POST" then (readOAuthBody req).map OAuthRequestBody.params else some req.query

/-- The response type or the challenge of an authorize request is refused. -/
def refusesChallenge (params : Params) : Bool :=
  let codeChallenge := (params.get "code_challenge").getD ""
  let method := params.get "code_challenge_method"
  params.get "response_type" ≠ some "code" || cfg.requirePkce && codeChallenge = "" ||
    codeChallenge ≠ "" && method ≠ some "S256" && !(cfg.allowPlainPkce && method = some "plain")

def handleAuthorize : State × Effect :=
  if req.method ≠ "GET" ∧ req.method ≠ "POST" then (s, answer .methodNotAllowed)
  else
    match authorizeParams req with
    | none => (s, answer .threw)
    | some params =>
      if params.has "shared_secret" then (s, answer (.error 400 "invalid_request"))
      else
        let redirectUri := (params.get "redirect_uri").getD ""
        let state := params.get "state"
        if redirectUri = "" then (s, answer (.error 400 "invalid_request"))
        else
          match s.clients.get ((params.get "client_id").getD "") with
          | none => (s, answer (.error 400 "invalid_request"))
          | some client =>
            if redirectUri ∉ client.redirectUris then (s, answer (.error 400 "invalid_request"))
            else if refusesChallenge cfg params then (s, answer (errorRedirect node redirectUri "invalid_request" state))
            else if (normalizeScopes (params.get "scope")).any fun scope => scope ∉ client.scopes then
              (s, answer (errorRedirect node redirectUri "invalid_scope" state))
            else if cfg.requireConsent then
              if req.method = "POST" ∧ params.get "gw_consent" = some "1" then
                match verifyConsent node cfg req params with
                | none => (s, answer .threw)
                | some false => renderConsentPage node s (some "Incorrect access code.")
                | some true => mintCode node s req params client redirectUri
              else renderConsentPage node s none
            else mintCode node s req params client redirectUri

/-- The client is public, or has presented its secret; `none` where `scrypt` throws. -/
def secretOk (client : Option RuntimeOAuthClient) (clientSecret : Option String) : Option Bool :=
  match client with
  | none => some false
  | some client =>
    if client.publicClient then some true
    else
      match client.clientSecretHash, clientSecret with
      | some hash, some secret => if hash = "" ∨ secret = "" then some false else verifySecret node secret hash
      | _, _ => some false

def issueOAuthAccessToken (clientId : String) (scopes : List String) : State × String × ℕ × String :=
  let ttlSeconds := (max 1 ⌊cfg.tokenTtlSeconds⌋).toNat
  let scopes := (if scopes = [] then ["mcp"] else scopes).eraseDups
  let accessToken := "oauth_" ++ node.random s.drawn
  ({ s with
    oauthAccessTokens := s.oauthAccessTokens.set accessToken ⟨clientId, scopes, s.now, s.now + ttlSeconds * 1000⟩
    drawn := s.drawn + 1 }, accessToken, ttlSeconds, " ".intercalate scopes)

/-- A code is redeemed. -/
def redeemCode (params : Params) (code : String) (client : RuntimeOAuthClient) (entry : OAuthCodeEntry) : State × Effect :=
  let r := issueOAuthAccessToken node cfg { s with codes := s.codes.delete code } client.clientId
    (normalizeScopes (some entry.scope))
  (r.1, ⟨.token r.2.1 r.2.2.1 r.2.2.2, none, none, some ⟨code, r.2.1, client, req, params, s.now⟩⟩)

/-- The checks of `handleToken`. -/
def redeemable (params : Params) (client : RuntimeOAuthClient) (entry : OAuthCodeEntry) (secretOk : Bool) : Bool :=
  params.get "grant_type" = some "authorization_code" && !(entry.expiresAt < s.now) && client.clientId = entry.clientId &&
    secretOk && params.get "redirect_uri" = some entry.redirectUri &&
    validPkceVerifier node (params.get "code_verifier") entry.codeChallenge entry.codeChallengeMethod

def handleToken : State × Effect :=
  if req.method ≠ "POST" then (s, answer .methodNotAllowed)
  else if req.query.has "client_secret" then (s, answer (.error 400 "invalid_request"))
  else
    match readOAuthBody req with
    | none => (s, answer .threw)
    | some body =>
      let code := (body.params.get "code").getD ""
      match oauthClientId node req body.params, oauthClientSecret node req body.params with
      | some clientId, some clientSecret =>
        let client := if clientId.getD "" = "" then none else clientId.bind s.clients.get
        match secretOk node client clientSecret with
        | none => (s, answer .threw)
        | some secretOk =>
          match s.codes.get code, client with
          | some entry, some client =>
            if redeemable node s body.params client entry secretOk then redeemCode node cfg s req body.params code client entry
            else (s, answer (.error 400 "invalid_grant"))
          | _, _ => (s, answer (.error 400 "invalid_grant"))
      | _, _ => (s, answer .threw)

/-- `authorizeBearerRequest`, of a value that is not the gateway's own token. -/
def authorizeBearerRequest (supplied : String) : State × Effect :=
  match s.oauthAccessTokens.get supplied with
  | none => (s, answer .unauthorized)
  | some entry =>
    if entry.expiresAt ≤ s.now then
      ({ s with oauthAccessTokens := s.oauthAccessTokens.delete supplied }, answer .unauthorized)
    else (s, answer (.authorized entry.clientId entry.scopes))

end Handlers

inductive Event where
  | register (openDev : Bool) (req : Request)
  | authorize (req : Request)
  | token (req : Request)
  | bearer (supplied : String)
  | tick (ms : ℕ)

def step (node : Node) (cfg : RemoteOAuthConfig) (s : State) : Event → State × Effect
  | .register openDev req => handleRegister node cfg s req openDev
  | .authorize req => handleAuthorize node cfg s req
  | .token req => handleToken node cfg s req
  | .bearer supplied => authorizeBearerRequest s supplied
  | .tick ms => ({ s with now := s.now + ms }, answer .idle)

end LlmGateway.OAuth
