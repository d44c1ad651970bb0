import PierGateway.Authorization
import PierGateway.LoginEndpoints
import PierGateway.Quotas

/-!
# The start of the process

`main` reads the environment, resolves the provider, fetches the keys of the tokens, makes the
client of the storage, reads the quotas and only then listens. The keys are fetched again and
again until a deadline, since the provider may still be starting. Whatever the provider does
the start ends, and what a started gateway forwards or calls belongs to a token of the issuer
and the audience that were configured.
-/
namespace PierGateway.Auth
open GoStrings

/-! ### Accepted tokens -/

/-- What an option asks of a token that names an algorithm and has these claims. -/
def ParserOption.Met (algorithm : Str) (claims : MapClaims) : ParserOption → Prop
  | .validMethods methods => algorithm ∈ methods
  | .expirationRequired => ∃ text, claims.lookup (str "exp") = some (.number text)
  | .issuer expected => claims.lookup (str "iss") = some (.string expected)
  | .audience expected =>
      claims.lookup (str "aud") = some (.string expected) ∨
        ∃ items, claims.lookup (str "aud") = some (.array items) ∧ .string expected ∈ items

/-- What a token is besides its claims: the algorithm that it names, and whether one of the
keys at a URL has signed it. -/
structure TokenFacts where
  algorithm : Str → Str
  signed : Str → Str → Prop

/-- A valid token is signed and meets every option of the parser. -/
structure Honours (t : TokenFacts) (parse : Parser) : Prop where
  signed : ∀ {url token opts parsed}, parse url token opts = .ok parsed → parsed.valid = true →
    t.signed url token
  options : ∀ {url token opts parsed claims}, parse url token opts = .ok parsed →
    parsed.valid = true →
    parsed.claims = some claims → ∀ o ∈ opts, o.Met (t.algorithm token) claims

/-- What a verifier with an issuer and an audience has checked of the claims it returns. -/
structure Vouched (t : TokenFacts) (v : JWKSVerifier) (token : Str) (claims : MapClaims) :
    Prop where
  signed : t.signed v.jwksURL token
  algorithm : t.algorithm token ∈ [str "RS256", str "RS384", str "RS512"]
  expires : ∃ text, claims.lookup (str "exp") = some (.number text)
  issuer : claims.lookup (str "iss") = some (.string v.expectedIssuer)
  audience : claims.lookup (str "aud") = some (.string v.expectedAudience) ∨
    ∃ items, claims.lookup (str "aud") = some (.array items) ∧ .string v.expectedAudience ∈ items

theorem JWKSVerifier.vouched {t : TokenFacts} {parse : Parser} {v : JWKSVerifier} {token : Str}
    {claims : MapClaims} (hparse : Honours t parse)
    (hissuer : .issuer v.expectedIssuer ∈ v.parserOptions)
    (haudience : .audience v.expectedAudience ∈ v.parserOptions)
    (h : v.verifyToken parse token = .ok claims) : Vouched t v token claims := by
  obtain ⟨parsed, hok, hvalid, hclaims⟩ := JWKSVerifier.verifyToken_ok h
  have hmet := hparse.options hok hvalid hclaims
  have halways : ∀ o ∈ [.validMethods [str "RS256", str "RS384", str "RS512"], .expirationRequired],
      o ∈ v.parserOptions := by
    intro o ho
    unfold JWKSVerifier.parserOptions
    exact List.mem_append_left _ (List.mem_append_left _ ho)
  constructor
  · exact hparse.signed hok hvalid
  · exact hmet _ (halways _ List.mem_cons_self)
  · exact hmet _ (halways _ (List.mem_cons_of_mem _ List.mem_cons_self))
  · exact hmet _ hissuer
  · exact hmet _ haudience

end PierGateway.Auth

namespace PierGateway.Settings
open GoStrings Schemes Auth Interaction

/-! ### Fetching the keys -/

/-- One `keyfunc.Get`: how long it took, what it said, and for how long more than asked the
process slept after it. -/
structure Attempt where
  took : ℕ
  result : Except Str Unit
  overslept : ℕ := 0

/-- `jwksInitMaxWait` and `jwksInitRetryDelay`, in milliseconds. -/
structure RetryWindow where
  maxWait : ℤ := 60000
  retryDelay : ℤ := 3000

/-- The last attempt, counted from one, and its error. -/
structure KeysError where
  jwksURL : Str
  attempts : ℕ
  cause : Str
deriving DecidableEq

/-- The loop of `NewJWKSVerifier`; `none` when it has not ended after so many attempts. -/
def fetchKeys (w : RetryWindow) (jwksURL : Str) (get : ℕ → Attempt) (deadline : ℤ) :
    ℕ → ℕ → ℤ → Option (Except KeysError Unit)
  | 0, _, _ => none
  | fuel + 1, attempt, now =>
      match (get attempt).result with
      | .ok keys => some (.ok keys)
      | .error err =>
          if deadline < now + (get attempt).took then some (.error ⟨jwksURL, attempt, err⟩)
          else
            fetchKeys w jwksURL get deadline fuel (attempt + 1)
              (now + (get attempt).took + (w.retryDelay + (get attempt).overslept))

/-- The verifier once its keys are there, when the loop has begun at the given time. -/
def newJWKSVerifier (w : RetryWindow) (get : Str → ℕ → Attempt) (now : ℤ) (fuel : ℕ)
    (jwksURL expectedIssuer expectedAudience : Str) : Option (Except KeysError JWKSVerifier) :=
  (fetchKeys w jwksURL (get jwksURL) (now + w.maxWait) fuel 1 now).map fun r =>
    r.map fun _ => ⟨jwksURL, expectedIssuer, expectedAudience⟩

section
variable (w : RetryWindow) (get : ℕ → Attempt) (now : ℤ)

/-- When an attempt begins, if all before it have failed in time. -/
def startOf : ℕ → ℤ
  | 0 => now
  | n + 1 => startOf n + (get (n + 1)).took + (w.retryDelay + (get (n + 1)).overslept)

/-- An attempt that is followed by another. -/
def GoesOn (n : ℕ) : Prop :=
  (∃ err, (get (n + 1)).result = .error err) ∧
    startOf w get now n + (get (n + 1)).took ≤ now + w.maxWait

/-- The attempt that the loop ends with. -/
inductive EndsWith (jwksURL : Str) (n : ℕ) : Except KeysError Unit → Prop
  | keys (h : (get (n + 1)).result = .ok ()) : EndsWith jwksURL n (.ok ())
  | late {err : Str} (h : (get (n + 1)).result = .error err)
      (hlate : now + w.maxWait < startOf w get now n + (get (n + 1)).took) :
      EndsWith jwksURL n (.error ⟨jwksURL, n + 1, err⟩)

theorem goesOn_or_endsWith (jwksURL : Str) (n : ℕ) :
    GoesOn w get now n ∨ ∃ r, EndsWith w get now jwksURL n r := by
  cases hresult : (get (n + 1)).result with
  | ok keys => exact .inr ⟨_, .keys hresult⟩
  | error err =>
      by_cases hlate : now + w.maxWait < startOf w get now n + (get (n + 1)).took
      · exact .inr ⟨_, .late hresult hlate⟩
      · exact .inl ⟨⟨err, hresult⟩, by omega⟩

/-- Sleeping alone takes the loop to its deadline. -/
theorem le_startOf (n : ℕ) : now + n * w.retryDelay ≤ startOf w get now n := by
  induction n with
  | zero =>
      rw [startOf]
      omega
  | succ n ih =>
      rw [startOf]
      push_cast
      have hmul : (n + 1 : ℤ) * w.retryDelay = n * w.retryDelay + w.retryDelay := by ring
      omega

theorem not_goesOn {n : ℕ} (h : w.maxWait < n * w.retryDelay) : ¬GoesOn w get now n := by
  intro hgo
  have hstart := le_startOf w get now n
  have hend := hgo.2
  omega

variable {w get now}

theorem EndsWith.not_goesOn {jwksURL : Str} {n : ℕ} {r : Except KeysError Unit}
    (h : EndsWith w get now jwksURL n r) : ¬GoesOn w get now n := by
  intro hgo
  obtain ⟨err, herr⟩ := hgo.1
  cases h with
  | keys hok =>
      rw [hok] at herr
      cases herr
  | late _ hlate =>
      have hend := hgo.2
      omega

theorem EndsWith.unique {jwksURL : Str} {n : ℕ} {r r' : Except KeysError Unit}
    (h : EndsWith w get now jwksURL n r) (h' : EndsWith w get now jwksURL n r') : r = r' := by
  cases h with
  | keys hok =>
      cases h' with
      | keys => rfl
      | late herr _ =>
          rw [hok] at herr
          cases herr
  | late herr _ =>
      cases h' with
      | keys hok =>
          rw [hok] at herr
          cases herr
      | late herr' _ =>
          rw [herr] at herr'
          obtain rfl := Except.error.inj herr'
          rfl

/-- The loop ends with its first attempt that is not followed by another. -/
theorem fetchKeys_of_endsWith {jwksURL : Str} {m : ℕ} {r : Except KeysError Unit}
    (hend : EndsWith w get now jwksURL m r) (fuel n : ℕ) (hn : n ≤ m) (hfuel : m < n + fuel)
    (hgo : ∀ i, n ≤ i → i < m → GoesOn w get now i) :
    fetchKeys w jwksURL get (now + w.maxWait) fuel (n + 1) (startOf w get now n) = some r := by
  induction fuel generalizing n with
  | zero => omega
  | succ fuel ih =>
      rw [fetchKeys]
      by_cases hlast : n = m
      · subst hlast
        cases hend with
        | keys hok => rw [hok]
        | late herr hlate =>
            rw [herr]
            dsimp only
            rw [if_pos hlate]
      · obtain ⟨⟨err, herr⟩, hin⟩ := hgo n le_rfl (by omega)
        rw [herr]
        dsimp only
        rw [if_neg (by omega)]
        exact ih (n + 1) (by omega) (by omega) fun i hi hlt => hgo i (by omega) hlt

/-- Some attempt is the last, and not many come before it. -/
theorem exists_endsWith (w : RetryWindow) (get : ℕ → Attempt) (now : ℤ) (hdelay : 0 < w.retryDelay)
    (jwksURL : Str) :
    ∃ m r, EndsWith w get now jwksURL m r ∧ (∀ i < m, GoesOn w get now i) ∧
      m ≤ (w.maxWait / w.retryDelay).toNat + 1 := by
  classical
  have hstop : ¬GoesOn w get now ((w.maxWait / w.retryDelay).toNat + 1) := by
    apply not_goesOn
    have hdiv := Int.lt_ediv_add_one_mul_self w.maxWait hdelay
    have hle : w.maxWait / w.retryDelay + 1 ≤ (((w.maxWait / w.retryDelay).toNat + 1 : ℕ) : ℤ) := by
      omega
    exact hdiv.trans_le (mul_le_mul_of_nonneg_right hle hdelay.le)
  have hexists : ∃ m, ¬GoesOn w get now m := ⟨_, hstop⟩
  obtain ⟨r, hr⟩ := (goesOn_or_endsWith w get now jwksURL (Nat.find hexists)).resolve_left
    (Nat.find_spec hexists)
  refine ⟨Nat.find hexists, r, hr, ?_, Nat.find_min' hexists hstop⟩
  intro i hi
  exact not_not.mp (Nat.find_min hexists hi)

theorem fetchKeys_eq (w : RetryWindow) (get : ℕ → Attempt) (now : ℤ) (hdelay : 0 < w.retryDelay)
    (jwksURL : Str) {fuel : ℕ}
    (hfuel : (w.maxWait / w.retryDelay).toNat + 2 ≤ fuel) :
    ∃ m r, fetchKeys w jwksURL get (now + w.maxWait) fuel 1 now = some r ∧
      EndsWith w get now jwksURL m r ∧ ∀ i < m, GoesOn w get now i := by
  obtain ⟨m, r, hend, hgo, hm⟩ := exists_endsWith w get now hdelay jwksURL
  refine ⟨m, r, ?_, hend, hgo⟩
  exact fetchKeys_of_endsWith hend fuel 0 (Nat.zero_le m) (by omega) fun i _ hi => hgo i hi

/-- The keys are there: an attempt succeeds, and all before it have failed in time. -/
def KeysServed (w : RetryWindow) (get : ℕ → Attempt) (now : ℤ) : Prop :=
  ∃ m, (get (m + 1)).result = .ok () ∧ ∀ i < m, GoesOn w get now i

theorem fetchKeys_ok_iff (w : RetryWindow) (get : ℕ → Attempt) (now : ℤ) (hdelay : 0 < w.retryDelay)
    (jwksURL : Str) {fuel : ℕ}
    (hfuel : (w.maxWait / w.retryDelay).toNat + 2 ≤ fuel) :
    fetchKeys w jwksURL get (now + w.maxWait) fuel 1 now = some (.ok ()) ↔
      KeysServed w get now := by
  obtain ⟨m, r, heq, hend, hgo⟩ := fetchKeys_eq w get now hdelay jwksURL hfuel
  rw [heq]
  constructor
  · intro h
    obtain rfl := Option.some.inj h
    cases hend with
    | keys hok => exact ⟨m, hok, hgo⟩
  · rintro ⟨m', hok, hgo'⟩
    have hend' : EndsWith w get now jwksURL m' (.ok ()) := .keys hok
    have hle : m ≤ m' := by
      by_contra hlt
      exact hend'.not_goesOn (hgo m' (by omega))
    have hge : m' ≤ m := by
      by_contra hlt
      exact hend.not_goesOn (hgo' m (by omega))
    obtain rfl : m = m' := by omega
    rw [hend.unique hend']

end

/-! ### The whole start -/

/-- What the gateway keeps of its `S3Client`. -/
structure S3Client where
  endpoint : Str
  region : Str
  credentials : SigV4.Credentials
deriving DecidableEq

def newS3Client (endpoint accessKey secretKey region : Str) : Except Str S3Client :=
  if endpoint = [] ∨ accessKey = [] ∨ secretKey = [] then
    .error (str "S3 endpoint, access key, and secret key are required")
  else
    .ok
      { endpoint := trimRight slash endpoint
        region := if region = [] then str "us-east-1" else region
        credentials := { accessKeyID := accessKey, secretAccessKey := secretKey } }

/-- Why `main` gives up. -/
inductive StartError where
  | config (err : ConfigError)
  | keys (err : KeysError)
  | client (message : Str)
  | quotas (err : QuotaError)

/-- What the listeners are built from. -/
structure Gateway where
  wiring : Wiring
  client : S3Client
  quotas : List (Str × ℤ)

/-- The outside of a start: the discovery documents, the key sets and the clock. -/
structure Surroundings where
  platform : Platform
  reply : Str → DiscoveryReply
  get : Str → ℕ → Attempt
  now : ℤ
  window : RetryWindow := {}

/-- `main` from the client of the storage on. -/
def assemble (p : Platform) (cfg : Config) (wiring : Wiring) : Except StartError Gateway :=
  match newS3Client cfg.s3Endpoint cfg.s3AccessKey cfg.s3SecretKey cfg.s3Region with
  | .error message => .error (.client message)
  | .ok client =>
      match parseBucketQuotas p cfg.bucketQuotasRaw with
      | .error err => .error (.quotas err)
      | .ok quotas => .ok ⟨wiring, client, quotas⟩

/-- `main` up to its listeners; `none` when it is still asking for the keys. -/
def launch (env : Environment) (o : Surroundings) (fuel : ℕ) : Option (Except StartError Gateway) :=
  match (start env).eval o.reply with
  | .error err => some (.error (.config err))
  | .ok wiring =>
      let v := wiring.verifier
      (newJWKSVerifier o.window o.get o.now fuel v.jwksURL v.expectedIssuer v.expectedAudience).map
        fun r =>
          match r with
          | .error err => .error (.keys err)
          | .ok verifier => assemble o.platform (load env) { wiring with verifier := verifier }

theorem newS3Client_ok {endpoint accessKey secretKey : Str} (region : Str)
    (hendpoint : endpoint ≠ [])
    (haccess : accessKey ≠ []) (hsecret : secretKey ≠ []) :
    ∃ client, newS3Client endpoint accessKey secretKey region = .ok client := by
  unfold newS3Client
  exact ⟨_, if_neg (by simp [hendpoint, haccess, hsecret])⟩

theorem getEnv_ne_nil {env : Environment} {key fallback : Str} (h : fallback ≠ []) :
    getEnv env key fallback ≠ [] := by
  unfold getEnv
  split_ifs with hset
  · exact hset
  · exact h

theorem newS3Client_load {env : Environment} (h : ∀ f ∈ (load env).required, ¬Blank f.2) :
    ∃ client, newS3Client (load env).s3Endpoint (load env).s3AccessKey (load env).s3SecretKey
      (load env).s3Region = .ok client := by
  have hendpoint : (load env).s3Endpoint ≠ [] := getEnv_ne_nil (by decide)
  generalize load env = c at h hendpoint ⊢
  obtain ⟨haccess, hsecret, -⟩ : ¬Blank c.s3AccessKey ∧ ¬Blank c.s3SecretKey ∧
      ∀ f ∈ c.required.drop 2, ¬Blank f.2 := by
    simpa [Config.required] using h
  exact newS3Client_ok c.s3Region hendpoint (not_nil_of_not_blank haccess)
    (not_nil_of_not_blank hsecret)

/-- The listeners come up. -/
structure ComesUp (env : Environment) (o : Surroundings) (g : Gateway) : Prop where
  wiring : (start env).eval o.reply = .ok g.wiring
  keys : KeysServed o.window (o.get g.wiring.verifier.jwksURL) o.now
  client : newS3Client (load env).s3Endpoint (load env).s3AccessKey (load env).s3SecretKey
    (load env).s3Region = .ok g.client
  quotas : parseBucketQuotas o.platform (load env).bucketQuotasRaw = .ok g.quotas

theorem assemble_eq_ok_iff {p : Platform} {cfg : Config} {wiring : Wiring} {g : Gateway} :
    assemble p cfg wiring = .ok g ↔
      wiring = g.wiring ∧
        newS3Client cfg.s3Endpoint cfg.s3AccessKey cfg.s3SecretKey cfg.s3Region = .ok g.client ∧
        parseBucketQuotas p cfg.bucketQuotasRaw = .ok g.quotas := by
  unfold assemble
  cases newS3Client cfg.s3Endpoint cfg.s3AccessKey cfg.s3SecretKey cfg.s3Region with
  | error message => simp
  | ok client =>
      cases parseBucketQuotas p cfg.bucketQuotasRaw with
      | error err => simp
      | ok quotas =>
          obtain ⟨w, c, q⟩ := g
          simp

theorem assemble_ne_client {p : Platform} {cfg : Config} {wiring : Wiring} {client : S3Client}
    (h : newS3Client cfg.s3Endpoint cfg.s3AccessKey cfg.s3SecretKey cfg.s3Region = .ok client)
    (message : Str) : assemble p cfg wiring ≠ .error (.client message) := by
  unfold assemble
  rw [h]
  dsimp only
  cases parseBucketQuotas p cfg.bucketQuotasRaw with
  | error err => simp
  | ok quotas => simp

/-- Whatever the provider does the start ends, after a number of attempts that the window
bounds, and the listeners come up exactly when the settings are in order and the keys are
served in time: the client of the storage is never what stops it. -/
theorem start_ends {env : Environment} {o : Surroundings} (hdelay : 0 < o.window.retryDelay)
    {fuel : ℕ} (hfuel : (o.window.maxWait / o.window.retryDelay).toNat + 2 ≤ fuel) :
    ∃ outcome, launch env o fuel = some outcome ∧
      (∀ message, outcome ≠ .error (.client message)) ∧
      ∀ g, outcome = .ok g ↔ ComesUp env o g := by
  unfold launch
  cases hstart : (start env).eval o.reply with
  | error err =>
      refine ⟨_, rfl, by simp, ?_⟩
      intro g
      constructor
      · intro h
        cases h
      · intro h
        have hok := h.wiring
        rw [hstart] at hok
        cases hok
  | ok wiring =>
      obtain ⟨client, hclient⟩ := newS3Client_load (start_ok hstart).1
      obtain ⟨m, r, hfetch, -, -⟩ := fetchKeys_eq o.window (o.get wiring.verifier.jwksURL)
        o.now hdelay wiring.verifier.jwksURL hfuel
      have hserved := fetchKeys_ok_iff o.window (o.get wiring.verifier.jwksURL)
        o.now hdelay wiring.verifier.jwksURL hfuel
      dsimp only
      unfold newJWKSVerifier
      rw [hfetch] at hserved ⊢
      cases r with
      | error err =>
          refine ⟨.error (.keys err), rfl, by simp, ?_⟩
          intro g
          constructor
          · intro h
            cases h
          · intro h
            have hsame : wiring = g.wiring := Except.ok.inj (hstart.symm.trans h.wiring)
            have hkeys := h.keys
            rw [← hsame, ← hserved] at hkeys
            cases hkeys
      | ok keys =>
          refine ⟨_, rfl, assemble_ne_client hclient, ?_⟩
          intro g
          refine assemble_eq_ok_iff.trans ?_
          constructor
          · rintro ⟨hsame, hc, hq⟩
            have hwiring : wiring = g.wiring := hsame
            refine ⟨?_, ?_, hc, hq⟩
            · rw [← hwiring, hstart]
            · rw [← hwiring]
              exact hserved.mp rfl
          · intro h
            exact ⟨Except.ok.inj (hstart.symm.trans h.wiring), h.client, h.quotas⟩

/-- A provider that serves its keys at the second attempt. -/
def slowProvider : Surroundings where
  platform := ⟨fun _ => 0, fun _ => by decide⟩
  reply := noDiscovery
  get _ attempt := if attempt = 1 then ⟨5, .error (str "refused"), 2⟩ else ⟨40, .ok (), 0⟩
  now := 0

theorem start_ends_slowProvider :
    ∃ outcome, launch fallbackEnv slowProvider 22 = some outcome ∧
      (∀ message, outcome ≠ .error (.client message)) ∧
      ∀ g, outcome = .ok g ↔ ComesUp fallbackEnv slowProvider g :=
  start_ends (by decide) (by decide)

/-! ### The listeners -/

open Acl Proxy

theorem wiring_of_launch {env : Environment} {o : Surroundings} {fuel : ℕ} {g : Gateway}
    (h : launch env o fuel = some (.ok g)) : (start env).eval o.reply = .ok g.wiring := by
  unfold launch at h
  cases hstart : (start env).eval o.reply with
  | error err =>
      rw [hstart] at h
      cases h
  | ok wiring =>
      rw [hstart] at h
      obtain ⟨r, hr, hassembled⟩ := Option.map_eq_some_iff.mp h
      obtain ⟨fetched, -, rfl⟩ := Option.map_eq_some_iff.mp hr
      cases fetched with
      | error err => cases hassembled
      | ok keys => rw [← (assemble_eq_ok_iff.mp hassembled).1]

/-- The client as the pass-through sees it. -/
def S3Client.backend (c : S3Client) (listBuckets : Except Str (List (Option Str))) : S3Backend where
  listBuckets := listBuckets
  endpoint := c.endpoint
  region := c.region
  credentials := .ok c.credentials

/-- The handler behind the listener for the storage protocol, while the storage and the keys
are in some state. -/
def Gateway.s3Handler (g : Gateway) (parse : Parser) (listBuckets : Except Str (List (Option Str)))
    (signer : SigV4.Signer) (now : ℤ)
    (transport : HttpMessages.Request → Except Str HttpMessages.Response) :
    S3Handler :=
  newS3HandlerWithMapper (g.wiring.verifier.verifyToken parse)
    (some { backend := g.client.backend listBuckets, signer, now, transport })
    g.wiring.claimMapper

/-- What the routes of the web interface are registered with. -/
def Gateway.uiConfig (g : Gateway) : WebUI.UIConfig where
  api := { hasBackend := true, quotas := some g.quotas }
  oidcCfg := some g.wiring.oidcCfg.forHandlers
  mapper := g.wiring.claimMapper

/-! ### A gateway that came up late -/

def slowGateway : Gateway where
  wiring := (load fallbackEnv).wiring fallbackSettings
  client := ⟨str "http://seaweedfs:8333", str "us-east-1", ⟨str "a", str "s", []⟩⟩
  quotas := []

theorem launch_slowGateway : launch fallbackEnv slowProvider 22 = some (.ok slowGateway) := by
  have hstart : (start fallbackEnv).eval slowProvider.reply =
      .ok ((load fallbackEnv).wiring fallbackSettings) :=
    start_eval fallbackEnv_facts.1 fallbackEnv_facts.2
  unfold launch
  rw [hstart]
  rfl

/-- The claims of its one user. -/
def slowClaims : MapClaims :=
  [(str "iss", .string (str "https://kc/realms/r")), (str "aud", .array [.string (str "c")]),
    (str "exp", .number (str "1700003600")),
    (str "groups", .array [.string (str "/team/reports-rw"), .string (str "reports-ro")])]

/-- A parser that knows one token and one verifier. -/
def slowParser : Parser := fun jwksURL token opts =>
  if jwksURL = str "https://kc/k" ∧ token = str "token" ∧
    opts = slowGateway.wiring.verifier.parserOptions then
    .ok ⟨some slowClaims, true⟩
  else .error (str "unknown token")

def slowFacts : TokenFacts where
  algorithm _ := str "RS256"
  signed jwksURL token := jwksURL = str "https://kc/k" ∧ token = str "token"

theorem honours_slowParser : Honours slowFacts slowParser := by
  constructor
  · intro jwksURL token opts parsed h _
    unfold slowParser at h
    split_ifs at h with hknown
    exact ⟨hknown.1, hknown.2.1⟩
  · intro jwksURL token opts parsed claims h _ hclaims o ho
    unfold slowParser at h
    split_ifs at h with hknown
    obtain rfl := Except.ok.inj h
    obtain rfl := Option.some.inj hclaims
    rw [hknown.2.2] at ho
    have hcases : o ∈ [ParserOption.validMethods [str "RS256", str "RS384", str "RS512"],
        .expirationRequired, .issuer (str "https://kc/realms/r"), .audience (str "c")] := ho
    simp only [List.mem_cons, List.not_mem_nil, or_false] at hcases
    rcases hcases with rfl | rfl | rfl | rfl
    · exact List.mem_cons_self
    · exact ⟨_, rfl⟩
    · rfl
    · exact .inr ⟨_, rfl, List.mem_cons_self⟩

theorem verifyToken_slowGateway :
    slowGateway.wiring.verifier.verifyToken slowParser (str "token") = .ok slowClaims := by
  unfold JWKSVerifier.verifyToken slowParser
  rw [if_pos ⟨rfl, rfl, rfl⟩]

theorem groups_slowClaims : slowGateway.wiring.claimMapper.groups slowClaims =
    [str "team/reports-rw", str "reports-ro"] := by
  decide

/-- A request of that user to the web interface. -/
def slowArrival : WebUI.Arrival :=
  { WebUI.removeArrival with verifier := slowGateway.wiring.verifier.verifyToken slowParser }

/-- The request as the handlers see it. -/
def slowRequest : WebUI.UIRequest :=
  { slowArrival.request with
    identity := some
      { claims := slowClaims
        username := slowGateway.wiring.claimMapper.user slowClaims
        groups := slowGateway.wiring.claimMapper.groups slowClaims } }

theorem slowArrival_nextCall (outside : WebUI.Outside) :
    ((WebUI.uiSystem slowGateway.uiConfig outside).start slowArrival).nextCall =
      some (.deleteObject (str "team/reports") (str "old")) := by
  have ht : WebUI.extractToken slowArrival.request = (str "token", false) := by decide
  have hv : slowArrival.verifier (WebUI.extractToken slowArrival.request).1 = .ok slowClaims := by
    rw [ht]
    exact verifyToken_slowGateway
  have hb : WebUI.bucketAndKeyFromRequest slowRequest = (str "team/reports", str "old") := by
    decide +kernel
  have hg : WebUI.getGroups slowRequest = [str "team/reports-rw", str "reports-ro"] :=
    groups_slowClaims
  have hc : checkAccess [str "team/reports-rw",
      str "reports-ro"] (str "team/reports") (str "DELETE") = true := by
    decide +kernel
  have hne : ¬(str "team/reports" = [] ∨ str "old" = []) := by decide
  change (WebUI.authMiddlewareWithMapper slowArrival.verifier slowGateway.wiring.claimMapper
    slowGateway.uiConfig.api.handleDeleteObject slowArrival.request).nextCall = _
  rw [WebUI.authMiddleware_of_token (by rw [ht]; decide) (by rw [ht]; simp) hv]
  change (slowGateway.uiConfig.api.handleDeleteObject slowRequest).nextCall = _
  unfold WebUI.API.handleDeleteObject
  rw [hb, hg]
  dsimp only
  rw [if_neg hne, hc]
  rfl

/-- Its handler while the storage does not answer. -/
def slowS3Handler : S3Handler :=
  slowGateway.s3Handler slowParser (.ok []) (recordedPassThrough [] []).signer 1700000000
    fun _ => .error (str "refused")

theorem forwards_slowS3Handler : Forwards slowS3Handler WebUI.readRequest := by
  obtain ⟨claims, hadm⟩ := WebUI.forwards_readRequest.admitted
  have htoken : extractBearerToken WebUI.readRequest = str "token" := by decide
  have hadmitted : Admitted slowS3Handler WebUI.readRequest slowClaims := by
    constructor
    · exact hadm.token
    · rw [htoken]
      exact verifyToken_slowGateway
    · exact hadm.bucket
    · exact hadm.admin
    · change checkAccess (slowGateway.wiring.claimMapper.groups slowClaims)
        (pathBucket WebUI.readRequest.url.path) (str "GET") = true
      rw [groups_slowClaims]
      decide +kernel
  exact ⟨_, (serveHTTP_forward_iff _ _ _).mpr ⟨_, slowClaims, rfl, hadmitted, rfl⟩⟩

theorem exists_reachable_alone {Op : Type} {Reply : Op → Type} {Owner α σ : Type}
    (S : System Op Reply Owner α σ) (s : σ) (owner : Owner) :
    ∃ c, S.Reachable s c ∧ c.threads 0 = some (owner, S.start owner) ∧
      ∀ i a p, c.threads i = some (a, p) → a = owner := by
  have hstep : S.Step (System.initial s) _ := .start 0 owner rfl
  refine ⟨_, .single hstep, by simp, ?_⟩
  intro i a p hthread
  by_cases hi : i = 0
  · rw [hi] at hthread
    simp at hthread
    exact hthread.1.symm
  · simp [System.initial, hi] at hthread

/-! ### What a gateway lets through -/

/-- However a gateway was started, what it forwards to the storage, and what the requests to its
web interface call there in any interleaving, is allowed by the groups of a token that is signed
with the keys of its provider and names its issuer and its audience. -/
theorem gateway_vouches {env : Environment} {o : Surroundings} {fuel : ℕ} {g : Gateway}
    (h : launch env o fuel = some (.ok g)) (t : TokenFacts) :
    (∀ parse listBuckets signer now transport r, Honours t parse →
      Forwards (g.s3Handler parse listBuckets signer now transport) r →
        ∃ claims, Vouched t g.wiring.verifier (extractBearerToken r) claims ∧
          checkAccess (g.wiring.claimMapper.groups claims) (pathBucket r.url.path) r.method =
            true) ∧
    ∀ outside now c, (WebUI.uiSystem g.uiConfig outside).Reachable { now := now } c →
      (∀ i a p, c.threads i = some (a, p) →
        ∃ parse, Honours t parse ∧ a.verifier = g.wiring.verifier.verifyToken parse) →
      ∀ i a p op b m, c.threads i = some (a, p) → p.nextCall = some op → op.scope = some (b, m) →
        ∃ claims, Vouched t g.wiring.verifier (WebUI.extractToken a.request).1 claims ∧
          checkAccess (g.wiring.claimMapper.groups claims) b m = true := by
  obtain ⟨hreq, -, hwiring, -, -⟩ := start_ok (wiring_of_launch h)
  obtain ⟨hissuer, -, haudience⟩ := layered_not_blank hreq
  have hv : g.wiring.verifier = ⟨(load env).layered.jwksURL, (load env).layered.issuer,
      (load env).layered.audience⟩ := by
    rw [hwiring, wiring_verifier]
  have hi :=
    mem_parserOptions (v := g.wiring.verifier) |>.1 (by rw [hv]; exact not_nil_of_not_blank hissuer)
  have ha :=
    mem_parserOptions (v := g.wiring.verifier) |>.2
      (by rw [hv]; exact not_nil_of_not_blank haudience)
  constructor
  · intro parse listBuckets signer now transport r hparse hforwards
    obtain ⟨claims, hadm⟩ := hforwards.admitted
    exact ⟨claims, JWKSVerifier.vouched hparse hi ha hadm.verified, hadm.access⟩
  · intro outside now c hc harrivals i a p op b m hthread hop hscope
    obtain ⟨parse, hparse, hverifier⟩ := harrivals i a p hthread
    have hallowed := ((WebUI.uiSystem_holds g.uiConfig hc).threads i a p hthread).nextCall hop
    obtain ⟨claims, -, hok, haccess⟩ := hallowed.access b m hscope
    rw [hverifier] at hok
    exact ⟨claims, JWKSVerifier.vouched hparse hi ha hok, haccess⟩

/-- The gateway forwards a read and is about to delete an object, for its one user. -/
theorem gateway_vouches_slowGateway :
    (∃ claims, Vouched slowFacts slowGateway.wiring.verifier
      (extractBearerToken WebUI.readRequest) claims ∧
      checkAccess (slowGateway.wiring.claimMapper.groups claims)
        (pathBucket WebUI.readRequest.url.path)
        WebUI.readRequest.method = true) ∧
    ∃ claims, Vouched slowFacts slowGateway.wiring.verifier
        (WebUI.extractToken slowArrival.request).1 claims ∧
      checkAccess (slowGateway.wiring.claimMapper.groups claims) (str "team/reports")
        (str "DELETE") = true := by
  have hvouches := gateway_vouches launch_slowGateway slowFacts
  constructor
  · exact hvouches.1 _ _ _ _ _ _ honours_slowParser forwards_slowS3Handler
  · obtain ⟨c, hc, hself, hall⟩ :=
      exists_reachable_alone (WebUI.uiSystem slowGateway.uiConfig fun _ _ _ => True)
      { now := 0 } slowArrival
    refine hvouches.2 _ 0 c hc ?_ 0 slowArrival _ _ _ _ hself (slowArrival_nextCall _) rfl
    intro i a p hthread
    rw [hall i a p hthread]
    exact ⟨slowParser, honours_slowParser, rfl⟩

end PierGateway.Settings
