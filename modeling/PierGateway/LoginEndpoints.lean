import PierGateway.Claims
import PierGateway.OidcHandlers
import PierGateway.Settings

/-!
# What the gateway starts with

`main` builds two things from the configuration: the verifier, from the resolved
settings, and the login flow, whose endpoints are always those of the Keycloak realm.
A start therefore binds tokens to an issuer and an audience and fetches its keys from
a checked URL, while the endpoints of the login are as secure as `KEYCLOAK_URL`.
-/
namespace PierGateway.Auth
open GoStrings

structure OIDCConfig where
  keycloakURL : Str
  realm : Str
  clientID : Str
  clientSecret : Str
  redirectURI : Str
  issuerURL : Str
  authURL : Str
  tokenURL : Str
  endSessionURL : Str
  jwksURL : Str
deriving DecidableEq

def issuerURL (keycloakURL realm : Str) : Str :=
  trimRight slash keycloakURL ++ str "/realms/" ++ realm

def newOIDCConfig (keycloakURL realm clientID clientSecret redirectURI : Str) : OIDCConfig :=
  let issuer := issuerURL keycloakURL realm
  let base := issuer ++ str "/protocol/openid-connect"
  { keycloakURL := keycloakURL
    realm := realm
    clientID := clientID
    clientSecret := clientSecret
    redirectURI := redirectURI
    issuerURL := issuer
    authURL := base ++ str "/auth"
    tokenURL := base ++ str "/token"
    endSessionURL := base ++ str "/logout"
    jwksURL := base ++ str "/certs" }

/-- What the handlers of the web interface read of it. -/
def OIDCConfig.forHandlers (cfg : OIDCConfig) : WebUI.OIDCConfig where
  clientID := cfg.clientID
  redirectURI := cfg.redirectURI
  authURL := cfg.authURL
  endSessionURL := cfg.endSessionURL

/-- The verifier, with the URL its keys are fetched from in place of the key set. -/
structure JWKSVerifier where
  jwksURL : Str
  expectedIssuer : Str
  expectedAudience : Str
deriving DecidableEq

inductive ParserOption where
  | validMethods (methods : List Str)
  | expirationRequired
  | issuer (expected : Str)
  | audience (expected : Str)
deriving DecidableEq

def JWKSVerifier.parserOptions (v : JWKSVerifier) : List ParserOption :=
  [.validMethods [str "RS256", str "RS384", str "RS512"], .expirationRequired] ++
    (if v.expectedIssuer ≠ [] then [.issuer v.expectedIssuer] else []) ++
    if v.expectedAudience ≠ [] then [.audience v.expectedAudience] else []

/-- A parsed token; the claims are `none` when they are of another type. -/
structure ParsedToken where
  claims : Option MapClaims
  valid : Bool

/-- `jwt.Parse` over the keys of a URL. -/
abbrev Parser := Str → Str → List ParserOption → Except Str ParsedToken

def JWKSVerifier.verifyToken (v : JWKSVerifier) (parse : Parser) (tokenString : Str) :
    Except Str MapClaims :=
  match parse v.jwksURL tokenString v.parserOptions with
  | .error err => .error (str "token verification failed: " ++ err)
  | .ok token =>
      match token.claims, token.valid with
      | some claims, true => .ok claims
      | _, _ => .error (str "invalid token claims")

/-- Accepted claims went through the parser with the options of the verifier. -/
theorem JWKSVerifier.verifyToken_ok {v : JWKSVerifier} {parse : Parser} {tokenString : Str}
    {claims : MapClaims} (h : v.verifyToken parse tokenString = .ok claims) :
    ∃ token, parse v.jwksURL tokenString v.parserOptions = .ok token ∧ token.valid = true ∧
      token.claims = some claims := by
  unfold JWKSVerifier.verifyToken at h
  split at h
  · cases h
  next token hparse =>
    split at h
    next c hclaims hvalid =>
      obtain rfl := Except.ok.inj h
      exact ⟨token, hparse, hvalid, hclaims⟩
    · cases h

end PierGateway.Auth

namespace PierGateway.Settings
open GoStrings NetUrl Schemes Auth
open Interaction (Prog)

/-! ### Wiring -/

/-- What `main` makes of a configuration and its settings. -/
structure Wiring where
  oidcCfg : OIDCConfig
  claimMapper : ClaimMapper
  verifier : JWKSVerifier

def Config.wiring (c : Config) (s : OIDCSettings) : Wiring where
  oidcCfg := newOIDCConfig c.keycloakURL c.keycloakRealm s.clientID c.keycloakClientSecret
    c.oidcRedirectURI
  claimMapper := { usernameClaim := s.usernameClaim, groupsClaim := s.groupsClaim }
  verifier := { jwksURL := s.jwksURL, expectedIssuer := s.issuer, expectedAudience := s.audience }

theorem wiring_verifier (c : Config) (s : OIDCSettings) :
    (c.wiring s).verifier = ⟨s.jwksURL, s.issuer, s.audience⟩ := rfl

/-- The start of `main` on a configuration: validation, resolution, wiring. -/
def Config.start (c : Config) : Fetching (Except ConfigError Wiring) :=
  match c.validate with
  | .error e => .done (.error e)
  | .ok _ => c.resolveOIDC.bind fun r => .done (r.map c.wiring)

def start (env : Environment) : Fetching (Except ConfigError Wiring) := (load env).start

/-- With the fallbacks set nothing is left open. -/
theorem layered_not_blank {c : Config} (h : ∀ f ∈ c.required, ¬Blank f.2) :
    ¬Blank c.layered.issuer ∧ ¬Blank c.layered.jwksURL ∧ ¬Blank c.layered.audience := by
  obtain ⟨-, -, hurl, hrealm, hclient, hjwks⟩ : ¬Blank c.s3AccessKey ∧ ¬Blank c.s3SecretKey ∧
      ¬Blank c.keycloakURL ∧ ¬Blank c.keycloakRealm ∧ ¬Blank c.keycloakClientID ∧
      ¬Blank c.keycloakJWKSURL := by
    simpa [Config.required] using h
  have hlast : ∀ v w : Str, ¬Blank w → ¬Blank (firstNonEmpty [v, w]) := by
    intro v w hw hblank
    exact hw ((blank_firstNonEmpty_iff _).mp hblank w (by simp))
  rw [layered_issuer, layered_jwksURL, layered_audience]
  exact ⟨hlast _ _ (derived_not_blank hurl hrealm), hlast _ _ hjwks, hlast _ _ (hlast _ _ hclient)⟩

theorem start_ok {c : Config} {reply : Str → DiscoveryReply} {w : Wiring}
    (h : c.start.eval reply = .ok w) :
    (∀ f ∈ c.required, ¬Blank f.2) ∧ c.start = .done (.ok w) ∧ w = c.wiring c.layered ∧
      SecureURL c.oidcAllowInsecure c.layered.issuer ∧
      SecureURL c.oidcAllowInsecure c.layered.jwksURL := by
  cases hv : c.validate with
  | error e =>
      rw [Config.start, hv] at h
      cases h
  | ok u =>
      have hreq := (validate_eq_ok_iff c).mp hv
      obtain ⟨hissuer, hjwks, -⟩ := layered_not_blank hreq
      have hclosed : ¬c.discovers := by
        rintro ⟨-, hopen⟩
        rcases hopen with hopen | hopen
        · exact hissuer (hopen ▸ blank_nil)
        · exact hjwks (hopen ▸ blank_nil)
      have hresolve : c.resolveOIDC = .done (c.checked c.layered) := if_neg hclosed
      have hstart : c.start = .done ((c.checked c.layered).map c.wiring) := by
        rw [Config.start, hv]
        dsimp only
        rw [hresolve, Prog.bind_done]
      rw [hstart, Prog.eval_done] at h
      obtain ⟨s, hchecked, rfl⟩ := map_eq_ok_iff.mp h
      obtain ⟨rfl, hi, hj⟩ := checked_ok hchecked
      refine ⟨hreq, ?_, rfl, hi.resolve_left hissuer, hj.resolve_left hjwks⟩
      rw [hstart, h]

theorem start_eval {c : Config} {reply : Str → DiscoveryReply} {s : OIDCSettings}
    (hv : c.validate = .ok ()) (hr : c.resolveOIDC.eval reply = .ok s) :
    c.start.eval reply = .ok (c.wiring s) := by
  unfold Config.start
  rw [hv]
  dsimp only
  rw [Prog.eval_bind, hr, Prog.eval_done]
  rfl

/-! ### The verifier -/

theorem mem_parserOptions {v : JWKSVerifier} :
    (v.expectedIssuer ≠ [] → .issuer v.expectedIssuer ∈ v.parserOptions) ∧
      (v.expectedAudience ≠ [] → .audience v.expectedAudience ∈ v.parserOptions) := by
  unfold JWKSVerifier.parserOptions
  constructor
  · intro h
    simp [h]
  · intro h
    simp [h]

theorem SecureURL.scheme {allowInsecure : Bool} {raw : Str} (h : SecureURL allowInsecure raw) :
    (allowInsecure = false → urlScheme raw = some (str "https")) ∧
      (urlScheme raw = some (str "https") ∨ urlScheme raw = some (str "http")) := by
  rcases h with h | ⟨hallow, h⟩
  · exact ⟨fun _ => h, .inl h⟩
  · refine ⟨fun hnot => ?_, .inr h⟩
    rw [hnot] at hallow
    cases hallow

theorem not_nil_of_not_blank {s : Str} (h : ¬Blank s) : s ≠ [] := fun hs => h (hs ▸ blank_nil)

/-- A gateway that starts checks the issuer and the audience of every token and takes its keys
from a URL whose scheme was checked, for every environment and every discovery reply. -/
theorem start_binds_tokens {env : Environment} {reply : Str → DiscoveryReply} {w : Wiring}
    (h : (start env).eval reply = .ok w) :
    (¬Blank w.verifier.expectedIssuer ∧ ¬Blank w.verifier.jwksURL ∧
      ¬Blank w.verifier.expectedAudience) ∧
    (ParserOption.issuer w.verifier.expectedIssuer ∈ w.verifier.parserOptions ∧
      ParserOption.audience w.verifier.expectedAudience ∈ w.verifier.parserOptions) ∧
    ∀ url ∈ [w.verifier.expectedIssuer, w.verifier.jwksURL],
      ((load env).oidcAllowInsecure = false → urlScheme url = some (str "https")) ∧
        (urlScheme url = some (str "https") ∨ urlScheme url = some (str "http")) := by
  obtain ⟨hreq, -, rfl, hi, hj⟩ := start_ok h
  obtain ⟨hissuer, hjwks, haudience⟩ := layered_not_blank hreq
  generalize (load env).layered = settings at hi hj hissuer hjwks haudience
  rw [wiring_verifier]
  refine ⟨⟨hissuer, hjwks, haudience⟩, ⟨?_, ?_⟩, ?_⟩
  · exact mem_parserOptions.1 (not_nil_of_not_blank hissuer)
  · exact mem_parserOptions.2 (not_nil_of_not_blank haudience)
  · intro url hurl
    simp only [List.mem_cons, List.not_mem_nil, or_false] at hurl
    rcases hurl with rfl | rfl
    · exact hi.scheme
    · exact hj.scheme

/-- An environment that sets the fallbacks and nothing else. -/
def fallbackEnv : Environment := fun key =>
  if key = str "S3_ACCESS_KEY" then str "a"
  else if key = str "S3_SECRET_KEY" then str "s"
  else if key = str "KEYCLOAK_URL" then str "https://kc/"
  else if key = str "KEYCLOAK_REALM" then str "r"
  else if key = str "KEYCLOAK_CLIENT_ID" then str "c"
  else if key = str "KEYCLOAK_JWKS_URL" then str "https://kc/k"
  else []

theorem fallbackEnv_facts :
    (load fallbackEnv).validate = .ok () ∧
      (load fallbackEnv).resolveOIDC.eval noDiscovery = .ok fallbackSettings := by
  decide +kernel

theorem start_binds_tokens_fallbackEnv :
    let v := ((load fallbackEnv).wiring fallbackSettings).verifier
    (¬Blank v.expectedIssuer ∧ ¬Blank v.jwksURL ∧ ¬Blank v.expectedAudience) ∧
      (ParserOption.issuer v.expectedIssuer ∈ v.parserOptions ∧
        ParserOption.audience v.expectedAudience ∈ v.parserOptions) ∧
      ∀ url ∈ [v.expectedIssuer, v.jwksURL],
        ((load fallbackEnv).oidcAllowInsecure = false → urlScheme url = some (str "https")) ∧
          (urlScheme url = some (str "https") ∨ urlScheme url = some (str "http")) :=
  start_binds_tokens (start_eval fallbackEnv_facts.1 fallbackEnv_facts.2)

/-! ### The login flow -/

/-- The URLs of the identity provider that the process sends something to or trusts. -/
def Wiring.identityURLs (w : Wiring) : List Str :=
  [w.verifier.expectedIssuer, w.verifier.jwksURL, w.oidcCfg.authURL, w.oidcCfg.tokenURL]

theorem urlScheme_endpoint (keycloakURL realm tail : Str) :
    urlScheme (issuerURL keycloakURL realm ++ str "/protocol/openid-connect" ++ tail) =
      urlScheme keycloakURL := by
  have hrealms : str "/realms/" = slash :: str "realms/" := rfl
  unfold issuerURL
  rw [hrealms, List.append_assoc, List.append_assoc, List.append_assoc, List.cons_append]
  exact urlScheme_trimRight keycloakURL _

theorem urlScheme_login (keycloakURL realm clientID clientSecret redirectURI : Str) :
    let cfg := newOIDCConfig keycloakURL realm clientID clientSecret redirectURI
    urlScheme cfg.authURL = urlScheme keycloakURL ∧
      urlScheme cfg.tokenURL = urlScheme keycloakURL :=
  ⟨urlScheme_endpoint keycloakURL realm _, urlScheme_endpoint keycloakURL realm _⟩

/-- The login sends the browser, and with it the challenge, to a URL of that scheme. -/
theorem urlScheme_redirect {c : Config} {s : OIDCSettings} {r : WebUI.UIRequest}
    {reply : ∀ op, WebUI.Reply op} {location : Str}
    (h : ((WebUI.handleLogin (some (c.wiring s).oidcCfg.forHandlers) r).eval reply).payload =
      .redirect location) : urlScheme location = urlScheme c.keycloakURL := by
  unfold WebUI.handleLogin WebUI.randomURLSafe at h
  dsimp only [Prog.eval] at h
  split at h
  · cases h
  next codeVerifier _ =>
    dsimp only [Prog.eval] at h
    split at h
    · cases h
    next state _ =>
      obtain rfl := WebUI.Payload.redirect.inj h
      rw [OIDCConfig.forHandlers]
      dsimp only [Config.wiring, newOIDCConfig]
      rw [List.append_assoc]
      exact urlScheme_endpoint c.keycloakURL c.keycloakRealm _

/-- With plaintext not allowed, every URL wired or fetched has scheme https exactly when
`KEYCLOAK_URL` has, whatever issuer the tokens are checked against. -/
theorem identityURLs_https_iff {c : Config} {reply : Str → DiscoveryReply} {w : Wiring}
    (hsecure : c.oidcAllowInsecure = false) (h : c.start.eval reply = .ok w) :
    (∀ url, url ∈ w.identityURLs ∨ c.start.Issues url → urlScheme url = some (str "https")) ↔
      urlScheme c.keycloakURL = some (str "https") := by
  obtain ⟨-, hstart, rfl, hi, hj⟩ := start_ok h
  obtain ⟨hauth, htoken⟩ := urlScheme_login c.keycloakURL c.keycloakRealm c.layered.clientID
    c.keycloakClientSecret c.oidcRedirectURI
  generalize c.layered = settings at hstart hi hj hauth htoken
  constructor
  · intro hall
    have hlogin := hall (c.wiring settings).oidcCfg.authURL (.inl (by simp [Wiring.identityURLs]))
    rwa [← hauth]
  · intro hkeycloak url hurl
    rcases hurl with hurl | hurl
    · simp only [Wiring.identityURLs, List.mem_cons, List.not_mem_nil, or_false] at hurl
      rcases hurl with rfl | rfl | rfl | rfl
      · exact hi.scheme.1 hsecure
      · exact hj.scheme.1 hsecure
      · exact hauth.trans hkeycloak
      · exact htoken.trans hkeycloak
    · rw [hstart] at hurl
      cases hurl

/-- A provider over TLS next to a Keycloak URL without it. -/
def plaintextLogin : Config where
  s3AccessKey := str "a"
  s3SecretKey := str "s"
  keycloakURL := str "http://kc"
  keycloakRealm := str "r"
  keycloakClientID := str "c"
  keycloakJWKSURL := str "http://kc/k"
  oidcIssuer := str "https://idp"
  oidcJWKSURL := str "https://idp/k"

theorem plaintextLogin_facts :
    plaintextLogin.validate = .ok () ∧
      plaintextLogin.resolveOIDC.eval noDiscovery = .ok plaintextLogin.layered ∧
      urlScheme plaintextLogin.keycloakURL ≠ some (str "https") := by
  decide +kernel

theorem identityURLs_https_iff_plaintextLogin :
    (∀ url, url ∈ (plaintextLogin.wiring plaintextLogin.layered).identityURLs ∨
        plaintextLogin.start.Issues url → urlScheme url = some (str "https")) ↔
      urlScheme plaintextLogin.keycloakURL = some (str "https") :=
  identityURLs_https_iff rfl (start_eval plaintextLogin_facts.1 plaintextLogin_facts.2.1)

theorem identityURLs_not_always_https :
    ¬∀ (c : Config) (reply : Str → DiscoveryReply) (w : Wiring), c.oidcAllowInsecure = false →
      c.start.eval reply = .ok w → ∀ url, url ∈ w.identityURLs ∨ c.start.Issues url →
        urlScheme url = some (str "https") := by
  intro hall
  obtain ⟨hv, hr, hscheme⟩ := plaintextLogin_facts
  have hauth := (urlScheme_login plaintextLogin.keycloakURL plaintextLogin.keycloakRealm
    plaintextLogin.layered.clientID plaintextLogin.keycloakClientSecret
    plaintextLogin.oidcRedirectURI).1
  have hlogin := hall _ _ _ rfl (start_eval hv hr) _ (.inl (by
    unfold Wiring.identityURLs
    exact List.mem_cons_of_mem _ (List.mem_cons_of_mem _ List.mem_cons_self)))
  exact hscheme (hauth.symm.trans hlogin)

end PierGateway.Settings
