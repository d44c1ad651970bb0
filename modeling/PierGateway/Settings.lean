import PierGateway.Interaction
import PierGateway.Schemes

/-!
# Configuration and the identity provider

The configuration is read from the environment, checked for required fields and
resolved into the settings of the identity provider, with a discovery document
where something is still open. Fetching the document is a call; its reply is what
the client and the JSON decoder make of the answer. The two checks, `validate` and
`resolveOIDC`, are written apart and agree only where the required fields are set.
-/
namespace PierGateway.Settings
open GoStrings GoUnicode NetUrl Schemes
open Interaction (Prog)

/-! ### The environment -/

structure Config where
  s3Endpoint : Str := []
  s3AccessKey : Str := []
  s3SecretKey : Str := []
  s3Region : Str := []
  keycloakURL : Str := []
  keycloakRealm : Str := []
  keycloakClientID : Str := []
  keycloakClientSecret : Str := []
  keycloakJWKSURL : Str := []
  oidcIssuer : Str := []
  oidcJWKSURL : Str := []
  oidcAudience : Str := []
  oidcClientID : Str := []
  oidcUsernameClaim : Str := []
  oidcGroupsClaim : Str := []
  oidcDiscoveryURL : Str := []
  oidcAllowInsecure : Bool := false
  oidcRedirectURI : Str := []
  bucketQuotasRaw : Str := []
  listenS3Addr : Str := []
  listenUIAddr : Str := []
  listenHealthAddr : Str := []
  logLevel : Str := []
deriving DecidableEq

def defaultS3Endpoint : Str := str "http://seaweedfs:8333"
def defaultS3Region : Str := str "us-east-1"
def defaultListenS3Addr : Str := str ":8080"
def defaultListenUIAddr : Str := str ":8081"
def defaultListenHealthAddr : Str := str ":8082"
def defaultLogLevel : Str := str "info"

/-- What `os.Getenv` returns for every name; an unset variable reads as empty. -/
abbrev Environment := Str → Str

def getEnv (env : Environment) (key fallback : Str) : Str :=
  if env key ≠ [] then env key else fallback

def isTruthy (v : Str) : Bool :=
  toLower (trimSpace v) ∈ [str "true", str "1", str "yes", str "on"]

def load (env : Environment) : Config where
  s3Endpoint := getEnv env (str "S3_ENDPOINT") defaultS3Endpoint
  s3AccessKey := getEnv env (str "S3_ACCESS_KEY") []
  s3SecretKey := getEnv env (str "S3_SECRET_KEY") []
  s3Region := getEnv env (str "S3_REGION") defaultS3Region
  keycloakURL := getEnv env (str "KEYCLOAK_URL") []
  keycloakRealm := getEnv env (str "KEYCLOAK_REALM") []
  keycloakClientID := getEnv env (str "KEYCLOAK_CLIENT_ID") []
  keycloakClientSecret := getEnv env (str "KEYCLOAK_CLIENT_SECRET") []
  keycloakJWKSURL := getEnv env (str "KEYCLOAK_JWKS_URL") []
  oidcIssuer := getEnv env (str "OIDC_ISSUER") []
  oidcJWKSURL := getEnv env (str "OIDC_JWKS_URL") []
  oidcAudience := getEnv env (str "OIDC_AUDIENCE") []
  oidcClientID := getEnv env (str "OIDC_CLIENT_ID") []
  oidcUsernameClaim := getEnv env (str "OIDC_USERNAME_CLAIM") []
  oidcGroupsClaim := getEnv env (str "OIDC_GROUPS_CLAIM") []
  oidcDiscoveryURL := getEnv env (str "OIDC_DISCOVERY_URL") []
  oidcAllowInsecure := isTruthy (getEnv env (str "OIDC_ALLOW_INSECURE") [])
  oidcRedirectURI := getEnv env (str "OIDC_REDIRECT_URI") []
  bucketQuotasRaw := getEnv env (str "BUCKET_QUOTAS") []
  listenS3Addr := getEnv env (str "LISTEN_S3_ADDR") defaultListenS3Addr
  listenUIAddr := getEnv env (str "LISTEN_UI_ADDR") defaultListenUIAddr
  listenHealthAddr := getEnv env (str "LISTEN_HEALTH_ADDR") defaultListenHealthAddr
  logLevel := getEnv env (str "LOG_LEVEL") defaultLogLevel

/-! ### Errors -/

inductive URLError where
  | invalid (label raw : Str)
  | insecure (label raw : Str)
  | unsupported (label scheme : Str)
deriving DecidableEq

inductive DiscoveryError where
  | fetching (url cause : Str)
  | reading (cause : Str)
  | status (url : Str) (code : ℕ)
  | parsing (cause : Str)
  | empty (url : Str)
deriving DecidableEq

inductive ConfigError where
  | missing (vars : List Str)
  | discoveryURL (error : URLError)
  | discovery (error : DiscoveryError)
  | issuerMismatch (discovered configured : Str)
  | insecureURLs (errors : List URLError)
deriving DecidableEq

/-- What the messages need of other packages: the verb `%q` and the text of the error with
which `url.Parse` rejects an argument. -/
structure Formatting where
  quote : Str → Str
  parseError : Str → Str

def URLError.message (f : Formatting) : URLError → Str
  | .invalid label raw =>
      label ++ str " is not a valid URL (" ++ f.quote raw ++ str "): " ++ f.parseError raw
  | .insecure label raw => label ++ str " uses insecure http (" ++ f.quote raw ++ str ")"
  | .unsupported label scheme =>
      label ++ str " has unsupported scheme " ++ f.quote scheme ++ str " (want https)"

def DiscoveryError.message : DiscoveryError → Str
  | .fetching url cause => str "fetching " ++ url ++ str ": " ++ cause
  | .reading cause => str "reading discovery response: " ++ cause
  | .status url code =>
      str "discovery endpoint " ++ url ++ str " returned " ++ str (Nat.repr code)
  | .parsing cause => str "parsing discovery document: " ++ cause
  | .empty url =>
      str "discovery document from " ++ url ++ str " contained neither issuer nor jwks_uri"

def ConfigError.message (f : Formatting) : ConfigError → Str
  | .missing vars =>
      str "config: missing required environment variables: " ++ (str ", ").intercalate vars
  | .discoveryURL error => error.message f
  | .discovery error => str "oidc discovery: " ++ error.message
  | .issuerMismatch discovered configured =>
      str "oidc discovery: discovered issuer " ++ f.quote discovered ++
        str " does not match configured issuer " ++ f.quote configured
  | .insecureURLs errors =>
      str "insecure OIDC configuration: " ++
        (str "; ").intercalate (errors.map (URLError.message f)) ++
        str " (set OIDC_ALLOW_INSECURE=true only for local dev)"

/-! ### Validation -/

/-- The required variables with the values they were read into. -/
def Config.required (c : Config) : List (Str × Str) :=
  [(str "S3_ACCESS_KEY", c.s3AccessKey), (str "S3_SECRET_KEY", c.s3SecretKey),
    (str "KEYCLOAK_URL", c.keycloakURL), (str "KEYCLOAK_REALM", c.keycloakRealm),
    (str "KEYCLOAK_CLIENT_ID", c.keycloakClientID), (str "KEYCLOAK_JWKS_URL", c.keycloakJWKSURL)]

def Config.validate (c : Config) : Except ConfigError Unit :=
  let missing := (c.required.filter fun f => trimSpace f.2 = []).map Prod.fst
  if missing ≠ [] then .error (.missing missing) else .ok ()

/-! ### Resolution -/

structure OIDCSettings where
  issuer : Str := []
  jwksURL : Str := []
  audience : Str := []
  clientID : Str := []
  usernameClaim : Str := []
  groupsClaim : Str := []
deriving DecidableEq

def firstNonEmpty : List Str → Str
  | [] => []
  | v :: values => if trimSpace v ≠ [] then v else firstNonEmpty values

def deriveKeycloakIssuer (keycloakURL realm : Str) : Str :=
  if trimSpace keycloakURL = [] ∨ trimSpace realm = [] then []
  else trimRight slash keycloakURL ++ str "/realms/" ++ realm

def requireSecureURL (label raw : Str) (allowInsecure : Bool) : Except URLError Unit :=
  if trimSpace raw = [] then .ok ()
  else
    match urlParse raw with
    | none => .error (.invalid label raw)
    | some u =>
        if toLower u.scheme = str "https" then .ok ()
        else if toLower u.scheme = str "http" then
          if allowInsecure then .ok () else .error (.insecure label raw)
        else .error (.unsupported label u.scheme)

/-- Both URLs are looked at before anything is reported. -/
def Config.validateOIDCURLs (c : Config) (s : OIDCSettings) : Except ConfigError Unit :=
  let errs := [(str "OIDC issuer", s.issuer), (str "OIDC JWKS URL", s.jwksURL)].filterMap fun f =>
    match requireSecureURL f.1 f.2 c.oidcAllowInsecure with
    | .ok _ => none
    | .error e => some e
  if errs ≠ [] then .error (.insecureURLs errs) else .ok ()

structure DiscoveryDoc where
  issuer : Str := []
  jwksURL : Str := []
deriving DecidableEq

/-- What comes of fetching a document: no response, a body that breaks off, or a response
with what the decoder makes of its body. -/
inductive DiscoveryReply where
  | fetchError (cause : Str)
  | readError (cause : Str)
  | response (status : ℕ) (document : Except Str DiscoveryDoc)

def wellKnownPath : Str := str "/.well-known/openid-configuration"

/-- Programs that fetch URLs. -/
abbrev Fetching (α : Type) := Prog Str (fun _ => DiscoveryReply) α

def documentURL (discoveryURL : Str) : Str :=
  if (cutStr (str "/.well-known/") discoveryURL).isSome then discoveryURL
  else trimRight slash discoveryURL ++ wellKnownPath

def discoverOIDC (discoveryURL : Str) : Fetching (Except DiscoveryError DiscoveryDoc) :=
  let url := documentURL discoveryURL
  .call url fun reply =>
    .done (match reply with
      | .fetchError cause => .error (.fetching url cause)
      | .readError cause => .error (.reading cause)
      | .response status document =>
          if status ≠ 200 then .error (.status url status)
          else
            match document with
            | .error cause => .error (.parsing cause)
            | .ok doc =>
                if doc.issuer = [] ∧ doc.jwksURL = [] then .error (.empty url) else .ok doc)

/-- The settings before discovery: each `OIDC_*` value over its fallback. -/
def Config.layered (c : Config) : OIDCSettings :=
  let clientID := firstNonEmpty [c.oidcClientID, c.keycloakClientID]
  { clientID := clientID
    audience := firstNonEmpty [c.oidcAudience, clientID]
    issuer := firstNonEmpty [c.oidcIssuer, deriveKeycloakIssuer c.keycloakURL c.keycloakRealm]
    jwksURL := firstNonEmpty [c.oidcJWKSURL, c.keycloakJWKSURL]
    usernameClaim := c.oidcUsernameClaim
    groupsClaim := c.oidcGroupsClaim }

theorem layered_issuer (c : Config) : c.layered.issuer =
    firstNonEmpty [c.oidcIssuer, deriveKeycloakIssuer c.keycloakURL c.keycloakRealm] := rfl

theorem layered_jwksURL (c : Config) :
    c.layered.jwksURL = firstNonEmpty [c.oidcJWKSURL, c.keycloakJWKSURL] := rfl

theorem layered_audience (c : Config) : c.layered.audience =
    firstNonEmpty [c.oidcAudience, firstNonEmpty [c.oidcClientID, c.keycloakClientID]] := rfl

/-- Discovery is configured and something is open. -/
def Config.discovers (c : Config) : Prop :=
  c.oidcDiscoveryURL ≠ [] ∧ (c.layered.issuer = [] ∨ c.layered.jwksURL = [])

instance (c : Config) : Decidable c.discovers := inferInstanceAs (Decidable (_ ∧ _))

/-- The configured issuer and the discovered one are both there and differ. -/
def IssuersDiffer (s : OIDCSettings) (doc : DiscoveryDoc) : Prop :=
  s.issuer ≠ [] ∧ doc.issuer ≠ [] ∧ trimRight slash s.issuer ≠ trimRight slash doc.issuer

instance (s : OIDCSettings) (doc : DiscoveryDoc) : Decidable (IssuersDiffer s doc) :=
  inferInstanceAs (Decidable (_ ∧ _))

/-- What is open is filled from the document. -/
def OIDCSettings.fill (s : OIDCSettings) (doc : DiscoveryDoc) : OIDCSettings :=
  { s with
    issuer := if s.issuer = [] then doc.issuer else s.issuer
    jwksURL := if s.jwksURL = [] then doc.jwksURL else s.jwksURL }

theorem fill_issuer (s : OIDCSettings) (doc : DiscoveryDoc) :
    (s.fill doc).issuer = if s.issuer = [] then doc.issuer else s.issuer := rfl

theorem fill_jwksURL (s : OIDCSettings) (doc : DiscoveryDoc) :
    (s.fill doc).jwksURL = if s.jwksURL = [] then doc.jwksURL else s.jwksURL := rfl

def Config.checked (c : Config) (s : OIDCSettings) : Except ConfigError OIDCSettings :=
  (c.validateOIDCURLs s).map fun _ => s

def Config.resolveOIDC (c : Config) : Fetching (Except ConfigError OIDCSettings) :=
  if c.discovers then
    match requireSecureURL (str "OIDC discovery URL") c.oidcDiscoveryURL c.oidcAllowInsecure with
    | .error e => .done (.error (.discoveryURL e))
    | .ok _ =>
        (discoverOIDC c.oidcDiscoveryURL).bind fun disc =>
          match disc with
          | .error e => .done (.error (.discovery e))
          | .ok doc =>
              if IssuersDiffer c.layered doc then
                .done (.error (.issuerMismatch doc.issuer c.layered.issuer))
              else .done (c.checked (c.layered.fill doc))
  else .done (c.checked c.layered)

/-! ### What the two checks establish -/

theorem mem_required_blank {c : Config} {var : Str} :
    var ∈ (c.required.filter fun f => trimSpace f.2 = []).map Prod.fst ↔
      ∃ value, (var, value) ∈ c.required ∧ Blank value := by
  simp [Blank]

/-- Validation passes exactly when every required variable is set to something, and else
names those that are not. -/
theorem validate_eq_ok_iff (c : Config) :
    c.validate = .ok () ↔ ∀ f ∈ c.required, ¬Blank f.2 := by
  unfold Config.validate
  dsimp only
  split_ifs with hmissing
  · refine iff_of_false (fun h => nomatch h) fun hall => hmissing ?_
    rw [List.map_eq_nil_iff, List.filter_eq_nil_iff]
    intro f hf
    simpa [Blank] using hall f hf
  · refine iff_of_true rfl fun f hf hblank => hmissing ?_
    have hvar : f.1 ∈ (c.required.filter fun f => trimSpace f.2 = []).map Prod.fst :=
      mem_required_blank.mpr ⟨f.2, hf, hblank⟩
    exact List.ne_nil_of_mem hvar

theorem blank_firstNonEmpty_iff (values : List Str) :
    Blank (firstNonEmpty values) ↔ ∀ v ∈ values, Blank v := by
  induction values with
  | nil => simp [firstNonEmpty, blank_nil]
  | cons v values ih =>
      rw [firstNonEmpty]
      split_ifs with hv
      · simp only [List.mem_cons, forall_eq_or_imp]
        exact iff_of_false hv fun h => hv h.1
      · rw [ih]
        simp only [List.mem_cons, forall_eq_or_imp]
        exact (and_iff_right (not_not.mp hv)).symm

theorem deriveKeycloakIssuer_eq {keycloakURL realm : Str} (hurl : ¬Blank keycloakURL)
    (hrealm : ¬Blank realm) :
    deriveKeycloakIssuer keycloakURL realm =
      trimRight slash keycloakURL ++ slash :: (str "realms/" ++ realm) := by
  have htext : str "/realms/" = slash :: str "realms/" := rfl
  have hset : ¬(trimSpace keycloakURL = [] ∨ trimSpace realm = []) := not_or.mpr ⟨hurl, hrealm⟩
  unfold deriveKeycloakIssuer
  rw [if_neg hset, htext]
  simp

theorem derived_not_blank {keycloakURL realm : Str} (hurl : ¬Blank keycloakURL)
    (hrealm : ¬Blank realm) : ¬Blank (deriveKeycloakIssuer keycloakURL realm) := by
  rw [deriveKeycloakIssuer_eq hurl hrealm]
  exact not_blank_of_mem (c := slash) (by decide) (by decide)
    (List.mem_append_right _ List.mem_cons_self)

/-- The scheme is https, or http where that is allowed. -/
def SecureURL (allowInsecure : Bool) (raw : Str) : Prop :=
  urlScheme raw = some (str "https") ∨ (allowInsecure = true ∧ urlScheme raw = some (str "http"))

theorem requireSecureURL_ok {label raw : Str} {allowInsecure : Bool} {u : Unit}
    (h : requireSecureURL label raw allowInsecure = .ok u) :
    Blank raw ∨ SecureURL allowInsecure raw := by
  unfold requireSecureURL at h
  by_cases hblank : trimSpace raw = []
  · exact .inl hblank
  · rw [if_neg hblank] at h
    cases hu : urlParse raw with
    | none =>
        rw [hu] at h
        cases h
    | some v =>
        rw [hu] at h
        dsimp only at h
        rw [toLower_scheme hu] at h
        have hscheme := urlScheme_of_parse hu
        split_ifs at h with hhttps hhttp hallow
        · exact .inr (.inl (hhttps ▸ hscheme))
        · exact .inr (.inr ⟨hallow, hhttp ▸ hscheme⟩)

theorem validateOIDCURLs_ok {c : Config} {s : OIDCSettings} {u : Unit}
    (h : c.validateOIDCURLs s = .ok u) :
    (Blank s.issuer ∨ SecureURL c.oidcAllowInsecure s.issuer) ∧
      (Blank s.jwksURL ∨ SecureURL c.oidcAllowInsecure s.jwksURL) := by
  unfold Config.validateOIDCURLs at h
  dsimp only at h
  split_ifs at h with herrs
  rw [not_not, List.filterMap_eq_nil_iff] at herrs
  have hok : ∀ f ∈ [(str "OIDC issuer", s.issuer), (str "OIDC JWKS URL", s.jwksURL)],
      Blank f.2 ∨ SecureURL c.oidcAllowInsecure f.2 := by
    intro f hf
    have hnone := herrs f hf
    cases hcheck : requireSecureURL f.1 f.2 c.oidcAllowInsecure with
    | ok u => exact requireSecureURL_ok hcheck
    | error e =>
        rw [hcheck] at hnone
        cases hnone
  have hissuer := hok (str "OIDC issuer", s.issuer) List.mem_cons_self
  have hjwks := hok (str "OIDC JWKS URL", s.jwksURL) (List.mem_cons_of_mem _ List.mem_cons_self)
  exact ⟨hissuer, hjwks⟩

theorem map_eq_ok_iff {ε α β : Type} {f : α → β} {x : Except ε α} {b : β} :
    x.map f = .ok b ↔ ∃ a, x = .ok a ∧ f a = b := by
  cases x with
  | error e => simp [Except.map]
  | ok a => simp [Except.map]

theorem checked_ok {c : Config} {s s' : OIDCSettings} (h : c.checked s = .ok s') :
    s' = s ∧ (Blank s.issuer ∨ SecureURL c.oidcAllowInsecure s.issuer) ∧
      (Blank s.jwksURL ∨ SecureURL c.oidcAllowInsecure s.jwksURL) := by
  obtain ⟨u, hurls, rfl⟩ := map_eq_ok_iff.mp h
  exact ⟨rfl, validateOIDCURLs_ok hurls⟩

/-- Everything a successful resolution can have done. -/
theorem resolve_cases {c : Config} {reply : Str → DiscoveryReply} {s : OIDCSettings}
    (h : c.resolveOIDC.eval reply = .ok s) :
    (¬c.discovers ∧ c.checked c.layered = .ok s) ∨
      ∃ doc, c.discovers ∧ (discoverOIDC c.oidcDiscoveryURL).eval reply = .ok doc ∧
        ¬IssuersDiffer c.layered doc ∧ c.checked (c.layered.fill doc) = .ok s := by
  unfold Config.resolveOIDC at h
  split_ifs at h with hdisc
  · split at h
    · cases h
    · rw [Prog.eval_bind] at h
      cases hdoc : (discoverOIDC c.oidcDiscoveryURL).eval reply with
      | error e =>
          rw [hdoc] at h
          cases h
      | ok doc =>
          rw [hdoc] at h
          dsimp only at h
          split_ifs at h with hdiffer
          · cases h
          · rw [Prog.eval_done] at h
            exact .inr ⟨doc, hdisc, rfl, hdiffer, h⟩
  · rw [Prog.eval_done] at h
    exact .inl ⟨hdisc, h⟩

/-! ### Where the checks disagree -/

/-- On settings that resolve to an issuer, keys and an audience, validation still asks for the
four fallbacks. -/
theorem validate_resolved_iff {c : Config} {reply : Str → DiscoveryReply} {s : OIDCSettings}
    (haccess : ¬Blank c.s3AccessKey) (hsecret : ¬Blank c.s3SecretKey) :
    c.resolveOIDC.eval reply = .ok s →
      ¬Blank s.issuer → ¬Blank s.jwksURL → ¬Blank s.audience →
      (c.validate = .ok () ↔ ¬Blank c.keycloakURL ∧ ¬Blank c.keycloakRealm ∧
        ¬Blank c.keycloakClientID ∧ ¬Blank c.keycloakJWKSURL) := by
  intro _ _ _ _
  rw [validate_eq_ok_iff]
  simp [Config.required, haccess, hsecret]

/-- A configuration by the fallbacks alone. -/
def fallbackConfig : Config where
  s3AccessKey := str "a"
  s3SecretKey := str "s"
  keycloakURL := str "https://kc/"
  keycloakRealm := str "r"
  keycloakClientID := str "c"
  keycloakJWKSURL := str "https://kc/k"

def fallbackSettings : OIDCSettings where
  issuer := str "https://kc/realms/r"
  jwksURL := str "https://kc/k"
  audience := str "c"
  clientID := str "c"

/-- The configuration of a provider that is not Keycloak. -/
def neutralConfig : Config where
  s3AccessKey := str "admin"
  s3SecretKey := str "admin"
  oidcIssuer := str "http://localhost:5556/dex"
  oidcJWKSURL := str "http://dex:5556/dex/keys"
  oidcClientID := str "pier-s3"
  oidcAudience := str "pier-s3"
  oidcAllowInsecure := true

/-- No discovery endpoint answers. -/
def noDiscovery (_ : Str) : DiscoveryReply := .fetchError (str "unreachable")

theorem config_facts :
    (fallbackConfig.resolveOIDC.eval noDiscovery = .ok fallbackSettings ∧
        ¬Blank fallbackSettings.issuer ∧ ¬Blank fallbackSettings.jwksURL ∧
        ¬Blank fallbackSettings.audience ∧ ¬Blank fallbackConfig.s3AccessKey ∧
        ¬Blank fallbackConfig.s3SecretKey) ∧
      (neutralConfig.resolveOIDC.eval noDiscovery = .ok neutralConfig.layered ∧
        ¬Blank neutralConfig.layered.issuer ∧ ¬Blank neutralConfig.layered.jwksURL ∧
        ¬Blank neutralConfig.layered.audience ∧ ¬Blank neutralConfig.s3AccessKey ∧
        ¬Blank neutralConfig.s3SecretKey ∧ neutralConfig.validate ≠ .ok ()) := by
  decide +kernel

theorem validate_resolved_iff_fallbackConfig :
    fallbackConfig.validate = .ok () ↔ ¬Blank fallbackConfig.keycloakURL ∧
      ¬Blank fallbackConfig.keycloakRealm ∧ ¬Blank fallbackConfig.keycloakClientID ∧
      ¬Blank fallbackConfig.keycloakJWKSURL := by
  obtain ⟨hresolve, hissuer, hjwks, haudience, haccess, hsecret⟩ := config_facts.1
  exact validate_resolved_iff haccess hsecret hresolve hissuer hjwks haudience

theorem not_always_validate_resolved :
    ¬∀ (c : Config) (reply : Str → DiscoveryReply) (s : OIDCSettings),
      ¬Blank c.s3AccessKey → ¬Blank c.s3SecretKey → c.resolveOIDC.eval reply = .ok s →
      ¬Blank s.issuer → ¬Blank s.jwksURL → ¬Blank s.audience → c.validate = .ok () := by
  intro hall
  obtain ⟨hresolve, hissuer, hjwks, haudience, haccess, hsecret, hvalidate⟩ := config_facts.2
  exact hvalidate (hall _ _ _ haccess hsecret hresolve hissuer hjwks haudience)

/-! ### Which issuer discovered keys belong to -/

/-- The keys are taken from the document. -/
def Config.TakesKeys (c : Config) : Prop := c.discovers ∧ c.layered.jwksURL = []

instance (c : Config) : Decidable c.TakesKeys :=
  inferInstanceAs (Decidable (c.discovers ∧ c.layered.jwksURL = []))

/-- Discovered keys belong to the issuer tokens are checked against exactly when the document
names one. -/
theorem discovered_issuer_iff {c : Config} {reply : Str → DiscoveryReply} {doc : DiscoveryDoc}
    {s : OIDCSettings} (hdoc : (discoverOIDC c.oidcDiscoveryURL).eval reply = .ok doc)
    (hkeys : c.TakesKeys) (hresolve : c.resolveOIDC.eval reply = .ok s) :
    (s.jwksURL = doc.jwksURL ∧ doc.issuer ≠ [] ∧
      trimRight slash doc.issuer = trimRight slash s.issuer) ↔ doc.issuer ≠ [] := by
  rcases resolve_cases hresolve with ⟨hnot, -⟩ | ⟨doc', -, hdoc', hdiffer, hchecked⟩
  · exact absurd hkeys.1 hnot
  · obtain rfl : doc' = doc := Except.ok.inj (hdoc'.symm.trans hdoc)
    obtain ⟨rfl, -, -⟩ := checked_ok hchecked
    rw [fill_jwksURL, fill_issuer, if_pos hkeys.2]
    refine ⟨fun h => h.2.1, fun hissuer => ⟨rfl, hissuer, ?_⟩⟩
    split_ifs with hopen
    · rfl
    · by_contra hne
      exact hdiffer ⟨hopen, hissuer, fun heq => hne heq.symm⟩

/-- A configuration that leaves the keys to discovery. -/
def discoveringConfig : Config where
  oidcIssuer := str "https://idp/"
  oidcClientID := str "c"
  oidcDiscoveryURL := str "https://d"

def discovered (doc : DiscoveryDoc) (_ : Str) : DiscoveryReply := .response 200 (.ok doc)

def namedDoc : DiscoveryDoc where
  issuer := str "https://idp"
  jwksURL := str "https://idp/k"

/-- A document with keys and no issuer. -/
def unnamedDoc : DiscoveryDoc where
  jwksURL := str "https://x/k"

theorem discoveringConfig_facts :
    discoveringConfig.TakesKeys ∧ ∀ doc ∈ [namedDoc, unnamedDoc],
      (discoverOIDC discoveringConfig.oidcDiscoveryURL).eval (discovered doc) = .ok doc ∧
        discoveringConfig.resolveOIDC.eval (discovered doc) =
          .ok (discoveringConfig.layered.fill doc) := by
  decide +kernel

theorem discovered_issuer_iff_namedDoc :
    ((discoveringConfig.layered.fill namedDoc).jwksURL = namedDoc.jwksURL ∧ namedDoc.issuer ≠ [] ∧
      trimRight slash namedDoc.issuer =
        trimRight slash (discoveringConfig.layered.fill namedDoc).issuer) ↔
          namedDoc.issuer ≠ [] := by
  obtain ⟨hdoc, hresolve⟩ := discoveringConfig_facts.2 namedDoc (by simp)
  exact discovered_issuer_iff hdoc discoveringConfig_facts.1 hresolve

theorem discovered_keys_without_issuer :
    ¬∀ (c : Config) (reply : Str → DiscoveryReply) (doc : DiscoveryDoc) (s : OIDCSettings),
      (discoverOIDC c.oidcDiscoveryURL).eval reply = .ok doc → c.TakesKeys →
      c.resolveOIDC.eval reply = .ok s →
      doc.issuer ≠ [] ∧ trimRight slash doc.issuer = trimRight slash s.issuer := by
  intro hall
  obtain ⟨hdoc, hresolve⟩ := discoveringConfig_facts.2 unnamedDoc (by simp)
  exact (hall _ _ _ _ hdoc discoveringConfig_facts.1 hresolve).1 rfl

end PierGateway.Settings
