import PierGateway.Digest
import PierGateway.UiAuth
import PierGateway.UiCalls

/-!
# Login, callback, logout and the rate limit in front of them

The handlers of the authorisation code flow, which set and clear the cookies of a
session, and the middleware that throttles them by client address. The limiter's
verdict on a key is a call; the key is computed here.
-/
namespace PierGateway.WebUI
open GoStrings GoUnicode NetUrl HttpMessages Interaction Digest

/-- The fields of `auth.OIDCConfig` that the handlers read. -/
structure OIDCConfig where
  clientID : Str
  redirectURI : Str
  authURL : Str
  endSessionURL : Str

def cookiePath : Str := str "/api/"
def pkceVerifierCookie : Str := str "pkce_verifier"
def oauthStateCookie : Str := str "oauth_state"
def refreshTokenCookie : Str := str "refresh_token"

def authCookie (name value : Str) (maxAge : ℤ) : Cookie where
  name := name
  value := value
  path := cookiePath
  maxAge := maxAge

def setAccessTokenCookie (token : Str) (maxAge : ℤ) : Cookie :=
  authCookie accessTokenCookie token (max maxAge 0)

def setTransientCookie (name value : Str) : Cookie := authCookie name value 300
def clearCookie (name : Str) : Cookie := authCookie name [] (-1)
def setRefreshTokenCookie (token : Str) (maxAge : ℤ) : Cookie :=
  authCookie refreshTokenCookie token maxAge
def clearRefreshTokenCookie : Cookie := authCookie refreshTokenCookie [] (-1)

def pkceChallenge (codeVerifier : Str) : Str := rawURLEncode (sum256 codeVerifier)

/-- `randomURLSafe`, and what to do with its result. -/
def randomURLSafe (n : ℕ) (next : Except Str Str → Prog Op Reply Answer) : Prog Op Reply Answer :=
  .call (.randomBytes n) fun (out : Except Str Str) => next (out.map rawURLEncode)

def oidcUnavailable : Answer :=
  writeError 503 (str "oidc_unavailable") (str "OIDC is not configured")

def loginFailed : Answer := writeError 500 (str "internal_error") (str "failed to start login")

def loginQuery (cfg : OIDCConfig) (state codeVerifier : Str) : List (Str × Str) :=
  [(str "response_type", str "code"), (str "client_id", cfg.clientID),
    (str "redirect_uri", cfg.redirectURI), (str "scope", str "openid profile"),
    (str "state", state), (str "code_challenge", pkceChallenge codeVerifier),
    (str "code_challenge_method", str "S256")]

def handleLogin (oidcCfg : Option OIDCConfig) : Handler := fun r =>
  match oidcCfg with
  | none => .done oidcUnavailable
  | some cfg =>
      randomURLSafe 32 fun codeVerifier =>
        match codeVerifier with
        | .error _ => .done loginFailed
        | .ok codeVerifier =>
            randomURLSafe 16 fun state =>
              match state with
              | .error _ => .done loginFailed
              | .ok state =>
                  .done (redirectFound r.method
                    (cfg.authURL ++ question :: encodeQuery (loginQuery cfg state codeVerifier))
                    [setTransientCookie pkceVerifierCookie codeVerifier,
                      setTransientCookie oauthStateCookie state])

/-- A cookie that is there and not empty. -/
def nonEmptyCookie (r : UIRequest) (name : Str) : Option Str :=
  (r.cookie name).filter fun v => v ≠ []

def sessionCookies (tokens : TokenResponse) : List Cookie :=
  [clearCookie pkceVerifierCookie, clearCookie oauthStateCookie,
    setAccessTokenCookie tokens.accessToken tokens.expiresIn] ++
    if tokens.refreshToken = [] then [] else [setRefreshTokenCookie tokens.refreshToken 0]

def handleCallback (oidcCfg : Option OIDCConfig) : Handler := fun r =>
  match oidcCfg with
  | none => .done oidcUnavailable
  | some _ =>
      if r.query (str "error") ≠ [] then
        .done (writeError 401 (str "oidc_error") (r.query (str "error")))
      else if r.query (str "code") = [] ∨ r.query (str "state") = [] then
        .done (writeError 400 (str "bad_request") (str "missing code or state"))
      else if nonEmptyCookie r oauthStateCookie ≠ some (r.query (str "state")) then
        .done (writeError 400 (str "invalid_state") (str "state mismatch"))
      else
        match nonEmptyCookie r pkceVerifierCookie with
        | none => .done (writeError 400 (str "invalid_request") (str "missing PKCE verifier"))
        | some codeVerifier =>
            .call (.exchangeCode (r.query (str "code")) codeVerifier)
              fun (out : Except Str TokenResponse) =>
                match out with
                | .error _ =>
                    .done (writeError 502 (str "token_exchange_failed")
                      (str "failed to exchange authorization code"))
                | .ok tokens => .done (redirectFound r.method [slash] (sessionCookies tokens))

def handleAuthMe : Handler :=
  fun r => .done (writeJSON 200 (.identity (getUsername r) (getGroups r)))

def handleLogout (oidcCfg : Option OIDCConfig) : Handler := fun r =>
  if r.method ≠ str "POST" then
    .done (writeError 405 (str "method_not_allowed") (str "use POST"))
  else
    let answer := writeJSON 200 (.logout ((oidcCfg.map (·.endSessionURL)).getD []))
    .done { answer with cookies := [clearRefreshTokenCookie, clearCookie accessTokenCookie] }

/-! ### The rate limit -/

/-- The host of `net.SplitHostPort`. -/
def splitHost (hostport : Str) : Option Str :=
  match lastCut colon hostport with
  | none => none
  | some (before, port) =>
      if hostport.head? = some 0x5B then
        match cut 0x5D hostport with
        | (inside, some after) =>
            if after = colon :: port ∧ 0x5B ∉ hostport.drop 1 ∧
              0x5D ∉ after then some (inside.drop 1)
            else none
        | (_, none) => none
      else if colon ∈ before ∨ 0x5B ∈ hostport ∨ 0x5D ∈ hostport then none
      else some before

def clientIP (r : UIRequest) : Str :=
  let xff := r.header.get (str "X-Forwarded-For")
  if xff ≠ [] then
    match lastCut comma xff with
    | some (_, last) => trimSpace last
    | none => trimSpace xff
  else (splitHost r.remoteAddr).getD r.remoteAddr

example : splitHost (str "[::1]:8080") = some (str "::1") := by decide

def rateLimited : Answer :=
  let answer := writeError 429 (str "rate_limited") (str "too many requests")
  { answer with header := answer.header.set (str "Retry-After") (str "60") }

def rateLimitMiddleware (next : Handler) : Handler := fun r =>
  .call (.allow (clientIP r)) fun (allowed : Bool) => if allowed then next r else .done rateLimited

end PierGateway.WebUI
