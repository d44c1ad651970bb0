import PierGateway.Interaction
import PierGateway.UiMessages

/-!
# Authentication of the web interface

The middleware in front of the handlers: a token from the `Authorization` header or,
for browser sessions, from the cookie, a check against cross-site requests that ride
on the cookie, and the verifier. Only then is the inner handler run, on a request
that carries the identity of that token. `safe_authMiddleware` is the one fact the
rest of the development uses.
-/
namespace PierGateway.WebUI
open GoStrings GoUnicode NetUrl HttpMessages Auth Interaction

def accessTokenCookie : Str := str "access_token"

/-- The token and whether it came from the cookie. -/
def cookieToken (r : UIRequest) : Str × Bool :=
  match r.cookie accessTokenCookie with
  | some (c :: value) => (c :: value, true)
  | _ => ([], false)

def extractToken (r : UIRequest) : Str × Bool :=
  match cut space (r.header.get (str "Authorization")) with
  | (scheme, some token) =>
      if equalFold scheme (str "Bearer") then (trimSpace token, false) else cookieToken r
  | (_, none) => cookieToken r

/-- The `Origin` of a request names another host, or none at all. -/
def foreignOrigin (r : UIRequest) : Bool :=
  let origin := r.header.get (str "Origin")
  if origin = [] then false
  else
    match urlParse origin with
    | none => true
    | some u => if u.host = [] then true else !equalFold u.host r.host

def isCrossSiteStateChange (r : UIRequest) : Bool :=
  if r.method = str "GET" ∨ r.method = str "HEAD" ∨ r.method = str "OPTIONS" then false
  else
    let site := r.header.get (str "Sec-Fetch-Site")
    if site = str "same-origin" ∨ site = str "none" then false
    else if site = str "same-site" ∨ site = str "cross-site" then true
    else foreignOrigin r

section
variable {Op : Type} {Reply : Op → Type}

def authMiddlewareWithMapper (verifier : TokenVerifier) (mapper : ClaimMapper)
    (next : UIRequest → Prog Op Reply Answer) (r : UIRequest) : Prog Op Reply Answer :=
  let token := extractToken r
  if token.1 = [] then
    .done (writeError 401 (str "unauthorized") (str "missing authentication"))
  else if token.2 ∧ isCrossSiteStateChange r then
    .done (writeError 403 (str "csrf_blocked") (str "cross-site state-changing request rejected"))
  else
    match verifier token.1 with
    | .error _ => .done (writeError 401 (str "invalid_token") (str "token verification failed"))
    | .ok claims =>
        next { r with
          identity := some
            { claims := claims, username := mapper.user claims, groups := mapper.groups claims } }

/-- A request with a good token that is not forged is handed on with its identity. -/
theorem authMiddleware_of_token {verifier : TokenVerifier} {mapper : ClaimMapper}
    {next : UIRequest → Prog Op Reply Answer} {r : UIRequest} {claims : MapClaims}
    (ht : (extractToken r).1 ≠ []) (hforged : ¬((extractToken r).2 ∧ isCrossSiteStateChange r))
    (hv : verifier (extractToken r).1 = .ok claims) :
    authMiddlewareWithMapper verifier mapper next r =
      next { r with identity := some ⟨claims, mapper.user claims, mapper.groups claims⟩ } := by
  unfold authMiddlewareWithMapper
  dsimp only
  rw [if_neg ht, if_neg hforged, hv]

variable {allowed : Op → Prop} {promised : ∀ op, Reply op → Prop} {right : Answer → Prop}

/-- Behind the middleware, a handler may count on a verified token of its own request. -/
theorem safe_authMiddleware {verifier : TokenVerifier} {mapper : ClaimMapper}
    {next : UIRequest → Prog Op Reply Answer} {r : UIRequest}
    (hrefused : ∀ status code message, right (writeError status code message))
    (hnext : ∀ claims username, (extractToken r).1 ≠ [] →
      verifier (extractToken r).1 = .ok claims → (next { r with
        identity := some ⟨claims, username, mapper.groups claims⟩ }).Safe allowed promised right) :
    (authMiddlewareWithMapper verifier mapper next r).Safe allowed promised right := by
  unfold authMiddlewareWithMapper
  dsimp only
  split_ifs with htoken
  · exact hrefused 401 _ _
  · exact hrefused 403 _ _
  · cases hv : verifier (extractToken r).1 with
    | error err => exact hrefused 401 _ _
    | ok claims => exact hnext claims (mapper.user claims) htoken hv

end

end PierGateway.WebUI
