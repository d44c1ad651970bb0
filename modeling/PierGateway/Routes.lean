import PierGateway.BucketStats
import PierGateway.OidcHandlers
import PierGateway.ServeMux

/-!
# The routes of the web interface

The table of patterns and handlers that `RegisterRoutes` builds, and the server that
results: a request is dispatched by the router, wrapped in the middleware of its
route and run. `uiSystem` runs any number of requests, each with any handler of the
table and any wildcards, so what holds of its runs holds of the dispatched ones.
-/
namespace PierGateway.WebUI
open GoStrings NetUrl HttpMessages Auth Interaction ServeMux

inductive Endpoint where
  | login | callback | me | logout
  | buckets | stats | objectMeta | getObject | putObject | deleteObject | listObjects
deriving DecidableEq, Repr

/-- What `RegisterRoutes` and the endpoints are configured with. -/
structure UIConfig where
  api : API
  oidcCfg : Option OIDCConfig := none
  mapper : ClaimMapper := {}

/-- The handler behind an endpoint, without its middleware. -/
def UIConfig.inner (cfg : UIConfig) : Endpoint → Handler
  | .login => handleLogin cfg.oidcCfg
  | .callback => handleCallback cfg.oidcCfg
  | .me => handleAuthMe
  | .logout => handleLogout cfg.oidcCfg
  | .buckets => cfg.api.handleListBuckets
  | .stats => cfg.api.handleBucketStats
  | .objectMeta => cfg.api.handleGetObjectMeta
  | .getObject => cfg.api.handleGetObject
  | .putObject => cfg.api.handlePutObject
  | .deleteObject => cfg.api.handleDeleteObject
  | .listObjects => cfg.api.handleListObjects

/-- The bucket and, for an object, the key that a request for an endpoint gives it. -/
def Endpoint.target (e : Endpoint) (r : UIRequest) : Str × Option Str :=
  match e with
  | .stats | .listObjects => (bucketFromRequest r, none)
  | .objectMeta => ((bucketAndKeyMetaFromRequest r).1, some (bucketAndKeyMetaFromRequest r).2)
  | .getObject | .putObject | .deleteObject =>
      ((bucketAndKeyFromRequest r).1, some (bucketAndKeyFromRequest r).2)
  | _ => ([], none)

/-- The endpoints behind the rate limit; the others are behind authentication. -/
def Endpoint.throttled : Endpoint → Bool
  | .login | .callback | .logout => true
  | _ => false

def UIConfig.handler (cfg : UIConfig) (verifier : TokenVerifier) (e : Endpoint) : Handler :=
  if e.throttled then rateLimitMiddleware (cfg.inner e)
  else authMiddlewareWithMapper verifier cfg.mapper (cfg.inner e)

/-- The patterns of `RegisterRoutes`. -/
def registerRoutes : List (Str × Endpoint) :=
  [(str "GET /api/v1/auth/login", .login),
    (str "GET /api/v1/auth/callback", .callback),
    (str "GET /api/v1/auth/me", .me),
    (str "POST /api/v1/auth/logout", .logout),
    (str "GET /api/v1/buckets", .buckets),
    (str "GET /api/v1/buckets/\x7bbucket\x7d/stats", .stats),
    (str "GET /api/v1/buckets/\x7bbucket\x7d/meta/\x7bkey...\x7d", .objectMeta),
    (str "GET /api/v1/buckets/\x7bbucket\x7d/objects/\x7bkey...\x7d", .getObject),
    (str "PUT /api/v1/buckets/\x7bbucket\x7d/objects/\x7bkey...\x7d", .putObject),
    (str "DELETE /api/v1/buckets/\x7bbucket\x7d/objects/\x7bkey...\x7d", .deleteObject),
    (str "GET /api/v1/buckets/\x7bbucket\x7d/objects", .listObjects)]

/-- The routes of the server: those of the interface, and the static files for the rest. -/
def uiPatterns : List (Str × Option Endpoint) :=
  registerRoutes.map (fun p => (p.1, some p.2)) ++ [([slash], none)]

/-- The routing table; a pattern that does not parse would stop the program at its start. -/
def uiRoutes : List (Pattern × Option Endpoint) :=
  uiPatterns.filterMap fun p => (parsePattern p.1).map fun pattern => (pattern, p.2)

def apiRoot : List Segment := [.literal (str "api"), .literal (str "v1"), .literal (str "buckets")]

/-- The segments of a route on keys, below a directory of its own. -/
def keyedSegments (directory : Str) : List Segment :=
  apiRoot ++ [.single (str "bucket"), .literal directory, .multi (str "key")]

theorem uiRoutes_eq : uiRoutes =
    [(⟨str "GET", [.literal (str "api"), .literal (str "v1"), .literal (str "auth"),
        .literal (str "login")]⟩, some .login),
      (⟨str "GET", [.literal (str "api"), .literal (str "v1"), .literal (str "auth"),
        .literal (str "callback")]⟩, some .callback),
      (⟨str "GET", [.literal (str "api"), .literal (str "v1"), .literal (str "auth"),
        .literal (str "me")]⟩, some .me),
      (⟨str "POST", [.literal (str "api"), .literal (str "v1"), .literal (str "auth"),
        .literal (str "logout")]⟩, some .logout),
      (⟨str "GET", apiRoot⟩, some .buckets),
      (⟨str "GET", apiRoot ++ [.single (str "bucket"), .literal (str "stats")]⟩, some .stats),
      (⟨str "GET", keyedSegments (str "meta")⟩, some .objectMeta),
      (⟨str "GET", keyedSegments (str "objects")⟩, some .getObject),
      (⟨str "PUT", keyedSegments (str "objects")⟩, some .putObject),
      (⟨str "DELETE", keyedSegments (str "objects")⟩, some .deleteObject),
      (⟨str "GET", apiRoot ++ [.single (str "bucket"), .literal (str "objects")]⟩,
        some .listObjects),
      (⟨[], [.multi []]⟩, none)] := by
  decide +kernel

/-- Every pattern parses. -/
theorem uiRoutes_length : uiRoutes.length = uiPatterns.length := by
  simp [uiRoutes_eq, uiPatterns, registerRoutes]

/-- The request a handler sees after a match. -/
def routed (r : UIRequest) (m : Match (Option Endpoint)) : UIRequest :=
  { r with pathValues := m.pathValues }

/-! ### The system of all requests -/

/-- One request with the endpoint it is for and what the verifier says at the time. -/
structure Arrival where
  endpoint : Endpoint
  request : UIRequest
  verifier : TokenVerifier

def uiSystem (cfg : UIConfig) (outside : Outside) : System Op Reply Arrival Answer World where
  start a := cfg.handler a.verifier a.endpoint a.request
  handle := Handle outside
  drift := World.Drifts

end PierGateway.WebUI
