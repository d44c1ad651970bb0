import PierGateway.Claims
import PierGateway.PassThrough
import PierGateway.Resolver

/-!
# The S3 proxy handler

`serveHTTP` is the gate in front of the pass-through: token, bucket, administration
check, access check, in this order. `serveHTTP_forward_iff` is its inversion: what
is known of a request that got through, and of nothing else.
-/
namespace PierGateway.Proxy
open GoStrings GoUnicode NetUrl HttpMessages ReverseProxy SigV4 Auth Acl

structure S3Handler where
  verifier : TokenVerifier
  backend : Option S3Backend
  forwarder : Option (Request → Exchange SignCall)
  mapper : ClaimMapper := {}

/-- The handler over a pass-through, or over no client at all. -/
def newS3HandlerWithMapper (verifier : TokenVerifier) (client : Option PassThrough)
    (mapper : ClaimMapper) : S3Handler where
  verifier := verifier
  backend := client.map (·.backend)
  forwarder := client.map (·.forward)
  mapper := mapper

inductive Outcome where
  | reply (response : Response)
  | forward (exchange : Exchange SignCall)

def extractBearerToken (r : Request) : Str :=
  let authHeader := r.header.get (str "Authorization")
  if authHeader = [] then []
  else
    match cut space authHeader with
    | (scheme, some token) => if equalFold scheme (str "Bearer") then trimSpace token else []
    | (_, none) => []

def pathBucket (path : Str) : Str := (cut slash (trimPrefix [slash] path)).1

/-- The buckets of the listing that the groups let the caller see. -/
def visibleBuckets (groups : List Str) (names : List (Option Str)) : List Str :=
  let effective := (effectiveBuckets groups).map (·.name)
  let hasWildcard := (wildcardGrant groups).2
  names.filterMap fun name =>
    match name with
    | none => none
    | some b => if hasWildcard ∨ b ∈ effective then some b else none

def handleListBuckets (backend : Option S3Backend) (groups : List Str) : Response :=
  match backend with
  | none => upstreamError (str "S3 backend is not configured")
  | some backend =>
      match backend.listBuckets with
      | .error _ => upstreamError (str "failed to list buckets from storage")
      | .ok names =>
          { status := 200
            header := Header.empty.set (str "Content-Type") (str "application/json")
            body := Json.line (.array ((visibleBuckets groups names).map fun b =>
              .object [(str "name", .string b)])) }

def serveHTTP (h : S3Handler) (r : Request) : Outcome :=
  let token := extractBearerToken r
  if token = [] then
    .reply (writeJSONError 401 (str "unauthorized") (str "missing or invalid authorization header"))
  else
    match h.verifier token with
    | .error _ =>
        .reply (writeJSONError 401 (str "invalid_token") (str "token verification failed"))
    | .ok claims =>
        let groups := h.mapper.groups claims
        let bucket := pathBucket r.url.path
        if bucket = [] then
          if r.method = str "GET" then .reply (handleListBuckets h.backend groups)
          else .reply (writeJSONError 400 (str "bad_request") (str "bucket name required"))
        else if isAdminOperation r.method r.url.requestURI then
          .reply (writeJSONError 403 (str "operation_not_permitted")
            (str "admin operations are not allowed"))
        else if !checkAccess groups bucket r.method then
          .reply (writeJSONError 403 (str "forbidden") (str "insufficient permissions"))
        else
          match h.forwarder with
          | none => .reply (upstreamError (str "S3 backend is not configured"))
          | some forward => .forward (forward r)

/-- The request passes every check of the gate. -/
structure Admitted (h : S3Handler) (r : Request) (claims : MapClaims) : Prop where
  token : extractBearerToken r ≠ []
  verified : h.verifier (extractBearerToken r) = .ok claims
  bucket : pathBucket r.url.path ≠ []
  admin : isAdminOperation r.method r.url.requestURI = false
  access : checkAccess (h.mapper.groups claims) (pathBucket r.url.path) r.method = true

/-- `Forward` is called exactly on the requests the gate admits. -/
theorem serveHTTP_forward_iff (h : S3Handler) (r : Request) (e : Exchange SignCall) :
    serveHTTP h r = .forward e ↔
      ∃ forward claims, h.forwarder = some forward ∧ Admitted h r claims ∧ e = forward r := by
  unfold serveHTTP
  dsimp only
  constructor
  · intro hs
    by_cases htoken : extractBearerToken r = []
    · rw [if_pos htoken] at hs
      cases hs
    rw [if_neg htoken] at hs
    cases hv : h.verifier (extractBearerToken r) with
    | error err =>
        rw [hv] at hs
        cases hs
    | ok claims =>
        rw [hv] at hs
        dsimp only at hs
        split_ifs at hs with hbucket hmethod hadmin haccess
        cases hf : h.forwarder with
        | none =>
            rw [hf] at hs
            cases hs
        | some forward =>
            rw [hf] at hs
            have he : forward r = e := by simpa using hs
            refine ⟨forward, claims, rfl, ?_, he.symm⟩
            exact ⟨htoken, hv, hbucket, by simpa using hadmin, by simpa using haccess⟩
  · rintro ⟨forward, claims, hf, hadm, rfl⟩
    rw [if_neg hadm.token, hadm.verified]
    dsimp only
    rw [if_neg hadm.bucket, hadm.admin, hadm.access, hf]
    simp

/-- The handler calls `Forward` on the request. -/
def Forwards (h : S3Handler) (r : Request) : Prop := ∃ e, serveHTTP h r = .forward e

theorem Forwards.admitted {h : S3Handler} {r : Request} (hf : Forwards h r) :
    ∃ claims, Admitted h r claims := by
  obtain ⟨e, he⟩ := hf
  obtain ⟨forward, claims, -, hadm, -⟩ := (serveHTTP_forward_iff h r e).mp he
  exact ⟨claims, hadm⟩

/-- Over a pass-through, the exchange of an admitted request is that of the pass-through. -/
theorem forward_of_passThrough {verifier : TokenVerifier} {p : PassThrough} {mapper : ClaimMapper}
    {r : Request} {e : Exchange SignCall}
    (h : serveHTTP (newS3HandlerWithMapper verifier (some p) mapper) r = .forward e) :
    e = p.forward r ∧ ∃ claims, Admitted
      (newS3HandlerWithMapper verifier (some p) mapper) r claims := by
  obtain ⟨forward, claims, hf, hadm, he⟩ := (serveHTTP_forward_iff _ r e).mp h
  have hforward : p.forward = forward := Option.some.inj hf
  exact ⟨hforward ▸ he, claims, hadm⟩

theorem pathBucket_no_slash (path : Str) : slash ∉ pathBucket path :=
  not_mem_cut_fst slash _

/-! ### A gateway with one user -/

/-- The claims of a token with the given groups. -/
def claimsFor (groups : List Str) : MapClaims := [(str "groups", .array (groups.map .string))]

/-- A verifier that knows one token. -/
def verifierFor (groups : List Str) : TokenVerifier := fun token =>
  if token = str "token" then .ok (claimsFor groups) else .error (str "unknown token")

theorem groups_claimsFor (groups : List Str) :
    ({} : ClaimMapper).groups (claimsFor groups) = groups.map stripLeadingSlash := by
  have hitems : stringItems (groups.map .string) = groups.map stripLeadingSlash := by
    induction groups with
    | nil => rfl
    | cons g groups ih => simp [stringItems]
  have hdirect : (claimsFor groups).lookup (str "groups") = some (.array (groups.map .string)) := by
    simp [claimsFor]
  have hroles : (claimsFor groups).lookup (str "realm_access") = none := by
    have hne : (str "realm_access" == str "groups") = false := by simp
    simp [claimsFor, List.lookup_cons, hne]
  simp [ClaimMapper.groups, extractGroups, hdirect, hroles, hitems]

/-- A request of that user, as the server reads it. -/
def requestOf (method target : Str) (lines : List (Str × Str)) : Request where
  method := method
  url := (requestURL method target).getD {}
  header := Header.ofLines ((str "Authorization", str "Bearer token") :: lines)

/-- What the gateway checks of a request of that user, before it is signed. -/
def Passes (groups : List Str) (r : Request) : Prop :=
  extractBearerToken r = str "token" ∧ pathBucket r.url.path ≠ [] ∧
    isAdminOperation r.method r.url.requestURI = false ∧
    checkAccess (groups.map stripLeadingSlash) (pathBucket r.url.path) r.method = true ∧
    isPrint (upgradeType r.header) = true

instance (groups : List Str) (r : Request) : Decidable (Passes groups r) :=
  inferInstanceAs (Decidable (_ ∧ _))

theorem Passes.verified {groups : List Str} {r : Request} (h : Passes groups r) :
    verifierFor groups (extractBearerToken r) = .ok (claimsFor groups) := by
  rw [h.1]
  simp [verifierFor]

theorem Passes.admitted {groups : List Str} {client : Option PassThrough} {r : Request}
    (h : Passes groups r) :
    Admitted (newS3HandlerWithMapper (verifierFor groups) client {}) r (claimsFor groups) where
  token := by
    rw [h.1]
    simp
  verified := h.verified
  bucket := h.2.1
  admin := h.2.2.1
  access := by
    have hgroups := groups_claimsFor groups
    exact hgroups.symm ▸ h.2.2.2.1

/-- A pass-through to a backend that answers everything with an empty success. -/
def passThroughOver (signer : Signer) : PassThrough where
  backend :=
    { listBuckets := .ok []
      endpoint := str "http://s3:8333"
      region := str "us-east-1"
      credentials := .ok { accessKeyID := str "gateway", secretAccessKey := str "secret" } }
  signer := signer
  now := 1700000000
  transport := fun _ => .ok { status := 200, header := Header.empty, body := [] }

/-- The same with a signature recorded from the signer for these credentials. -/
def recordedPassThrough (signedHeaders signature : Str) : PassThrough :=
  passThroughOver (recordedSigner (str "20231114T221320Z")
    (str "AWS4-HMAC-SHA256 Credential=gateway/20231114/us-east-1/s3/aws4_request, SignedHeaders=" ++
      signedHeaders ++ str ", Signature=" ++ signature))

theorem recordedPassThrough_documented (signedHeaders signature : Str) :
    Documented (recordedPassThrough signedHeaders signature).signer :=
  documented_recordedSigner _ _

def recordedGateway (groups : List Str) (signedHeaders signature : Str) : S3Handler :=
  newS3HandlerWithMapper (verifierFor groups)
    (some (recordedPassThrough signedHeaders signature)) {}

theorem Passes.forward {groups : List Str} {signedHeaders signature : Str} {r : Request}
    (h : Passes groups r) :
    serveHTTP (recordedGateway groups signedHeaders signature) r =
      .forward ((recordedPassThrough signedHeaders signature).forward r) :=
  (serveHTTP_forward_iff _ _ _).mpr ⟨_, _, rfl, h.admitted, rfl⟩

theorem passThroughOver_call (signer : Signer) {r : Request}
    (hp : isPrint (upgradeType r.header) = true) :
    ∃ call, (passThroughOver signer).signCall? r = some call ∧
      call.err = (signer call.args).2 := by
  obtain ⟨hparse, hne⟩ : urlParse (str "http://s3:8333") =
        some { scheme := str "http", host := str "s3:8333" } ∧
      ¬(str "http" = [] ∨ str "s3:8333" = []) := by
    decide +kernel
  have ht : (passThroughOver signer).target =
      some { scheme := str "http", host := str "s3:8333" } := by
    unfold PassThrough.target passThroughOver
    dsimp only
    rw [hparse]
    exact if_neg hne
  have hcall : (passThroughOver signer).signCall? r =
      some ((passThroughOver signer).rewrite { scheme := str "http", host := str "s3:8333" }
        { accessKeyID := str "gateway", secretAccessKey := str "secret" } (proxyRequest r)).2 := by
    unfold PassThrough.signCall?
    rw [ht]
    exact if_pos hp
  exact ⟨_, hcall, rfl⟩

theorem recordedPassThrough_call (signedHeaders signature : Str) {r : Request}
    (hp : isPrint (upgradeType r.header) = true) :
    ∃ call, (recordedPassThrough signedHeaders signature).signCall? r = some call ∧
      call.err = none := by
  obtain ⟨call, hcall, herr⟩ := passThroughOver_call _ hp
  exact ⟨call, hcall, herr⟩

theorem Passes.call {groups : List Str} (signedHeaders signature : Str) {r : Request}
    (h : Passes groups r) :
    ∃ call, (recordedPassThrough signedHeaders signature).signCall? r = some call ∧
      call.err = none :=
  recordedPassThrough_call signedHeaders signature h.2.2.2.2

end PierGateway.Proxy
