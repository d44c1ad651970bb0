import PierGateway.S3Handler

/-!
# Server-side copies

A `PUT` may name the object to copy in a header, and storage then reads that
object with the rights of whoever signed the request. The header passes the
rewriting, and the access check looks at the path only.
-/
namespace PierGateway.Proxy
open GoStrings NetUrl HttpMessages ReverseProxy SigV4 Auth Acl

def copySource : Str := str "X-Amz-Copy-Source"

/-- The bucket a copy source names, in either spelling, `/bucket/key` or `bucket/key`; a value that
cannot be decoded is taken as it is. -/
def sourceBucket (value : Str) : Option Str :=
  let path := (pathUnescape value).getD value
  if pathBucket path = [] then none else some (pathBucket path)

/-- The buckets a request reads through its copy source headers. -/
def copiedBuckets (r : Request) : List Str := (r.header.values copySource).filterMap sourceBucket

/-- Every bucket the outbound request reads or writes is granted to the caller. -/
def CopyAuthorised (groups : List Str) (r out : Request) : Prop :=
  checkAccess groups (pathBucket r.url.path) r.method = true ∧
    ∀ s ∈ copiedBuckets out, checkAccess groups s (str "GET") = true

theorem Outbound.copiedBuckets {r out : Request} (h : Outbound r out) :
    copiedBuckets out = copiedBuckets r := by
  have hcanonical : canonicalKey copySource = copySource := by decide
  have hown : canonicalKey copySource ∉ ownHeaders := by
    rw [hcanonical]
    simp [copySource, ownHeaders, signerHeaders, sigV4Headers, hopByHopHeaders]
  unfold Proxy.copiedBuckets
  rw [Header.values_congr (h.lookup hown)]

/-- A forwarded request is authorised for all it touches exactly when the caller may read
every bucket that an inbound copy source names. -/
theorem copyAuthorised_iff {verifier : TokenVerifier} {p : PassThrough} {mapper : ClaimMapper}
    {r out : Request} {e : Exchange SignCall} {claims : MapClaims} (hd : Documented p.signer)
    (hclaims : verifier (extractBearerToken r) = .ok claims)
    (he : serveHTTP (newS3HandlerWithMapper verifier (some p) mapper) r = .forward e)
    (hout : out ∈ e.sent) :
    CopyAuthorised (mapper.groups claims) r out ↔
      ∀ s ∈ copiedBuckets r, checkAccess (mapper.groups claims) s (str "GET") = true := by
  obtain ⟨rfl, claims', hadm⟩ := forward_of_passThrough he
  have hverified : verifier (extractBearerToken r) = .ok claims' := hadm.verified
  rw [hclaims] at hverified
  obtain rfl := Except.ok.inj hverified
  have hsent := outbound_of_sent hd hout
  unfold CopyAuthorised
  rw [hsent.copiedBuckets]
  constructor
  · intro h
    exact h.2
  · intro h
    exact ⟨hadm.access, h⟩

/-- A copy from a bucket the caller may only write to. -/
def stolenCopy : Request :=
  requestOf (str "PUT") (str "/mine/x") [(str "x-amz-copy-source", str "/secret/y")]

def stolenGroups : List Str := [str "secret-wo", str "mine-rw"]

def stolenHeaders : Str := str "host;x-amz-copy-source;x-amz-date"

def stolenSignature : Str := str "0fe93a92d5358fb05955ab2094fc08cf36ebbad394575f8ed208ec4b84dac550"

theorem stolenCopy_facts :
    Passes stolenGroups stolenCopy ∧ str "secret" ∈ copiedBuckets stolenCopy ∧
      checkAccess (stolenGroups.map stripLeadingSlash) (str "secret") (str "GET") = false := by
  decide +kernel

theorem copyAuthorised_iff_stolenCopy :
    ∃ out ∈ ((recordedPassThrough stolenHeaders stolenSignature).forward stolenCopy).sent,
      (CopyAuthorised (({} : ClaimMapper).groups (claimsFor stolenGroups)) stolenCopy out ↔
        ∀ s ∈ copiedBuckets stolenCopy,
          checkAccess (({} : ClaimMapper).groups (claimsFor stolenGroups)) s (str "GET") =
            true) := by
  obtain ⟨hpasses, -, -⟩ := stolenCopy_facts
  obtain ⟨call, hcall, -⟩ := hpasses.call stolenHeaders stolenSignature
  exact ⟨_, sent_exists hcall, copyAuthorised_iff (recordedPassThrough_documented _ _)
    hpasses.verified hpasses.forward (sent_exists hcall)⟩

theorem copies_not_authorised :
    ¬∀ (verifier : TokenVerifier) (p : PassThrough) (mapper : ClaimMapper) (r out : Request)
      (e : Exchange SignCall) (claims : MapClaims), Documented p.signer →
      verifier (extractBearerToken r) = .ok claims →
      serveHTTP (newS3HandlerWithMapper verifier (some p) mapper) r = .forward e →
      out ∈ e.sent → CopyAuthorised (mapper.groups claims) r out := by
  intro hall
  obtain ⟨hpasses, hsecret, hdenied⟩ := stolenCopy_facts
  obtain ⟨call, hcall, -⟩ := hpasses.call stolenHeaders stolenSignature
  have hsent := outbound_of_sent (recordedPassThrough_documented _ _) (sent_exists hcall)
  have hcopy := (hall _ _ _ _ _ _ _ (recordedPassThrough_documented _ _) hpasses.verified
    hpasses.forward (sent_exists hcall)).2
  rw [hsent.copiedBuckets, groups_claimsFor] at hcopy
  have hgranted := hcopy _ hsecret
  rw [hdenied] at hgranted
  cases hgranted

end PierGateway.Proxy
