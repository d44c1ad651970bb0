import PierGateway.HttpMessages
import PierGateway.PercentEncoding
import PierGateway.QueryLaws

/-!
# Signature Version 4

Two parties build a canonical request: the signer, from the request it is given
and the payload hash it is told, and the service, from the request it receives.
A signature is good when the two are equal. They share the canonical query and
the canonical headers; they differ in where the path and the payload hash come
from. `documented` is the frame of the signer: the fields it may add.
-/
namespace PierGateway.SigV4
open GoStrings NetUrl UrlLaws HttpMessages PercentEncoding

structure Credentials where
  accessKeyID : Str
  secretAccessKey : Str
  sessionToken : Str := []
deriving DecidableEq

structure SigningArgs where
  credentials : Credentials
  request : Request
  payloadHash : Str
  service : Str
  region : Str
  signingTime : ℤ
deriving DecidableEq

/-- `SignHTTP`: the request as the signer leaves it, and its error. -/
abbrev Signer := SigningArgs → Request × Option Str

structure SignCall where
  args : SigningArgs
  signed : Request
  err : Option Str

def signerHeaders : List Str :=
  [str "X-Amz-Date", str "X-Amz-Security-Token", str "Authorization"]

/-- What is documented of a signer: it adds three fields at most and respells the query. -/
structure Documented (sign : Signer) : Prop where
  method : ∀ a, (sign a).1.method = a.request.method
  path : ∀ a, (sign a).1.url.path = a.request.url.path
  rawPath : ∀ a, (sign a).1.url.rawPath = a.request.url.rawPath
  names : ∀ a n, n ∈ queryNames (sign a).1.url.rawQuery ↔ n ∈ queryNames a.request.url.rawQuery
  header : ∀ a k, k ∉ signerHeaders → (sign a).1.header.lookup k = a.request.header.lookup k

/-- A signer that answers with a date and an authorization computed beforehand. -/
def recordedSigner (date authorization : Str) : Signer := fun a =>
  ({ a.request with
      header := (a.request.header.set (str "X-Amz-Date") date).set
        (str "Authorization") authorization },
    none)

theorem documented_recordedSigner (date authorization : Str) :
    Documented (recordedSigner date authorization) where
  method _ := rfl
  path _ := rfl
  rawPath _ := rfl
  names _ _ := Iff.rfl
  header a k hk := by
    obtain ⟨h₁, h₂⟩ : canonicalKey (str "X-Amz-Date") = str "X-Amz-Date" ∧
        canonicalKey (str "Authorization") = str "Authorization" := by
      decide
    simp only [signerHeaders, List.mem_cons, List.not_mem_nil, or_false, not_or] at hk
    simp only [recordedSigner, Header.set]
    rw [Header.lookup_insert, Header.lookup_insert, h₁, h₂, if_neg hk.2.2, if_neg hk.1]

/-! ### Canonical requests -/

def unreserved (c : UInt8) : Bool := isAlnum c || c ∈ str "-._~"

def uriEncodeByte (c : UInt8) : Str :=
  if unreserved c then [c] else [percent, upperHex (c / 16), upperHex (c % 16)]

def uriEncode (s : Str) : Str := s.flatMap uriEncodeByte

/-- `httpbinding.EscapePath`: every byte but the unreserved ones and the slash. -/
def escapePath (s : Str) : Str := s.flatMap fun c => if c = slash then [c] else uriEncodeByte c

structure CanonicalRequest where
  method : Str
  uri : Str
  query : Str
  headers : List (Str × Str)
  signedHeaders : List Str
  payloadHash : Str
deriving DecidableEq

def pairLe (a b : Str × Str) : Bool := a.1 < b.1 || (a.1 = b.1 && a.2 ≤ b.2)

def canonicalQuery (q : Str) : Str :=
  join ampersand (((parseQuery q).mergeSort pairLe).map fun p =>
    uriEncode p.1 ++ equals :: uriEncode p.2)

def stripExcessSpaces (s : Str) : Str := join space ((split space s).filter (· ≠ []))

/-- The value of a signed header, `name` in lower case. -/
def canonicalHeader (r : Request) (name : Str) : Str × Str :=
  if name = str "host" then (name, stripExcessSpaces (if r.host = [] then r.url.host else r.host))
  else if name = str "content-length" then (name, str (toString r.contentLength))
  else (name, join comma ((r.header.values name).map stripExcessSpaces))

def canonicalRequest (uri payloadHash : Str) (signed : List Str) (r : Request) :
    CanonicalRequest where
  method := r.method
  uri := uri
  query := canonicalQuery r.url.rawQuery
  headers := signed.map (canonicalHeader r)
  signedHeaders := signed
  payloadHash := payloadHash

/-- `GetURIPath`: the path as it stands on the request line. -/
def uriPath (u : URL) : Str :=
  let path :=
    if u.opaquePart = [] then u.escapedPath
    else
      let hier := trimPrefix (str "//") (cut question u.opaquePart).1
      hier.drop (cut slash hier).1.length
  if path = [] then [slash] else path

/-- The canonical request the signer hashes. -/
def hashed (disableURIPathEscaping : Bool) (payloadHash : Str) (signed : List Str) (r : Request) :
    CanonicalRequest :=
  canonicalRequest (if disableURIPathEscaping then uriPath r.url else escapePath (uriPath r.url))
    payloadHash signed r

/-- The hexadecimal SHA-256 of the empty string. -/
def emptyPayloadHash : Str :=
  str "e3b0c44298fc1c149afbf4c8996fb92427ae41e4649b934ca495991b7852b855"

/-- What a service does with a header-signed request that declares no payload hash. -/
inductive MissingHash where
  | reject | emptyBody
deriving DecidableEq

def contentSha256 : Str := str "X-Amz-Content-Sha256"

/-- The canonical request the service rebuilds; its path is the decoded one, encoded once. -/
def rebuilt (policy : MissingHash) (signed : List Str) (r : Request) : Option CanonicalRequest :=
  let uri := escapePath (((unescape .path (uriPath r.url)).getD (uriPath r.url)))
  match r.header.lookup contentSha256, policy with
  | some (hash :: _), _ => some (canonicalRequest uri hash signed r)
  | _, .emptyBody => some (canonicalRequest uri emptyPayloadHash signed r)
  | _, .reject => none

/-- The service rebuilds the canonical request the signer hashed. -/
def Verifies (policy : MissingHash) (disableURIPathEscaping : Bool) (payloadHash : Str)
    (signed : List Str) (r : Request) : Prop :=
  rebuilt policy signed r = some (hashed disableURIPathEscaping payloadHash signed r)

/-- A request without the payload hash header verifies only if it was signed for an
empty body, under either policy. -/
theorem Verifies.payloadHash_of_missing {policy : MissingHash} {disable : Bool} {hash : Str}
    {signed : List Str} {r : Request} (hv : Verifies policy disable hash signed r)
    (hm : r.header.lookup contentSha256 = none) : hash = emptyPayloadHash := by
  unfold Verifies rebuilt at hv
  rw [hm] at hv
  cases policy with
  | reject => cases hv
  | emptyBody =>
      have hc := congrArg CanonicalRequest.payloadHash (Option.some.inj hv)
      exact hc.symm

/-! ### The two paths -/

theorem uriEncode_eq (s : Str) : uriEncode s = percentEncode unreserved s := rfl

/-- The bytes a path is written with. -/
def pathByte (c : UInt8) : Bool := c = slash || unreserved c

theorem escapePath_eq (s : Str) : escapePath s = percentEncode pathByte s := by
  unfold escapePath percentEncode
  congr 1
  funext c
  unfold uriEncodeByte percentEncodeByte pathByte
  by_cases hc : c = slash
  · simp [hc]
  · simp [hc]

theorem pathByte_percent : pathByte percent = false := by decide +kernel

theorem unescape_escapePath (s : Str) : unescape .path (escapePath s) = some s := by
  rw [escapePath_eq]
  exact unescape_percentEncode pathByte_percent s

end PierGateway.SigV4
