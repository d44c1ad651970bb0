import PierGateway.Json
import PierGateway.ReverseProxy
import PierGateway.RewriteHeaders
import PierGateway.SigV4

/-!
# The signed pass-through

`forward` checks the endpoint, fetches the service credentials and runs one
exchange of the reverse proxy whose callback points the request at the backend,
rewrites its headers and signs it. The signer and the transport are not part of
this program and are fields of the configuration. The callback leaves its call of
the signer behind, with the error that it could not report.
-/
namespace PierGateway.Proxy
open GoStrings NetUrl UrlLaws HttpMessages ReverseProxy SigV4

def writeJSONError (status : ℕ) (code message : Str) : Response where
  status := status
  header := (Header.empty.set (str "Content-Type") (str "application/json")).set
    (str "X-Content-Type-Options") (str "nosniff")
  body := Json.line (.object [(str "error", .string code), (str "message", .string message)])

/-- The seam to the object store; a listing is the bucket names, `none` for a nil name. -/
structure S3Backend where
  listBuckets : Except Str (List (Option Str))
  endpoint : Str
  region : Str
  credentials : Except Str Credentials

structure PassThrough where
  backend : S3Backend
  signer : Signer
  now : ℤ
  transport : Request → Except Str Response

def unsignedPayload : Str := str "UNSIGNED-PAYLOAD"

/-- The backend endpoint, when it parses and has a scheme and a host. -/
def PassThrough.target (p : PassThrough) : Option URL :=
  match urlParse p.backend.endpoint with
  | none => none
  | some target => if target.scheme = [] ∨ target.host = [] then none else some target

/-- The arguments of `SignHTTP` for an outbound request with the given inbound headers. -/
def PassThrough.signingArgs (p : PassThrough) (target : URL) (creds : Credentials)
    (inbound out : Request) : SigningArgs where
  credentials := creds
  request := { out with
    url := { out.url with scheme := target.scheme, host := target.host }
    host := target.host
    header := rewriteHeaders inbound.header }
  payloadHash := unsignedPayload
  service := str "s3"
  region := p.backend.region
  signingTime := p.now

/-- The `Rewrite` callback. Its error goes to the log and nowhere else. -/
def PassThrough.rewrite (p : PassThrough) (target : URL) (creds : Credentials)
    (pr : ProxyRequest) : Request × SignCall :=
  let args := p.signingArgs target creds pr.inbound pr.out
  let result := p.signer args
  (result.1, { args := args, signed := result.1, err := result.2 })

def upstreamError (message : Str) : Response := writeJSONError 502 (str "upstream_error") message

def errorHandler (_ : ProxyError) : Response := upstreamError (str "failed to reach S3 backend")

/-- An exchange that ends before the reverse proxy. -/
def refused (message : Str) : Exchange SignCall :=
  { callback := none, sent := [], reply := upstreamError message }

def PassThrough.forward (p : PassThrough) (r : Request) : Exchange SignCall :=
  match p.target with
  | none => refused (str "S3 backend endpoint is misconfigured")
  | some target =>
      match p.backend.credentials with
      | .error _ => refused (str "failed to obtain backend credentials")
      | .ok creds => serveHTTP (p.rewrite target creds) errorHandler p.transport r

/-- The same steps without the exchange, returning the error. -/
def PassThrough.signedRequestPreview (p : PassThrough) (r : Request) : Except Str Request :=
  match p.target with
  | none => .error (str "invalid endpoint: " ++ p.backend.endpoint)
  | some target =>
      match p.backend.credentials with
      | .error e => .error e
      | .ok creds =>
          let result := p.signer (p.signingArgs target creds r r)
          match result.2 with
          | some e => .error e
          | none => .ok result.1

/-! ### What one exchange can do -/

/-- The call of the signer in a run of `forward`, when the run gets that far. -/
def PassThrough.signCall? (p : PassThrough) (r : Request) : Option SignCall :=
  match p.target, p.backend.credentials with
  | some target, .ok creds =>
      if isPrint (upgradeType r.header) then some (p.rewrite target creds (proxyRequest r)).2
      else none
  | _, _ => none

/-- Either the signer is not called, nothing is sent and the client is told of the upstream error,
or what the signer returned is sent, an empty `User-Agent` added; its error does not matter. -/
theorem forward_cases (p : PassThrough) (r : Request) :
    (p.signCall? r = none ∧ (p.forward r).callback = none ∧ (p.forward r).sent = [] ∧
        ∃ message, (p.forward r).reply = upstreamError message) ∨
      ∃ call, p.signCall? r = some call ∧ (p.forward r).callback = some call ∧
        (p.forward r).sent = [withUserAgent call.signed] := by
  unfold PassThrough.forward PassThrough.signCall?
  cases p.target with
  | none => exact .inl ⟨rfl, rfl, rfl, _, rfl⟩
  | some target =>
      cases p.backend.credentials with
      | error e => exact .inl ⟨rfl, rfl, rfl, _, rfl⟩
      | ok creds =>
          dsimp only
          cases hp : isPrint (upgradeType r.header) with
          | false =>
              rw [serveHTTP_invalid _ _ _ hp]
              exact .inl ⟨by simp, rfl, rfl, _, rfl⟩
          | true =>
              right
              exact ⟨(p.rewrite target creds (proxyRequest r)).2, by simp, by simp [serveHTTP, hp],
                by simp [serveHTTP, hp, PassThrough.rewrite]⟩

theorem forward_callback (p : PassThrough) (r : Request) :
    (p.forward r).callback = p.signCall? r := by
  rcases forward_cases p r with ⟨hcall, hback, -⟩ | ⟨call, hcall, hback, -⟩
  · rw [hcall, hback]
  · rw [hcall, hback]

theorem forward_sent (p : PassThrough) (r : Request) :
    (p.forward r).sent = ((p.signCall? r).map fun call => withUserAgent call.signed).toList := by
  rcases forward_cases p r with ⟨hcall, -, hsent, -⟩ | ⟨call, hcall, -, hsent⟩
  · rw [hcall, hsent]
    rfl
  · rw [hcall, hsent]
    rfl

theorem sent_exists {p : PassThrough} {r : Request} {call : SignCall}
    (h : p.signCall? r = some call) : withUserAgent call.signed ∈ (p.forward r).sent := by
  rw [forward_sent, h]
  simp

theorem forward_reply_of_no_call {p : PassThrough} {r : Request} (h : p.signCall? r = none) :
    ∃ message, (p.forward r).reply = upstreamError message := by
  rcases forward_cases p r with ⟨-, -, -, hreply⟩ | ⟨call, hcall, -⟩
  · exact hreply
  · rw [h] at hcall
    cases hcall

theorem signCall?_eq_some {p : PassThrough} {r : Request} {call : SignCall}
    (h : p.signCall? r = some call) :
    ∃ target creds, p.target = some target ∧ p.backend.credentials = .ok creds ∧
      isPrint (upgradeType r.header) = true ∧
      call.args = p.signingArgs target creds r (proxyRequest r).out ∧
      (call.signed, call.err) = p.signer call.args := by
  unfold PassThrough.signCall? at h
  cases ht : p.target with
  | none => simp [ht] at h
  | some target =>
      cases hc : p.backend.credentials with
      | error e => simp [ht, hc] at h
      | ok creds =>
          simp only [ht, hc] at h
          split_ifs at h with hp
          have hcall := Option.some.inj h
          refine ⟨target, creds, rfl, rfl, hp, ?_, ?_⟩
          · rw [← hcall]
            rfl
          · rw [← hcall]
            rfl

/-- An outbound request as far as the documents of the signer determine it. -/
structure Outbound (r out : Request) : Prop where
  method : out.method = r.method
  path : out.url.path = r.url.path
  rawPath : out.url.rawPath = r.url.rawPath
  names : ∀ n, n ∈ queryNames out.url.rawQuery ↔ n ∈ queryNames r.url.rawQuery
  header : ∀ k, k ∉ signerHeaders → k ≠ str "User-Agent" →
    out.header.lookup k = (rewriteHeaders r.header).lookup k

/-- Everything `forward` sends is the inbound request in this sense. -/
theorem outbound_of_sent {p : PassThrough} (hd : Documented p.signer) {r out : Request}
    (hout : out ∈ (p.forward r).sent) : Outbound r out := by
  rw [forward_sent, Option.mem_toList, Option.map_eq_some_iff] at hout
  obtain ⟨call, hcall, rfl⟩ := hout
  obtain ⟨target, creds, -, -, -, hargs, hsign⟩ := signCall?_eq_some hcall
  have hsigned : call.signed = (p.signer call.args).1 := congrArg Prod.fst hsign
  constructor
  · rw [withUserAgent_method, hsigned, hd.method, hargs]
    rfl
  · rw [withUserAgent_url, hsigned, hd.path, hargs]
    rfl
  · rw [withUserAgent_url, hsigned, hd.rawPath, hargs]
    rfl
  · intro n
    rw [withUserAgent_url, hsigned, hd.names, hargs]
    exact mem_queryNames_cleanQueryParams r.url.rawQuery n
  · intro k hk hagent
    rw [lookup_withUserAgent hagent, hsigned, hd.header call.args k hk, hargs]
    rfl

/-- The fields that are stripped, or that the gateway writes itself. -/
def ownHeaders : List Str :=
  signerHeaders ++ [str "User-Agent"] ++ sigV4Headers ++ hopByHopHeaders

theorem Outbound.lookup {r out : Request} (h : Outbound r out) {k : Str} (hk : k ∉ ownHeaders) :
    out.header.lookup k = r.header.lookup k := by
  simp only [ownHeaders, List.mem_append, List.mem_singleton, not_or] at hk
  obtain ⟨⟨⟨hsigner, hagent⟩, hsig⟩, hhop⟩ := hk
  rw [h.header k hsigner hagent, lookup_rewriteHeaders, if_neg (not_or.mpr ⟨hsig, hhop⟩)]

theorem Outbound.decoded_path {r out : Request} (h : Outbound r out) :
    unescape .path out.url.escapedPath = some r.url.path := by
  rw [unescape_escapedPath, h.path]

end PierGateway.Proxy
