import PierGateway.S3Handler

/-!
# Credential isolation

Two requests that differ in their `Authorization` values only, by callers with the
same groups, are the same request to everything behind the gate. The gate itself
looks at the token through the groups alone, and the outbound headers are made
from the inbound ones without that field.
-/
namespace PierGateway.Proxy
open GoStrings NetUrl HttpMessages ReverseProxy SigV4 Auth Acl

def authorization : Str := str "Authorization"

/-- The requests agree on everything but their credentials. -/
structure SameButCredentials (r₁ r₂ : Request) : Prop where
  method : r₁.method = r₂.method
  url : r₁.url = r₂.url
  body : r₁.body = r₂.body
  contentLength : r₁.contentLength = r₂.contentLength
  header : ∀ k, k ≠ authorization → r₁.header.lookup k = r₂.header.lookup k

theorem SameButCredentials.rewriteHeaders {r₁ r₂ : Request} (h : SameButCredentials r₁ r₂) :
    rewriteHeaders r₁.header = rewriteHeaders r₂.header := by
  apply rewriteHeaders_congr
  intro k hk
  apply h.header
  rintro rfl
  exact hk (by simp [authorization, sigV4Headers])

theorem SameButCredentials.upgradeType {r₁ r₂ : Request} (h : SameButCredentials r₁ r₂) :
    upgradeType r₁.header = upgradeType r₂.header := by
  have hkeys : ∀ k ∈ [str "Connection", str "Upgrade"], canonicalKey k ≠ authorization := by
    decide
  have hconn : r₁.header.values (str "Connection") = r₂.header.values (str "Connection") :=
    Header.values_congr (h.header _ (hkeys _ (by simp)))
  have hup : r₁.header.values (str "Upgrade") = r₂.header.values (str "Upgrade") :=
    Header.values_congr (h.header _ (hkeys _ (by simp)))
  unfold ReverseProxy.upgradeType Header.get
  rw [hconn, hup]

theorem SameButCredentials.signingArgs {r₁ r₂ : Request} (h : SameButCredentials r₁ r₂)
    (p : PassThrough) (target : URL) (creds : Credentials) :
    p.signingArgs target creds r₁ (proxyRequest r₁).out =
      p.signingArgs target creds r₂ (proxyRequest r₂).out := by
  unfold PassThrough.signingArgs proxyRequest
  dsimp only
  rw [h.rewriteHeaders, h.method, h.url, h.body, h.contentLength]

theorem SameButCredentials.forward {r₁ r₂ : Request} (h : SameButCredentials r₁ r₂)
    (p : PassThrough) : p.forward r₁ = p.forward r₂ := by
  have hrewrite : ∀ target creds,
      p.rewrite target creds (proxyRequest r₁) = p.rewrite target creds (proxyRequest r₂) := by
    intro target creds
    have hargs := h.signingArgs p target creds
    unfold PassThrough.rewrite
    dsimp only
    have hin : ∀ r, (proxyRequest r).inbound = r := fun _ => rfl
    rw [hin, hin, hargs]
  unfold PassThrough.forward
  cases p.target with
  | none => rfl
  | some target =>
      cases p.backend.credentials with
      | error e => rfl
      | ok creds =>
          dsimp only
          unfold ReverseProxy.serveHTTP
          rw [hrewrite, h.upgradeType]

theorem SameButCredentials.admitted {r₁ r₂ : Request} (h : SameButCredentials r₁ r₂)
    {handler : S3Handler} {c₁ c₂ : MapClaims} (htoken : extractBearerToken r₂ ≠ [])
    (hv : handler.verifier (extractBearerToken r₂) = .ok c₂)
    (hgroups : handler.mapper.groups c₁ = handler.mapper.groups c₂)
    (hadm : Admitted handler r₁ c₁) : Admitted handler r₂ c₂ where
  token := htoken
  verified := hv
  bucket := h.url ▸ hadm.bucket
  admin := by
    rw [← h.method, ← h.url]
    exact hadm.admin
  access := by
    rw [← h.method, ← h.url, ← hgroups]
    exact hadm.access

/-- What the signer is given has no credentials of the caller. -/
theorem authorization_not_signed {p : PassThrough} {r : Request} {call : SignCall}
    (hcall : p.signCall? r = some call) : ¬call.args.request.header.Has authorization := by
  obtain ⟨target, creds, -, -, -, hargs, -⟩ := signCall?_eq_some hcall
  have hheader : call.args.request.header = Proxy.rewriteHeaders r.header := by
    rw [hargs]
    rfl
  have hstripped : authorization ∈ sigV4Headers := by simp [authorization, sigV4Headers]
  intro hhas
  rw [hheader, has_rewriteHeaders] at hhas
  exact hhas.1.1 hstripped

/-- Nothing behind the gate depends on whose token it was: of two requests that differ in
their credentials, by callers with the same groups, both are forwarded or neither, and the
signer is given the same request for both. -/
theorem credential_isolation {verifier : TokenVerifier} {p : PassThrough} {mapper : ClaimMapper}
    {r₁ r₂ : Request} {c₁ c₂ : MapClaims} (h : SameButCredentials r₁ r₂)
    (ht₁ : extractBearerToken r₁ ≠ []) (ht₂ : extractBearerToken r₂ ≠ [])
    (hv₁ : verifier (extractBearerToken r₁) = .ok c₁)
    (hv₂ : verifier (extractBearerToken r₂) = .ok c₂)
    (hgroups : mapper.groups c₁ = mapper.groups c₂) :
    (Forwards (newS3HandlerWithMapper verifier (some p) mapper) r₁ ↔
        Forwards (newS3HandlerWithMapper verifier (some p) mapper) r₂) ∧
      ∀ e₁ e₂, serveHTTP (newS3HandlerWithMapper verifier (some p) mapper) r₁ = .forward e₁ →
        serveHTTP (newS3HandlerWithMapper verifier (some p) mapper) r₂ = .forward e₂ →
        e₁.callback.map (·.args) = e₂.callback.map (·.args) ∧ e₁.sent = e₂.sent ∧
          ∀ call, e₁.callback = some call → ¬call.args.request.header.Has authorization := by
  have hsymm : SameButCredentials r₂ r₁ :=
    ⟨h.method.symm, h.url.symm, h.body.symm, h.contentLength.symm,
      fun k hk => (h.header k hk).symm⟩
  constructor
  · constructor
    · rintro ⟨e, he⟩
      obtain ⟨-, c, hadm⟩ := forward_of_passThrough he
      obtain rfl : c₁ = c := Except.ok.inj (hv₁.symm.trans hadm.verified)
      have hadm₂ := h.admitted ht₂ hv₂ hgroups hadm
      exact ⟨_, (serveHTTP_forward_iff _ _ _).mpr ⟨_, _, rfl, hadm₂, rfl⟩⟩
    · rintro ⟨e, he⟩
      obtain ⟨-, c, hadm⟩ := forward_of_passThrough he
      obtain rfl : c₂ = c := Except.ok.inj (hv₂.symm.trans hadm.verified)
      have hadm₁ := hsymm.admitted ht₁ hv₁ hgroups.symm hadm
      exact ⟨_, (serveHTTP_forward_iff _ _ _).mpr ⟨_, _, rfl, hadm₁, rfl⟩⟩
  · intro e₁ e₂ he₁ he₂
    obtain ⟨rfl, -⟩ := forward_of_passThrough he₁
    obtain ⟨rfl, -⟩ := forward_of_passThrough he₂
    have hsame := h.forward p
    refine ⟨by rw [hsame], by rw [hsame], ?_⟩
    intro call hcall
    rw [forward_callback] at hcall
    exact authorization_not_signed hcall

/-- The same read with two tokens. -/
def readWith (token : Str) : Request where
  method := str "GET"
  url := (requestURL (str "GET") (str "/reports/object")).getD {}
  header := Header.ofLines [(authorization, str "Bearer " ++ token), (str "Accept", str "*/*")]

theorem sameButCredentials_readWith (t₁ t₂ : Str) :
    SameButCredentials (readWith t₁) (readWith t₂) where
  method := rfl
  url := rfl
  body := rfl
  contentLength := rfl
  header k hk := by
    obtain ⟨h₁, h₂⟩ : canonicalKey authorization = authorization ∧
        canonicalKey (str "Accept") ≠ authorization := by
      decide
    have hvalues : ∀ t, (Header.empty.add authorization t).values (str "Accept") = [] := by
      intro t
      simp [Header.values, Header.add, Header.lookup_insert, h₁, h₂]
    have hlookup : ∀ t, (readWith t).header.lookup k =
        if k = canonicalKey (str "Accept") then some [str "*/*"] else none := by
      intro t
      have hheader : (readWith t).header =
          ((Header.empty.add authorization (str "Bearer " ++ t)).add (str "Accept") (str "*/*")) :=
        rfl
      rw [hheader, Header.add, hvalues, Header.lookup_insert, Header.add, Header.lookup_insert, h₁,
        if_neg hk, Header.lookup_empty]
      rfl
    rw [hlookup, hlookup]

/-- A gateway that takes every token for that of a reader of `reports`. -/
def readersGateway : S3Handler :=
  newS3HandlerWithMapper (fun _ => .ok (claimsFor [str "reports-ro"]))
    (some (recordedPassThrough (str "accept;host;x-amz-date")
      (str "294393da592d29ccd011a44f60a39d7428f3ab3248cf1105a02a0837741f9cf7"))) {}

theorem credential_isolation_readWith :
    (Forwards readersGateway (readWith (str "alice")) ↔
        Forwards readersGateway (readWith (str "bob"))) ∧
      ∀ e₁ e₂, serveHTTP readersGateway (readWith (str "alice")) = .forward e₁ →
        serveHTTP readersGateway (readWith (str "bob")) = .forward e₂ →
        e₁.callback.map (·.args) = e₂.callback.map (·.args) ∧ e₁.sent = e₂.sent ∧
          ∀ call, e₁.callback = some call → ¬call.args.request.header.Has authorization :=
  credential_isolation (sameButCredentials_readWith _ _) (by decide) (by decide)
    rfl rfl rfl

end PierGateway.Proxy
