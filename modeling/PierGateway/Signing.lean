import PierGateway.S3Handler

/-!
# Signing what is sent

Two properties of the pass-through. The first is that nothing goes out unsigned:
the callback cannot stop the exchange, so it holds only while the signer does not
fail on a request that gets as far. The second is that storage can verify what it
receives: the payload hash the signature covers is not in the request, because the
rewriting strips its header and no signer puts it back.
-/
namespace PierGateway.Proxy
open GoStrings NetUrl HttpMessages ReverseProxy SigV4 Auth Acl

/-- Endpoint, credentials or signature failed. -/
def SigningFails (p : PassThrough) (r : Request) : Prop :=
  p.target = none ∨ (∃ err, p.backend.credentials = .error err) ∨
    ∃ call, p.signCall? r = some call ∧ call.err ≠ none

/-- Only requests that `SignHTTP` returned without an error for are handed to the transport,
and every failure is answered with the upstream error and sends nothing. -/
def NothingUnsigned (p : PassThrough) (r : Request) : Prop :=
  (∀ out ∈ (p.forward r).sent, ∃ call, (p.forward r).callback = some call ∧ call.err = none ∧
      out = withUserAgent call.signed) ∧
    (SigningFails p r → (p.forward r).sent = [] ∧
      ∃ message, (p.forward r).reply = upstreamError message)

/-- The signer fails on a request that reaches it. -/
def SignerFails (p : PassThrough) (r : Request) : Prop :=
  ∃ target creds, p.target = some target ∧ p.backend.credentials = .ok creds ∧
    isPrint (upgradeType r.header) = true ∧
    (p.signer (p.signingArgs target creds r (proxyRequest r).out)).2 ≠ none

theorem signerFails_iff (p : PassThrough) (r : Request) :
    SignerFails p r ↔ ∃ call, p.signCall? r = some call ∧ call.err ≠ none := by
  constructor
  · rintro ⟨target, creds, ht, hc, hp, herr⟩
    refine ⟨(p.rewrite target creds (proxyRequest r)).2, ?_, herr⟩
    unfold PassThrough.signCall?
    rw [ht, hc]
    exact if_pos hp
  · rintro ⟨call, hcall, herr⟩
    obtain ⟨target, creds, ht, hc, hp, hargs, hsign⟩ := signCall?_eq_some hcall
    refine ⟨target, creds, ht, hc, hp, ?_⟩
    rw [← hargs, ← hsign]
    exact herr

/-- Nothing unsigned is sent exactly when the signer does not fail on this request. -/
theorem nothingUnsigned_iff (p : PassThrough) (r : Request) :
    NothingUnsigned p r ↔ ¬SignerFails p r := by
  rw [signerFails_iff]
  constructor
  · rintro ⟨-, hfail⟩ ⟨call, hcall, herr⟩
    have hnone := (hfail (.inr (.inr ⟨call, hcall, herr⟩))).1
    have hsent := sent_exists hcall
    rw [hnone] at hsent
    exact absurd hsent List.not_mem_nil
  · intro h
    constructor
    · intro out hout
      rw [forward_sent, Option.mem_toList, Option.map_eq_some_iff] at hout
      obtain ⟨call, hcall, rfl⟩ := hout
      refine ⟨call, ?_, ?_, rfl⟩
      · rw [forward_callback]
        exact hcall
      · by_contra herr
        exact h ⟨call, hcall, herr⟩
    · intro hfail
      have hno : p.signCall? r = none := by
        rcases hfail with ht | ⟨err, hc⟩ | hcall
        · unfold PassThrough.signCall?
          rw [ht]
        · unfold PassThrough.signCall?
          rw [hc]
          cases p.target <;> rfl
        · exact absurd hcall h
      constructor
      · rw [forward_sent, hno]
        rfl
      · exact forward_reply_of_no_call hno

/-- A signer that cannot sign and leaves the request as it is. -/
def failingSigner : Signer := fun a => (a.request, some (str "failed to build signature"))

def plainRead : Request := requestOf (str "GET") (str "/reports/object") []

theorem plainRead_isPrint : isPrint (upgradeType plainRead.header) = true := by decide

theorem unsigned_may_be_sent : ¬∀ (p : PassThrough) (r : Request), NothingUnsigned p r := by
  intro hall
  obtain ⟨call, hcall, herr⟩ := passThroughOver_call failingSigner plainRead_isPrint
  obtain ⟨call', hcallback, hok, -⟩ := (hall (passThroughOver failingSigner) plainRead).1 _
    (sent_exists hcall)
  rw [forward_callback, hcall] at hcallback
  obtain rfl := Option.some.inj hcallback
  rw [herr] at hok
  cases hok

/-! ### What storage verifies -/

/-- Storage accepts what was sent: it rebuilds the canonical request that was hashed, and the
payload hash it reads there is the one the signer was told. -/
def StorageAccepts (policy : MissingHash) (signed : List Str) (call : SignCall) (out : Request) :
    Prop :=
  Verifies policy false call.args.payloadHash signed out ∧
    out.header.lookup contentSha256 = some [call.args.payloadHash]

theorem contentSha256_not_sent {p : PassThrough} (hd : Documented p.signer) {r out : Request}
    (hout : out ∈ (p.forward r).sent) : out.header.lookup contentSha256 = none := by
  have hsent := outbound_of_sent hd hout
  have hsigner : contentSha256 ∉ signerHeaders := by simp [contentSha256, signerHeaders]
  have hagent : contentSha256 ≠ str "User-Agent" := by simp [contentSha256]
  have hstripped : contentSha256 ∈ sigV4Headers := by simp [contentSha256, sigV4Headers]
  rw [hsent.header _ hsigner hagent, lookup_rewriteHeaders, if_pos (.inl hstripped)]

/-- No request is sent with a signature that storage can verify: not one, whatever storage
makes of a missing payload hash and whichever headers were signed. -/
theorem sent_never_accepted {p : PassThrough} {r out : Request} {call : SignCall}
    (hd : Documented p.signer) (hcall : (p.forward r).callback = some call)
    (hout : out ∈ (p.forward r).sent) (policy : MissingHash) (signed : List Str) :
    ¬Verifies policy false call.args.payloadHash signed out ∧
      ¬StorageAccepts policy signed call out := by
  have hmissing := contentSha256_not_sent hd hout
  rw [forward_callback] at hcall
  obtain ⟨target, creds, -, -, -, hargs, -⟩ := signCall?_eq_some hcall
  have hhash : call.args.payloadHash = unsignedPayload := by
    rw [hargs]
    rfl
  have hne : unsignedPayload ≠ emptyPayloadHash := by simp [unsignedPayload, emptyPayloadHash]
  have hverify : ¬Verifies policy false call.args.payloadHash signed out := by
    intro h
    apply hne
    rw [← hhash]
    exact h.payloadHash_of_missing hmissing
  exact ⟨hverify, fun h => hverify h.1⟩

def plainHeaders : Str := str "host;x-amz-date"

def plainSignature : Str := str "c937d8885efb4abb2bf24b4eb8819e59f2daf640d924803f7cc00624c669e252"

theorem sent_never_accepted_plainRead :
    ∃ call out, (recordedPassThrough plainHeaders plainSignature).signCall? plainRead = some call ∧
      call.err = none ∧
      out ∈ ((recordedPassThrough plainHeaders plainSignature).forward plainRead).sent ∧
      ¬Verifies .reject false call.args.payloadHash [str "host", str "x-amz-date"] out ∧
        ¬StorageAccepts .reject [str "host", str "x-amz-date"] call out := by
  obtain ⟨call, hcall, herr⟩ := recordedPassThrough_call plainHeaders plainSignature
    plainRead_isPrint
  exact ⟨call, _, hcall, herr, sent_exists hcall,
    sent_never_accepted (recordedPassThrough_documented _ _) ((forward_callback _ _).trans hcall)
      (sent_exists hcall) .reject _⟩

theorem sent_not_always_accepted :
    ¬∀ (p : PassThrough) (r out : Request) (call : SignCall) (policy : MissingHash)
      (signed : List Str), Documented p.signer → (p.forward r).callback = some call →
      call.err = none → out ∈ (p.forward r).sent → StorageAccepts policy signed call out := by
  intro hall
  obtain ⟨call, hcall, herr⟩ := recordedPassThrough_call plainHeaders plainSignature
    plainRead_isPrint
  have haccepts := hall _ _ _ _ .reject [] (recordedPassThrough_documented _ _)
    ((forward_callback _ _).trans hcall) herr (sent_exists hcall)
  have hmissing := contentSha256_not_sent (recordedPassThrough_documented _ _) (sent_exists hcall)
  have hpresent := haccepts.2
  rw [hmissing] at hpresent
  cases hpresent

end PierGateway.Proxy
