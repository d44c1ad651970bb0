import PierGateway.HttpMessages

/-!
# Header rewriting

The outbound header map of the pass-through is the inbound one without the fields
of an earlier signature, the caller's token among them, and without the fields of
the connection. `lookup_rewriteHeaders` says so field by field.
-/
namespace PierGateway.Proxy
open GoStrings HttpMessages

def hopByHopHeaders : List Str :=
  [str "Connection", str "Keep-Alive", str "Proxy-Authenticate", str "Proxy-Authorization",
    str "Te", str "Trailers", str "Transfer-Encoding", str "Upgrade"]

def sigV4Headers : List Str :=
  [str "Authorization", str "X-Amz-Date", str "X-Amz-Content-Sha256", str "X-Amz-Security-Token",
    str "X-Amz-Credential", str "X-Amz-Signature", str "X-Amz-Signedheaders", str "X-Amz-Algorithm"]

def rewriteHeaders (original : Header) : Header :=
  (original.delAll sigV4Headers).delAll hopByHopHeaders

/-- The two lists are written in canonical form. -/
theorem canonical_stripped :
    sigV4Headers.map canonicalKey = sigV4Headers ∧
      hopByHopHeaders.map canonicalKey = hopByHopHeaders := by
  decide

theorem lookup_rewriteHeaders (h : Header) (k : Str) :
    (rewriteHeaders h).lookup k =
      if k ∈ sigV4Headers ∨ k ∈ hopByHopHeaders then none else h.lookup k := by
  obtain ⟨hs, hh⟩ := canonical_stripped
  rw [rewriteHeaders, Header.lookup_delAll, Header.lookup_delAll, hs, hh]
  by_cases h₁ : k ∈ sigV4Headers
  · simp [h₁]
  · by_cases h₂ : k ∈ hopByHopHeaders
    · simp [h₂]
    · simp [h₁, h₂]

theorem has_rewriteHeaders {h : Header} {k : Str} :
    (rewriteHeaders h).Has k ↔ (k ∉ sigV4Headers ∧ k ∉ hopByHopHeaders) ∧ h.Has k := by
  rw [Header.has_iff, Header.has_iff, lookup_rewriteHeaders, ← not_or]
  by_cases hk : k ∈ sigV4Headers ∨ k ∈ hopByHopHeaders
  · simp [hk]
  · rw [if_neg hk]
    constructor
    · intro h
      exact ⟨hk, h⟩
    · intro h
      exact h.2

/-- Maps that differ in a stripped field only are rewritten alike. -/
theorem rewriteHeaders_congr {h h' : Header}
    (hk : ∀ k, k ∉ sigV4Headers → h.lookup k = h'.lookup k) :
    rewriteHeaders h = rewriteHeaders h' := by
  apply Header.ext_lookup
  intro k
  rw [lookup_rewriteHeaders, lookup_rewriteHeaders]
  by_cases hs : k ∈ sigV4Headers ∨ k ∈ hopByHopHeaders
  · rw [if_pos hs, if_pos hs]
  · rw [if_neg hs, if_neg hs]
    exact hk k (not_or.mp hs).1

end PierGateway.Proxy
