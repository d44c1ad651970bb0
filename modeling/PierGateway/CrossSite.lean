import PierGateway.S3Handler
import PierGateway.UiAuth
import PierGateway.UiCalls

/-!
# Cookies of another site

A browser attaches the cookie to requests that another site makes it send. The
middleware runs the inner handler on such a request only for a token of the
`Authorization` header, which another site cannot set. What a browser says of the
origin of a request is written out here, apart from the code that reads it.
-/
namespace PierGateway.WebUI
open GoStrings GoUnicode NetUrl HttpMessages Auth Interaction

/-- The `Origin` is unparseable, has no host, or has one that is not the host asked. -/
def OtherOrigin (r : UIRequest) : Prop :=
  r.header.get (str "Origin") ≠ [] ∧
    ∀ u, urlParse (r.header.get (str "Origin")) = some u →
      u.host = [] ∨ equalFold u.host r.host = false

/-- The browser says that a request that can change something comes from another site. -/
structure CrossSiteEvidence (r : UIRequest) : Prop where
  method : r.method ∉ [str "GET", str "HEAD", str "OPTIONS"]
  signal : r.header.get (str "Sec-Fetch-Site") ∈ [str "cross-site", str "same-site"] ∨
    r.header.get (str "Sec-Fetch-Site") ∉
      [str "same-origin", str "none", str "same-site", str "cross-site"] ∧ OtherOrigin r

/-- The bearer token of the `Authorization` header. -/
def BearerToken (r : UIRequest) (token : Str) : Prop :=
  ∃ scheme rest, r.header.get (str "Authorization") = scheme ++ space :: rest ∧
    space ∉ scheme ∧ equalFold scheme (str "Bearer") = true ∧ token = trimSpace rest

theorem foreignOrigin_eq_true {r : UIRequest} : foreignOrigin r = true ↔ OtherOrigin r := by
  unfold foreignOrigin OtherOrigin
  by_cases horigin : r.header.get (str "Origin") = []
  · simp [horigin]
  · cases hu : urlParse (r.header.get (str "Origin")) with
    | none => simp [horigin, hu]
    | some u => by_cases hhost : u.host = [] <;> simp [horigin, hu, hhost]

theorem isCrossSiteStateChange_eq_true {r : UIRequest} :
    isCrossSiteStateChange r = true ↔ CrossSiteEvidence r := by
  have hmethod : r.method ∉ [str "GET", str "HEAD", str "OPTIONS"] ↔
      ¬(r.method = str "GET" ∨ r.method = str "HEAD" ∨ r.method = str "OPTIONS") := by
    simp only [List.mem_cons, List.not_mem_nil, or_false]
  have hcross : r.header.get (str "Sec-Fetch-Site") ∈ [str "cross-site", str "same-site"] ↔
      r.header.get (str "Sec-Fetch-Site") = str "same-site" ∨
        r.header.get (str "Sec-Fetch-Site") = str "cross-site" := by
    rw [List.mem_pair, or_comm]
  have hother : r.header.get (str "Sec-Fetch-Site") ∉
      [str "same-origin", str "none", str "same-site", str "cross-site"] ↔
      ¬(r.header.get (str "Sec-Fetch-Site") = str "same-origin" ∨
        r.header.get (str "Sec-Fetch-Site") = str "none") ∧
      ¬(r.header.get (str "Sec-Fetch-Site") = str "same-site" ∨
        r.header.get (str "Sec-Fetch-Site") = str "cross-site") := by
    simp only [List.mem_cons, List.not_mem_nil, or_false, ← not_or, or_assoc]
  have hsame : r.header.get (str "Sec-Fetch-Site") = str "same-origin" ∨
      r.header.get (str "Sec-Fetch-Site") = str "none" →
      ¬(r.header.get (str "Sec-Fetch-Site") = str "same-site" ∨
        r.header.get (str "Sec-Fetch-Site") = str "cross-site") := by
    intro hs
    rcases hs with hs | hs <;> simp [hs]
  have hevidence : CrossSiteEvidence r ↔ _ ∧ _ :=
    ⟨fun h => ⟨h.method, h.signal⟩, fun h => ⟨h.1, h.2⟩⟩
  rw [hevidence, hmethod, hcross, hother, ← foreignOrigin_eq_true]
  unfold isCrossSiteStateChange
  dsimp only
  split_ifs <;> simp_all

/-! ### Where the token comes from -/

theorem extractToken_of_bearer {r : UIRequest} {token : Str} (h : BearerToken r token) :
    extractToken r = (token, false) := by
  obtain ⟨scheme, rest, hheader, hspace, hscheme, rfl⟩ := h
  unfold extractToken
  rw [hheader, cut_append space hspace]
  simp only [hscheme, if_true]

theorem extractToken_of_no_bearer {r : UIRequest} (h : ∀ token, ¬BearerToken r token) :
    extractToken r = cookieToken r := by
  unfold extractToken
  rcases cut_cases space (r.header.get (str "Authorization")) with
    ⟨_, hcut⟩ | ⟨scheme, rest, hspace, hheader, hcut⟩
  · rw [hcut]
  · rw [hcut]
    cases hscheme : equalFold scheme (str "Bearer") with
    | false => simp only [hscheme, Bool.false_eq_true, if_false]
    | true => exact absurd ⟨scheme, rest, hheader, hspace, hscheme, rfl⟩ (h _)

/-- A token that is not from the header is marked as the cookie's. -/
theorem cookieToken_cases (r : UIRequest) : (cookieToken r).1 = [] ∨ (cookieToken r).2 = true := by
  unfold cookieToken
  cases r.cookie accessTokenCookie with
  | none => exact Or.inl rfl
  | some value =>
      cases value with
      | nil => exact Or.inl rfl
      | cons c value => exact Or.inr rfl

/-! ### The inner handler -/

section
variable (Op : Type) (Reply : Op → Type) (verifier : TokenVerifier) (mapper : ClaimMapper)

/-- The request is answered with an error, whatever the inner handler is. -/
def Refused (r : UIRequest) : Prop :=
  ∃ status code message, ∀ next : UIRequest → Prog Op Reply Answer,
    authMiddlewareWithMapper verifier mapper next r = .done (writeError status code message)

/-- The inner handler is run, and knows the request by these claims. -/
def RunsAs (r : UIRequest) (claims : MapClaims) : Prop :=
  ∀ next : UIRequest → Prog Op Reply Answer, authMiddlewareWithMapper verifier mapper next r =
    next { r with
      identity := some
        { claims := claims, username := mapper.user claims, groups := mapper.groups claims } }

theorem refused_or_runsAs (r : UIRequest) :
    Refused Op Reply verifier mapper r ∨ ∃ claims,
      ¬((extractToken r).2 ∧ isCrossSiteStateChange r) ∧ (extractToken r).1 ≠ [] ∧
        verifier (extractToken r).1 = .ok claims ∧ RunsAs Op Reply verifier mapper r claims := by
  by_cases ht : (extractToken r).1 = []
  · refine Or.inl ⟨401, str "unauthorized", str "missing authentication", ?_⟩
    intro next
    unfold authMiddlewareWithMapper
    dsimp only
    rw [if_pos ht]
  · by_cases hforged : (extractToken r).2 ∧ isCrossSiteStateChange r
    · refine Or.inl ⟨403, str "csrf_blocked", str "cross-site state-changing request rejected", ?_⟩
      intro next
      unfold authMiddlewareWithMapper
      dsimp only
      rw [if_neg ht, if_pos hforged]
    · cases hv : verifier (extractToken r).1 with
      | error err =>
          refine Or.inl ⟨401, str "invalid_token", str "token verification failed", ?_⟩
          intro next
          unfold authMiddlewareWithMapper
          dsimp only
          rw [if_neg ht, if_neg hforged, hv]
      | ok claims =>
          refine Or.inr ⟨claims, hforged, ht, rfl, ?_⟩
          intro next
          exact authMiddleware_of_token ht hforged hv

end

/-- With evidence of another site the handler runs for a verified bearer token of the header
alone, and whenever it runs its groups are those of the token that was verified. -/
theorem crossSite_needs_bearer (Op : Type) (Reply : Op → Type) (verifier : TokenVerifier)
    (mapper : ClaimMapper) (r : UIRequest) :
    (CrossSiteEvidence r → Refused Op Reply verifier mapper r ∨
      ∃ token claims, BearerToken r token ∧ verifier token = .ok claims ∧
        RunsAs Op Reply verifier mapper r claims) ∧
    (Refused Op Reply verifier mapper r ∨
      ∃ claims, verifier (extractToken r).1 = .ok claims ∧
        RunsAs Op Reply verifier mapper r claims) := by
  rcases refused_or_runsAs Op Reply verifier mapper r with
    hrefused | ⟨claims, hforged, ht, hv, hruns⟩
  · exact ⟨fun _ => Or.inl hrefused, Or.inl hrefused⟩
  · refine ⟨?_, Or.inr ⟨claims, hv, hruns⟩⟩
    intro hevidence
    by_cases hbearer : ∃ token, BearerToken r token
    · obtain ⟨token, hbearer⟩ := hbearer
      rw [extractToken_of_bearer hbearer] at hv
      exact Or.inr ⟨token, claims, hbearer, hv, hruns⟩
    · rw [extractToken_of_no_bearer (not_exists.mp hbearer)] at ht hforged
      rcases cookieToken_cases r with hnone | hcookie
      · exact absurd hnone ht
      · exact absurd ⟨hcookie, isCrossSiteStateChange_eq_true.mpr hevidence⟩ hforged

/-- A write that another site makes a browser send, with a session cookie. -/
def riddenPut : UIRequest :=
  { method := str "PUT"
    url := {}
    header := Header.ofLines [(str "Sec-Fetch-Site", str "cross-site"),
      (str "Authorization", str "Basic dTpw"), (str "Cookie", str "access_token=token")] }

theorem riddenPut_refused :
    CrossSiteEvidence riddenPut ∧ extractToken riddenPut = (str "token", true) ∧
      Refused WebUI.Op WebUI.Reply (fun _ => .ok []) {} riddenPut := by
  have hevidence : CrossSiteEvidence riddenPut := by
    rw [← isCrossSiteStateChange_eq_true]
    decide
  have ht : extractToken riddenPut = (str "token", true) := by decide
  refine ⟨hevidence, ht, ?_⟩
  rcases (crossSite_needs_bearer WebUI.Op WebUI.Reply
    (fun _ => .ok []) {} riddenPut).1 hevidence with
    hrefused | ⟨token, claims, hbearer, _⟩
  · exact hrefused
  · rw [extractToken_of_bearer hbearer] at ht
    cases ht

end PierGateway.WebUI
