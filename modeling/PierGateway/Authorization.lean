import PierGateway.Routes
import PierGateway.S3Handler

/-!
# No access without authorisation

Both front ends in one statement: what the proxy forwards and what the web interface
calls on a bucket was allowed to the verified caller of the same request, and the
totals of a bucket, wherever they were computed, go only to callers who may read it.
The handlers are taken one by one for the calls each can make; what holds of all
interleavings then follows from the rule for systems, with labelled caches as the
invariant of the shared state.
-/
namespace PierGateway.WebUI
open GoStrings HttpMessages Auth Acl Interaction Proxy

/-- A call of a request with this target for a caller of these groups: a bucket it touches is
the target's and access to it is granted, and a result is filed where it belongs. -/
structure CallOk (groups : List Str) (target : Str × Option Str) (op : Op) : Prop where
  access : ∀ b m, op.scope = some (b, m) → checkAccess groups b m = true
  address : ∀ t, op.address = some t → t = target ∧ t.1 ≠ []
  files : op.Files

/-- Totals in an answer are about a bucket that these groups may read. -/
def AnswerOk (groups : List Str) (answer : Answer) : Prop :=
  ∀ totals, answer.payload = .stats totals → checkAccess groups totals.bucket (str "GET") = true

/-- Safe for such a caller, when the cache is honest. -/
abbrev SafeFor (groups : List Str) (target : Str × Option Str) (p : Prog Op Reply Answer) : Prop :=
  p.Safe (CallOk groups target) Honest (AnswerOk groups)

theorem answerOk_of_ne {groups : List Str} {answer : Answer}
    (h : ∀ totals, answer.payload ≠ .stats totals) : AnswerOk groups answer := by
  intro totals ht
  exact absurd ht (h totals)

theorem answerOk_writeError (groups : List Str) (status : ℕ) (code message : Str) :
    AnswerOk groups (writeError status code message) := by
  apply answerOk_of_ne
  intro totals ht
  cases ht

theorem callOk_of_unscoped {groups : List Str} {target : Str × Option Str} {op : Op}
    (h : op.scope = none) (ha : op.address = none) (hf : op.Files) : CallOk groups target op := by
  constructor
  · intro b m hs
    rw [h] at hs
    cases hs
  · intro t ht
    rw [ha] at ht
    cases ht
  · exact hf

theorem callOk_of_scope {groups : List Str} {target : Str × Option Str} {op : Op} {method : Str}
    (h : op.scope = some (target.1, method)) (ha : op.address = some target) (hf : op.Files)
    (hne : target.1 ≠ []) (hc : checkAccess groups target.1 method = true) :
    CallOk groups target op := by
  constructor
  · intro b m hs
    obtain ⟨rfl, rfl⟩ := Prod.mk.inj (Option.some.inj (h.symm.trans hs))
    exact hc
  · intro t ht
    obtain rfl := Option.some.inj (ha.symm.trans ht)
    exact ⟨rfl, hne⟩
  · exact hf

/-- The shape of the bucket handlers: refuse, check access, check the backend, go on. -/
theorem safe_guarded {groups : List Str} {target : Str × Option Str} {bad : Prop} [Decidable bad]
    {bucket method : Str} {refused forbidden : Answer} {ready : Bool} {next : Prog Op Reply Answer}
    (hr : AnswerOk groups refused) (hf : AnswerOk groups forbidden)
    (hnext : ¬bad → checkAccess groups bucket method = true → SafeFor groups target next) :
    SafeFor groups target (if bad then .done refused
      else if !checkAccess groups bucket method then .done forbidden
      else if !ready then .done backendUnavailable
      else next) := by
  split_ifs with h₁ h₂ h₃
  · exact hr
  · exact hf
  · exact answerOk_writeError groups _ _ _
  · exact hnext h₁ (by simpa using h₂)

/-- The handlers that make one call on their own target, and answer without totals. -/
theorem safe_guardedCall {groups : List Str} {target : Str × Option Str} {bad : Prop}
    [Decidable bad] {method code code' message message' : Str} {status status' : ℕ} {ready : Bool}
    {op : Op} {next : Reply op → Prog Op Reply Answer} (hs : op.scope = some (target.1, method))
    (ha : op.address = some target) (hfiles : op.Files) (hne : ¬bad → target.1 ≠ [])
    (hnext : ∀ out, SafeFor groups target (next out)) :
    SafeFor groups target (if bad then .done (writeError status code message)
      else if !checkAccess groups target.1 method then .done (writeError status' code' message')
      else if !ready then .done backendUnavailable
      else .call op next) := by
  apply safe_guarded (answerOk_writeError _ _ _ _) (answerOk_writeError _ _ _ _)
  intro hgood hc
  exact ⟨callOk_of_scope hs ha hfiles (hne hgood) hc, fun out _ => hnext out⟩

section
variable (api : API) (r : UIRequest)

theorem safe_handleListBuckets :
    SafeFor (getGroups r) (Endpoint.buckets.target r) (api.handleListBuckets r) := by
  unfold API.handleListBuckets
  dsimp only
  split_ifs
  · refine ⟨callOk_of_unscoped rfl rfl trivial, fun out _ => ?_⟩
    cases out with
    | error err => exact answerOk_writeError _ _ _ _
    | ok names => exact answerOk_of_ne (by simp [writeJSON])
  · exact answerOk_of_ne (by simp [writeJSON])

theorem safe_handleListObjects :
    SafeFor (getGroups r) (Endpoint.listObjects.target r) (api.handleListObjects r) := by
  refine safe_guardedCall (by rfl) (by rfl) (by trivial) id fun out => ?_
  cases out with
  | error err => exact answerOk_writeError _ _ _ _
  | ok result => exact answerOk_of_ne (by simp [writeJSON])

theorem safe_handleGetObject :
    SafeFor (getGroups r) (Endpoint.getObject.target r) (api.handleGetObject r) := by
  refine safe_guardedCall (by rfl) (by rfl) (by trivial) (fun h => (not_or.mp h).1) fun out => ?_
  cases out with
  | error err => exact answerOk_writeError _ _ _ _
  | ok result => exact answerOk_of_ne (by simp)

theorem safe_handleGetObjectMeta :
    SafeFor (getGroups r) (Endpoint.objectMeta.target r) (api.handleGetObjectMeta r) := by
  refine safe_guardedCall (by rfl) (by rfl) (by trivial) (fun h => (not_or.mp h).1) fun out => ?_
  cases out with
  | error err => exact answerOk_writeError _ _ _ _
  | ok result => exact answerOk_of_ne (by simp [writeJSON])

theorem safe_handlePutObject :
    SafeFor (getGroups r) (Endpoint.putObject.target r) (api.handlePutObject r) := by
  refine safe_guardedCall (by rfl) (by rfl) (by trivial) (fun h => (not_or.mp h).1) fun out => ?_
  cases out with
  | error err => exact answerOk_writeError _ _ _ _
  | ok result => exact answerOk_of_ne (by simp [writeJSON])

theorem safe_handleDeleteObject :
    SafeFor (getGroups r) (Endpoint.deleteObject.target r) (api.handleDeleteObject r) := by
  refine safe_guardedCall (by rfl) (by rfl) (by trivial) (fun h => (not_or.mp h).1) fun out => ?_
  cases out with
  | error err => exact answerOk_writeError _ _ _ _
  | ok result => exact answerOk_of_ne (by simp [writeJSON])

/-! ### The walk and the cache -/

theorem answerOk_stats {groups : List Str} {bucket : Str} {totals : BucketStatsResponse}
    (hc : checkAccess groups bucket (str "GET") = true) (hb : totals.bucket = bucket) :
    AnswerOk groups (writeJSON 200 (.stats totals)) := by
  intro totals' ht
  obtain rfl := Payload.stats.inj ht
  rw [hb]
  exact hc

theorem safe_answerStats {groups : List Str} {bucket : Str} (hne : bucket ≠ [])
    (hc : checkAccess groups bucket (str "GET") = true) :
    SafeFor groups (bucket, none) (api.answerStats bucket) := by
  refine ⟨callOk_of_unscoped rfl rfl trivial, fun entered hentered => ?_⟩
  cases entered with
  | cached totals => exact answerOk_stats hc hentered
  | wait ch =>
      refine ⟨callOk_of_unscoped rfl rfl trivial, fun woken _ => ?_⟩
      cases woken with
      | false => exact answerOk_writeError _ _ _ _
      | true =>
          refine ⟨callOk_of_unscoped rfl rfl trivial, fun entry hentry => ?_⟩
          cases entry with
          | none => exact answerOk_writeError _ _ _ _
          | some totals => exact answerOk_stats hc hentry
  | walk ch =>
      apply Prog.Safe.bind (safe_walkPages (fun _ => callOk_of_scope rfl rfl trivial hne hc)
        statsMaxPages [] rfl)
      intro result hresult
      refine ⟨callOk_of_unscoped rfl rfl hresult.1, fun _ _ => ?_⟩
      cases result with
      | error err => exact answerOk_writeError _ _ _ _
      | ok totals => exact answerOk_stats hc (hresult.1 totals rfl)

theorem safe_handleBucketStats :
    SafeFor (getGroups r) (Endpoint.stats.target r) (api.handleBucketStats r) := by
  apply safe_guarded (answerOk_writeError _ _ _ _) (answerOk_writeError _ _ _ _)
  exact safe_answerStats api

/-! ### The handlers without a bucket -/

variable (groups : List Str) (target : Str × Option Str) (oidcCfg : Option OIDCConfig)

theorem safe_randomURLSafe (n : ℕ) {next : Except Str Str → Prog Op Reply Answer}
    (h : ∀ x, SafeFor groups target (next x)) : SafeFor groups target (randomURLSafe n next) :=
  ⟨callOk_of_unscoped rfl rfl trivial, fun _ _ => h _⟩

theorem safe_handleLogin : SafeFor groups target (handleLogin oidcCfg r) := by
  cases oidcCfg with
  | none => exact answerOk_writeError _ _ _ _
  | some cfg =>
      unfold handleLogin
      apply safe_randomURLSafe
      intro codeVerifier
      cases codeVerifier with
      | error err => exact answerOk_writeError _ _ _ _
      | ok codeVerifier =>
          apply safe_randomURLSafe
          intro state
          cases state with
          | error err => exact answerOk_writeError _ _ _ _
          | ok state => exact answerOk_of_ne (by simp [redirectFound])

theorem safe_handleCallback : SafeFor groups target (handleCallback oidcCfg r) := by
  cases oidcCfg with
  | none => exact answerOk_writeError _ _ _ _
  | some cfg =>
      unfold handleCallback
      dsimp only
      split_ifs
      · exact answerOk_writeError _ _ _ _
      · exact answerOk_writeError _ _ _ _
      · exact answerOk_writeError _ _ _ _
      · cases nonEmptyCookie r pkceVerifierCookie with
        | none => exact answerOk_writeError _ _ _ _
        | some codeVerifier =>
            refine ⟨callOk_of_unscoped rfl rfl trivial, fun out _ => ?_⟩
            cases out with
            | error err => exact answerOk_writeError _ _ _ _
            | ok tokens => exact answerOk_of_ne (by simp [redirectFound])

theorem safe_handleLogout : SafeFor groups target (handleLogout oidcCfg r) := by
  unfold handleLogout
  split_ifs
  · exact answerOk_writeError _ _ _ _
  · exact answerOk_of_ne (by simp [writeJSON])

end

/-! ### All endpoints and all interleavings -/

section
variable (cfg : UIConfig)

theorem safe_inner_throttled {e : Endpoint} (he : e.throttled = true) (groups : List Str)
    (target : Str × Option Str) (r : UIRequest) : SafeFor groups target (cfg.inner e r) := by
  cases e with
  | login => exact safe_handleLogin r groups target cfg.oidcCfg
  | callback => exact safe_handleCallback r groups target cfg.oidcCfg
  | logout => exact safe_handleLogout r groups target cfg.oidcCfg
  | _ => cases he

theorem safe_inner {e : Endpoint} (he : e.throttled = false) (r : UIRequest) :
    SafeFor (getGroups r) (e.target r) (cfg.inner e r) := by
  cases e with
  | me => exact answerOk_of_ne (by simp [writeJSON])
  | buckets => exact safe_handleListBuckets cfg.api r
  | stats => exact safe_handleBucketStats cfg.api r
  | objectMeta => exact safe_handleGetObjectMeta cfg.api r
  | getObject => exact safe_handleGetObject cfg.api r
  | putObject => exact safe_handlePutObject cfg.api r
  | deleteObject => exact safe_handleDeleteObject cfg.api r
  | listObjects => exact safe_handleListObjects cfg.api r
  | _ => cases he

/-- The token of the request was verified, and its groups allow the method on the bucket. -/
def Cleared (a : Arrival) (bucket method : Str) : Prop :=
  ∃ claims, (extractToken a.request).1 ≠ [] ∧ a.verifier (extractToken a.request).1 = .ok claims ∧
    checkAccess (cfg.mapper.groups claims) bucket method = true

/-- What a request may call, and what it may be answered. -/
structure Allowed (a : Arrival) (op : Op) : Prop where
  access : ∀ b m, op.scope = some (b, m) → Cleared cfg a b m
  address : ∀ t, op.address = some t → t = a.endpoint.target a.request ∧ t.1 ≠ []
  files : op.Files

def Right (a : Arrival) (answer : Answer) : Prop :=
  ∀ totals, answer.payload = .stats totals → Cleared cfg a totals.bucket (str "GET")

theorem cleared_of_no_groups {bucket method : Str} {P : Prop}
    (h : checkAccess [] bucket method = true) : P := by
  cases h

theorem safe_handler (a : Arrival) :
    (cfg.handler a.verifier a.endpoint a.request).Safe (Allowed cfg a) Honest (Right cfg a) := by
  unfold UIConfig.handler
  split_ifs with he
  · have hinner := safe_inner_throttled cfg he [] (a.endpoint.target a.request) a.request
    constructor
    · exact ⟨fun b m hs => (by cases hs), fun t ht => (by cases ht), trivial⟩
    · intro verdict _
      cases verdict with
      | false =>
          intro totals ht
          cases ht
      | true =>
          apply hinner.mono
          · intro op hop
            exact ⟨fun b m hs => cleared_of_no_groups (hop.access b m hs), hop.address, hop.files⟩
          · intro answer hanswer totals ht
            exact cleared_of_no_groups (hanswer totals ht)
  · apply safe_authMiddleware
    · intro status code message totals ht
      cases ht
    · intro claims username htoken hv
      apply (safe_inner cfg (by simpa using he) _).mono
      · intro op hop
        exact ⟨fun b m hs => ⟨claims, htoken, hv, hop.access b m hs⟩, hop.address, hop.files⟩
      · intro answer hanswer totals ht
        exact ⟨claims, htoken, hv, hanswer totals ht⟩

theorem uiSystem_holds {outside : Outside} {now : Time}
    {c : Config Op Reply Arrival Answer World}
    (hc : (uiSystem cfg outside).Reachable { now := now } c) :
    System.Holds World.Labelled (Allowed cfg) Honest (Right cfg) c := by
  apply System.guarantee (safe_handler cfg) _ _ (World.labelled_start now) hc
  · intro i w a op x w' hw hop hstep
    exact Handle.labelled hstep hw hop.files
  · intro w w' hw hdrift
    exact hdrift.labelled hw

end

/-! ### A run of two readers -/

/-- A request of the user of the gateway for an endpoint with these wildcards. -/
def arrivalOf (groups : List Str) (e : Endpoint) (method target : Str) (values : List (Str × Str)) :
    Arrival where
  endpoint := e
  request := { requestOf method target [] with pathValues := values }
  verifier := verifierFor groups

def openAPI : UIConfig := { api := { hasBackend := true } }

/-- The request as the handler of its endpoint sees it. -/
def known (groups : List Str) (r : UIRequest) : UIRequest :=
  { r with
    identity := some
      { claims := claimsFor groups
        username := openAPI.mapper.user (claimsFor groups)
        groups := openAPI.mapper.groups (claimsFor groups) } }

theorem getGroups_known (groups : List Str) (r : UIRequest) :
    getGroups (known groups r) = groups.map stripLeadingSlash := groups_claimsFor groups

theorem handler_known {groups : List Str} {e : Endpoint} {r : UIRequest} (he : e.throttled = false)
    (ht : extractToken r = (str "token", false)) :
    openAPI.handler (verifierFor groups) e r = openAPI.inner e (known groups r) := by
  have hknown : verifierFor groups (str "token") = .ok (claimsFor groups) := by simp [verifierFor]
  have hne : str "token" ≠ [] := by decide
  unfold UIConfig.handler
  rw [if_neg (by simp [he])]
  apply authMiddleware_of_token
  · rw [ht]
    exact hne
  · rw [ht]
    simp
  · rw [ht]
    exact hknown

/-- The system in which nothing is assumed of the outside. -/
abbrev openSystem : System Op Reply Arrival Answer World := uiSystem openAPI fun _ _ _ => True

def statsArrival : Arrival :=
  arrivalOf [str "reports-ro"] .stats (str "GET") (str "/api/v1/buckets/reports/stats")
    [(str "bucket", str "reports")]

theorem start_statsArrival :
    openSystem.start statsArrival = openAPI.api.answerStats (str "reports") := by
  have ht : extractToken statsArrival.request = (str "token", false) := by decide
  have hb : bucketFromRequest (known [str "reports-ro"] statsArrival.request) = str "reports" := by
    decide
  have hc : checkAccess ([str "reports-ro"].map stripLeadingSlash) (str "reports") (str "GET") =
      true :=
    by decide
  have hne : str "reports" ≠ [] := by decide
  change openAPI.handler (verifierFor [str "reports-ro"]) .stats statsArrival.request = _
  rw [handler_known rfl ht]
  change openAPI.api.handleBucketStats (known [str "reports-ro"] statsArrival.request) = _
  rw [handleBucketStats_of_access (by rw [hb]; exact hne)
    (by rw [getGroups_known, hb]; exact hc) rfl, hb]

def reportsTotals : BucketStatsResponse := { bucket := str "reports" }

theorem reports_cached :
    (((({} : StatsCache).enter 0 (str "reports")).2.finish 0 (str "reports") 0
      (some reportsTotals)).enter 0 (str "reports")).1 = .cached reportsTotals := by
  decide

/-- The first of two readers walks the bucket, the second is served from the cache. -/
theorem served_from_cache : ∃ c : Config Op Reply Arrival Answer World,
    openSystem.Reachable { now := 0 } c ∧
      c.threads 1 = some (statsArrival, .done (writeJSON 200 (.stats reportsTotals))) := by
  have hs : openSystem.handle = Handle fun _ _ _ => True := rfl
  have h₀ : openSystem.Reachable { now := 0 } (System.initial { now := 0 }) := .refl
  have h₁ := h₀.tail (.start 0 statsArrival rfl)
  rw [start_statsArrival] at h₁
  have h₂ := h₁.tail (.call 0 statsArrival (.statsEnter (str "reports")) _ _ _ rfl
    (by rw [hs]; exact .enter (str "reports")))
  have h₃ := h₂.tail (.call 0 statsArrival (.listObjects (str "reports") [] [] [] statsPageSize) _
    (.ok {}) _ rfl (by rw [hs]; exact .storage (.inr rfl) trivial))
  have h₄ :=
    h₃.tail (.call 0 statsArrival (.statsFinish (str "reports") 0 (some reportsTotals)) _ _ _
    rfl (by rw [hs]; exact .finish (str "reports") 0 (some reportsTotals)))
  have h₅ := h₄.tail (.start 1 statsArrival rfl)
  rw [start_statsArrival] at h₅
  have h₆ :=
    h₅.tail (.call 1 statsArrival (.statsEnter (str "reports")) _ (.cached reportsTotals) _ rfl
    (by rw [hs, ← reports_cached]; exact .enter (str "reports")))
  exact ⟨_, h₆, rfl⟩

def removeArrival : Arrival :=
  arrivalOf [str "/team/reports-rw"] .deleteObject (str "DELETE")
    (str "/api/v1/buckets/team%2Freports/objects/old")
    [(str "bucket", str "team/reports"), (str "key", str "old")]

theorem removeArrival_nextCall :
    (openSystem.start removeArrival).nextCall =
      some (.deleteObject (str "team/reports") (str "old")) := by
  have ht : extractToken removeArrival.request = (str "token", false) := by decide
  have hb : bucketAndKeyFromRequest (known [str "/team/reports-rw"] removeArrival.request) =
      (str "team/reports", str "old") := by decide +kernel
  have hc : checkAccess ([str "/team/reports-rw"].map stripLeadingSlash) (str "team/reports")
      (str "DELETE") = true := by decide +kernel
  have hne : ¬(str "team/reports" = [] ∨ str "old" = []) := by decide +kernel
  change (openAPI.handler (verifierFor [str "/team/reports-rw"]) .deleteObject
    removeArrival.request).nextCall = _
  rw [handler_known rfl ht]
  change (openAPI.api.handleDeleteObject
    (known [str "/team/reports-rw"] removeArrival.request)).nextCall = _
  unfold API.handleDeleteObject
  rw [hb, getGroups_known]
  dsimp only
  rw [if_neg hne, hc]
  rfl

def readRequest : Request := requestOf (str "GET") (str "/reports/2024") []

theorem forwards_readRequest : Forwards (recordedGateway [str "reports-ro"] [] []) readRequest :=
  have hpasses : Passes [str "reports-ro"] readRequest := by decide +kernel
  ⟨_, hpasses.forward⟩

/-! ### Both front ends -/

/-- What the proxy forwards, and what the web interface calls and answers in any
interleaving of any requests, is cleared for the caller of that request. -/
theorem no_unauthorised_access :
    (∀ (h : S3Handler) (r : Request), Forwards h r → ∃ claims,
      extractBearerToken r ≠ [] ∧ h.verifier (extractBearerToken r) = .ok claims ∧
      checkAccess (h.mapper.groups claims) (pathBucket r.url.path) r.method = true) ∧
    ∀ (cfg : UIConfig) (outside : Outside) (now : Time) (c : Config Op Reply Arrival Answer World),
      (uiSystem cfg outside).Reachable { now := now } c →
      ∀ i a p, c.threads i = some (a, p) →
        (∀ op b m, p.nextCall = some op → op.scope = some (b, m) → Cleared cfg a b m) ∧
        ∀ answer totals, p.result = some answer → answer.status = 200 →
          answer.payload = .stats totals → Cleared cfg a totals.bucket (str "GET") := by
  constructor
  · intro h r hf
    obtain ⟨claims, hadm⟩ := hf.admitted
    exact ⟨claims, hadm.token, hadm.verified, hadm.access⟩
  · intro cfg outside now c hc i a p hi
    have hsafe := (uiSystem_holds cfg hc).threads i a p hi
    constructor
    · intro op b m hop hs
      exact (hsafe.nextCall hop).access b m hs
    · intro answer totals hanswer _ hp
      exact hsafe.result hanswer totals hp

/-- The proxy forwards a read, one reader is served from the cache, a delete is called. -/
theorem no_unauthorised_access_run :
    (∃ claims, extractBearerToken readRequest ≠ [] ∧
      (recordedGateway [str "reports-ro"] [] []).verifier (extractBearerToken readRequest) =
      .ok claims ∧
      checkAccess ((recordedGateway [str "reports-ro"] [] []).mapper.groups claims)
        (pathBucket readRequest.url.path) readRequest.method = true) ∧
    Cleared openAPI statsArrival (str "reports") (str "GET") ∧
    Cleared openAPI removeArrival (str "team/reports") (str "DELETE") := by
  constructor
  · exact no_unauthorised_access.1 _ _ forwards_readRequest
  constructor
  · obtain ⟨c, hc, hi⟩ := served_from_cache
    exact (no_unauthorised_access.2 openAPI _ 0 c hc 1 statsArrival _ hi).2 _ reportsTotals rfl rfl
      rfl
  · obtain ⟨c, hc, hi⟩ := openSystem.exists_reachable_start { now := 0 } removeArrival
    exact (no_unauthorised_access.2 openAPI _ 0 c hc 0 removeArrival _ hi).1 _ _ _
      removeArrival_nextCall rfl

end PierGateway.WebUI
