import PierGateway.BucketListings
import PierGateway.JsonReader
import PierGateway.LoginPairing

/-!
# The token exchange behind a login callback

What `ExchangeCode` makes of the reply of the token endpoint, put behind the handler
of the callback. The endpoint is a function of the address and the form it is sent,
so it may do anything: fail, break off, answer with any status and any bytes. The
texts of the errors take the verb `%q` and the text of a JSON error as parameters.
-/
namespace PierGateway.WebUI
open GoStrings HttpMessages Interaction Digest

/-! ### `ExchangeCode` -/

structure TokenClient extends OIDCConfig where
  clientSecret : Str := []
  tokenURL : Str

/-- The end of `client.PostForm` and of reading the body of its response. -/
inductive Posted where
  | failed (cause : Str)
  | reply (status : ℕ) (body : Except Str Str)

structure ErrorTexts where
  quote : Str → Str
  jsonError : Str → Str

def maxTokenResponseBytes : ℕ := 2 ^ 20

def exchangeForm (c : TokenClient) (code codeVerifier : Str) : List (Str × Str) :=
  [(str "grant_type", str "authorization_code"), (str "code", code),
    (str "redirect_uri", c.redirectURI), (str "client_id", c.clientID),
    (str "code_verifier", codeVerifier)] ++
    if c.clientSecret = [] then [] else [(str "client_secret", c.clientSecret)]

def storeInt (old : ℤ) : Json → Option ℤ
  | .number text => parseInt 64 text
  | .null => some old
  | _ => none

/-- One field into a `TokenResponse`; of the two that nothing reads only the type is checked. -/
def storeToken (t : TokenResponse) (key : Str) (v : Json) : Option TokenResponse :=
  if Json.names key (str "access_token") then
    (Json.storeString t.accessToken v).map fun s => { t with accessToken := s }
  else if Json.names key (str "refresh_token") then
    (Json.storeString t.refreshToken v).map fun s => { t with refreshToken := s }
  else if Json.names key (str "token_type") || Json.names key (str "id_token") then
    (Json.storeString [] v).map fun _ => t
  else if Json.names key (str "expires_in") then
    (storeInt t.expiresIn v).map fun n => { t with expiresIn := n }
  else some t

def unmarshalTokens (v : Json) : Option TokenResponse := Json.unmarshal storeToken {} v

def oauthErrorCode (body : Str) : Str :=
  let store := fun (e : Str) (key : Str) (v : Json) =>
    if Json.names key (str "error") then Json.storeString e v else some e
  match (Json.read body).bind (Json.unmarshal store []) with
  | some e => if e = [] then str "unknown" else e
  | none => str "unknown"

/-- The reply to the form that `ExchangeCode` posts. -/
def exchangeCode (texts : ErrorTexts) (post : Str → List (Str × Str) → Posted) (c : TokenClient)
    (code codeVerifier : Str) : Except Str TokenResponse :=
  match post c.tokenURL (exchangeForm c code codeVerifier) with
  | .failed cause => .error (str "token exchange failed: " ++ cause)
  | .reply _ (.error cause) => .error (str "reading token response: " ++ cause)
  | .reply status (.ok sent) =>
      let body := sent.take maxTokenResponseBytes
      if status ≠ 200 then
        .error (str "token endpoint returned " ++ formatInt status ++ str " (error=" ++
          texts.quote (oauthErrorCode body) ++ str ")")
      else
        match (Json.read body).bind unmarshalTokens with
        | some tokens => .ok tokens
        | none => .error (str "parsing token response: " ++ texts.jsonError body)

/-- The handler of the callback, its exchange made with this endpoint. -/
def callback (texts : ErrorTexts) (post : Str → List (Str × Str) → Posted)
    (oidcCfg : Option TokenClient) (reply : ∀ op, Reply op) (r : UIRequest) : Answer :=
  (handleCallback (oidcCfg.map TokenClient.toOIDCConfig) r).eval fun op =>
    match op with
    | .exchangeCode code codeVerifier =>
        match oidcCfg with
        | some c => exchangeCode texts post c code codeVerifier
        | none => .error []
    | op => reply op

/-! ### What the exchange returns -/

/-- The reply says 200 and its body, as far as it is read, is this value. -/
def Posted.Carries (p : Posted) (v : Json) : Prop :=
  ∃ sent, p = .reply 200 (.ok sent) ∧ Json.read (sent.take maxTokenResponseBytes) = some v

section
variable {texts : ErrorTexts} {post : Str → List (Str × Str) → Posted} {c : TokenClient}
  {code codeVerifier : Str}

theorem exchangeCode_ok_iff {tokens : TokenResponse} :
    exchangeCode texts post c code codeVerifier = .ok tokens ↔
      ∃ v, (post c.tokenURL (exchangeForm c code codeVerifier)).Carries v ∧
        unmarshalTokens v = some tokens := by
  unfold exchangeCode
  constructor
  · intro h
    cases hp : post c.tokenURL (exchangeForm c code codeVerifier) with
    | failed cause => simp [hp] at h
    | reply status body =>
        cases body with
        | error cause => simp [hp] at h
        | ok sent =>
            simp only [hp] at h
            split_ifs at h with hstatus
            cases hv : (Json.read (sent.take maxTokenResponseBytes)).bind unmarshalTokens with
            | none => simp [hv] at h
            | some tokens' =>
                obtain ⟨v, hread, hv⟩ := Option.bind_eq_some_iff.mp hv
                have htokens : tokens' = tokens := by simpa [hread, hv] using h
                rw [not_not.mp hstatus]
                exact ⟨v, ⟨sent, rfl, hread⟩, htokens ▸ hv⟩
  · rintro ⟨v, ⟨sent, hp, hread⟩, hv⟩
    simp [hp, hread, hv]

end

theorem accessToken_of_unmarshal {v : Json} {tokens : TokenResponse}
    (h : unmarshalTokens v = some tokens) :
    (∀ token, Json.Gives (str "access_token") token v → tokens.accessToken = token) ∧
      (tokens.accessToken ≠ [] → Json.Gives (str "access_token") tokens.accessToken v) := by
  cases v with
  | null =>
      obtain rfl := Option.some.inj h
      refine ⟨fun token hg => ?_, fun hne => absurd rfl hne⟩
      obtain ⟨fields, hv, -⟩ := hg
      cases hv
  | object fields =>
      have hstored := Json.holds_of_unmarshal TokenResponse.accessToken (str "access_token") ?_ ?_ h
      · refine ⟨fun token hg => ?_, fun hne => ⟨fields, rfl, hstored.2.resolve_left hne⟩⟩
        obtain ⟨fields', hv, hs⟩ := hg
        obtain rfl := Json.object.inj hv
        exact hstored.1 token hs
      · intro t t' key v hn hstore
        rw [storeToken, if_pos hn] at hstore
        obtain ⟨s, hs, rfl⟩ := Option.map_eq_some_iff.mp hstore
        exact hs
      · intro t t' key v hn hstore
        rw [storeToken, if_neg (by simp [hn])] at hstore
        split_ifs at hstore
        · obtain ⟨s, -, rfl⟩ := Option.map_eq_some_iff.mp hstore
          rfl
        · obtain ⟨s, -, rfl⟩ := Option.map_eq_some_iff.mp hstore
          rfl
        · obtain ⟨n, -, rfl⟩ := Option.map_eq_some_iff.mp hstore
          rfl
        · rw [Option.some.inj hstore]
  | bool | number | string | array => cases h

/-! ### What the callback answers -/

/-- The callback passes its checks and comes to the exchange with this verifier. -/
structure CallbackAccepted (r : UIRequest) (codeVerifier : Str) : Prop where
  noError : r.query (str "error") = []
  code : r.query (str "code") ≠ []
  state : nonEmptyCookie r oauthStateCookie = some (r.query (str "state"))
  verifier : nonEmptyCookie r pkceVerifierCookie = some codeVerifier

theorem nonEmptyCookie_ne_nil {r : UIRequest} {name value : Str}
    (h : nonEmptyCookie r name = some value) : value ≠ [] := by
  simpa using (Option.filter_eq_some_iff.mp h).2

/-- An answer that reports an error and leaves the cookies of the browser alone. -/
def Declined (answer : Answer) : Prop := 400 ≤ answer.status ∧ answer.cookies = []

theorem handleCallback_cases (cfg : OIDCConfig) (r : UIRequest) :
    (∃ answer, Declined answer ∧ handleCallback (some cfg) r = .done answer ∧
        ∀ codeVerifier, ¬CallbackAccepted r codeVerifier) ∨
      ∃ codeVerifier next, CallbackAccepted r codeVerifier ∧
        handleCallback (some cfg) r = .call
        (.exchangeCode (r.query (str "code")) codeVerifier) next ∧
        (∀ cause, ∃ answer, Declined answer ∧ next (.error cause) = .done answer) ∧
        ∀ tokens, next (.ok tokens) = .done
            (redirectFound r.method [slash] (sessionCookies tokens)) := by
  have hdeclined : ∀ status code message, 400 ≤ status →
      Declined (writeError status code message) :=
    fun status code message hs => ⟨hs, rfl⟩
  unfold handleCallback
  dsimp only
  split_ifs with herror hparams hstate
  · exact .inl ⟨_, hdeclined _ _ _ (by omega), rfl, fun _ h => herror h.noError⟩
  · refine .inl ⟨_, hdeclined _ _ _ (by omega), rfl, fun _ h => ?_⟩
    exact hparams.elim h.code (nonEmptyCookie_ne_nil h.state)
  · exact .inl ⟨_, hdeclined _ _ _ (by omega), rfl, fun _ h => hstate h.state⟩
  · cases hverifier : nonEmptyCookie r pkceVerifierCookie with
    | none =>
        refine .inl ⟨_, hdeclined _ _ _ (by omega), rfl, fun _ h => ?_⟩
        exact Option.some_ne_none _ (h.verifier.symm.trans hverifier)
    | some codeVerifier =>
        have haccepted : CallbackAccepted r codeVerifier :=
          ⟨not_not.mp herror, fun h => hparams (.inl h), not_not.mp hstate, hverifier⟩
        refine .inr ⟨codeVerifier, _, haccepted, rfl, fun cause => ?_, fun tokens => rfl⟩
        exact ⟨_, hdeclined _ _ _ (by omega), rfl⟩

/-! ### The cookie -/

/-- The value of a cookie as `Cookie.String` writes it. -/
def sentValue (value : Str) : Str :=
  let kept := value.filter validCookieValueByte
  if space ∈ kept ∨ comma ∈ kept then 0x22 :: kept ++ [0x22] else kept

/-- What comes back of a value that was written is what a cookie may hold of it. -/
theorem parseCookieValue_sentValue (value : Str) :
    parseCookieValue (sentValue value) = some (value.filter validCookieValueByte) := by
  have hall : (value.filter validCookieValueByte).all validCookieValueByte = true := by simp
  have hquote : value.filter validCookieValueByte = [] ∨
      (value.filter validCookieValueByte).head? ≠ some 0x22 := by
    refine or_iff_not_imp_right.mpr fun h => ?_
    have hmem := List.mem_of_head? (not_not.mp h)
    exact absurd (List.all_eq_true.mp hall _ hmem) (by decide)
  unfold sentValue
  generalize value.filter validCookieValueByte = kept at hall hquote
  dsimp only
  split_ifs with hq
  · have hlast : (0x22 :: kept ++ [0x22]).getLast? = some 0x22 := List.getLast?_concat ..
    have hquoted : 1 < (0x22 :: kept ++ [0x22]).length ∧
        (0x22 :: kept ++ [0x22]).head? = some 0x22 ∧ _ := ⟨by simp, rfl, hlast⟩
    have hinner : ((0x22 :: kept ++ [0x22]).drop 1).dropLast = kept := List.dropLast_concat
    rw [parseCookieValue, if_pos hquoted, hinner, if_pos hall]
  · have hbare : ¬(1 < kept.length ∧ kept.head? = some 0x22 ∧ kept.getLast? = some 0x22) := by
      rintro ⟨hlen, hhead, -⟩
      rcases hquote with rfl | hne
      · simp at hlen
      · exact hne hhead
    rw [parseCookieValue, if_neg hbare, if_pos hall]

/-- The browser is sent to the root of the application and holds the token in the cookie. -/
structure SessionSet (answer : Answer) (token : Str) : Prop where
  status : answer.status = 302
  location : answer.header.get (str "Location") = [slash]
  sent : ∃ cookie ∈ answer.cookies, cookie.name = accessTokenCookie
  value : ∀ cookie ∈ answer.cookies, cookie.name = accessTokenCookie →
    0 ≤ cookie.maxAge ∧ parseCookieValue (sentValue cookie.value) = some token

theorem redirect_sessionSet_iff {method token : Str} {tokens : TokenResponse} :
    SessionSet (redirectFound method [slash] (sessionCookies tokens)) token ↔
      tokens.accessToken.filter validCookieValueByte = token := by
  have hcookies : ∀ cookie ∈ sessionCookies tokens, cookie.name = accessTokenCookie →
      cookie = setAccessTokenCookie tokens.accessToken tokens.expiresIn := by
    intro cookie hmem hname
    unfold sessionCookies at hmem
    simp only [List.cons_append, List.nil_append, List.mem_cons] at hmem
    rcases hmem with rfl | rfl | rfl | hmem
    · exact absurd hname (by decide)
    · exact absurd hname (by decide)
    · rfl
    · split_ifs at hmem
      · cases hmem
      · obtain rfl := List.mem_singleton.mp hmem
        have hne : refreshTokenCookie ≠ accessTokenCookie := by decide
        exact absurd hname hne
  have hmem : setAccessTokenCookie tokens.accessToken tokens.expiresIn ∈ sessionCookies tokens := by
    simp [sessionCookies]
  constructor
  · intro h
    have hparse := (h.value _ hmem rfl).2
    rw [setAccessTokenCookie, authCookie, parseCookieValue_sentValue] at hparse
    exact Option.some.inj hparse
  · rintro rfl
    refine ⟨rfl, ?_, ⟨_, hmem, rfl⟩, fun cookie hcookie hname => ?_⟩
    · unfold redirectFound
      dsimp only
      split_ifs
      · decide
      · decide
    · rw [hcookies cookie hcookie hname]
      exact ⟨le_max_right _ _, parseCookieValue_sentValue _⟩

/-! ### A session or no change -/

section
variable (texts : ErrorTexts) (post : Str → List (Str × Str) → Posted)
  (oidcCfg : Option TokenClient) (reply : ∀ op, Reply op) (r : UIRequest)

/-- The callback comes to the exchange, and the endpoint answers it with this value. -/
def RepliedWith (v : Json) : Prop :=
  ∃ c ∈ oidcCfg, ∃ codeVerifier, CallbackAccepted r codeVerifier ∧
    (post c.tokenURL (exchangeForm c (r.query (str "code")) codeVerifier)).Carries v

/-- The request determines the verifier, and so the form and its reply. -/
theorem repliedWith_iff {post : Str → List (Str × Str) → Posted} {c : TokenClient} {r : UIRequest}
    {codeVerifier : Str} {v : Json} (h : CallbackAccepted r codeVerifier) :
    RepliedWith post (some c) r v ↔
      (post c.tokenURL (exchangeForm c (r.query (str "code")) codeVerifier)).Carries v := by
  constructor
  · rintro ⟨c', hc', codeVerifier', h', hcarries⟩
    obtain rfl := Option.some.inj hc'
    obtain rfl := Option.some.inj (h'.verifier.symm.trans h.verifier)
    exact hcarries
  · exact fun hcarries => ⟨c, rfl, codeVerifier, h, hcarries⟩

theorem callback_cases :
    (Declined (callback texts post oidcCfg reply r) ∧
        ∀ v, RepliedWith post oidcCfg r v → unmarshalTokens v = none) ∨
      ∃ v tokens, RepliedWith post oidcCfg r v ∧ unmarshalTokens v = some tokens ∧
        (∀ v', RepliedWith post oidcCfg r v' → v' = v) ∧
        callback texts post oidcCfg reply r =
          redirectFound r.method [slash] (sessionCookies tokens) := by
  cases oidcCfg with
  | none => exact .inl ⟨⟨(by omega : 400 ≤ 503), rfl⟩, fun v ⟨c, hc, _⟩ => by cases hc⟩
  | some c =>
      unfold callback
      rw [Option.map_some]
      rcases handleCallback_cases c.toOIDCConfig r with
        ⟨answer, hdeclined, hdone, hnot⟩ | ⟨codeVerifier, next, haccepted, hcall, herror, hok⟩
      · rw [hdone]
        exact .inl ⟨hdeclined, fun v ⟨_, _, codeVerifier, h, _⟩ => absurd h (hnot codeVerifier)⟩
      · have hreply : ∀ v, RepliedWith post (some c) r v ↔
            (post c.tokenURL (exchangeForm c (r.query (str "code")) codeVerifier)).Carries v :=
          fun v => repliedWith_iff haccepted
        rw [hcall, Prog.eval]
        dsimp only
        cases hout : exchangeCode texts post c (r.query (str "code")) codeVerifier with
        | error cause =>
            obtain ⟨answer, hdeclined, hdone⟩ := herror cause
            rw [hdone]
            refine .inl ⟨hdeclined, fun v hv => ?_⟩
            cases htokens : unmarshalTokens v with
            | none => rfl
            | some tokens =>
                have hnok :=
                  hout.symm.trans (exchangeCode_ok_iff.mpr ⟨v, (hreply v).mp hv, htokens⟩)
                cases hnok
        | ok tokens =>
            obtain ⟨v, hcarries, htokens⟩ := exchangeCode_ok_iff.mp hout
            rw [hok]
            refine .inr ⟨v, tokens, (hreply v).mpr hcarries, htokens, fun v' hv' => ?_, rfl⟩
            obtain ⟨sent, hp, hread⟩ := hcarries
            obtain ⟨sent', hp', hread'⟩ := (hreply v').mp hv'
            rw [hp] at hp'
            obtain rfl := Except.ok.inj (Posted.reply.inj hp').2
            exact Option.some.inj (hread'.symm.trans hread)

/-- A callback reports an error and leaves the cookies alone, or it sends the browser to the
application with the access token of the reply. -/
def SessionOrNothing : Prop :=
  Declined (callback texts post oidcCfg reply r) ∨
    ∃ v token, RepliedWith post oidcCfg r v ∧ Json.Gives (str "access_token") token v ∧ token ≠ [] ∧
      SessionSet (callback texts post oidcCfg reply r) token

/-- The redirect of a callback is a login exactly when the reply it rests on has an access token
that a cookie can hold. -/
theorem sessionOrNothing_redirect_iff {v : Json} {tokens : TokenResponse}
    (hreplied : RepliedWith post oidcCfg r v) (htokens : unmarshalTokens v = some tokens)
    (honly : ∀ v', RepliedWith post oidcCfg r v' → v' = v)
    (hanswer : callback texts post oidcCfg reply r =
      redirectFound r.method [slash] (sessionCookies tokens)) :
    SessionOrNothing texts post oidcCfg reply r ↔
      ∃ token, Json.Gives (str "access_token") token v ∧ token ≠ [] ∧
        token.all validCookieValueByte = true := by
  have hstored := accessToken_of_unmarshal htokens
  unfold SessionOrNothing
  rw [hanswer]
  constructor
  · rintro (hdeclined | ⟨v', token, hv', hgives, hne, hset⟩)
    · exact absurd hdeclined.1 (by simp [redirectFound])
    · obtain rfl := honly v' hv'
      have hkept := redirect_sessionSet_iff.mp hset
      rw [hstored.1 token hgives] at hkept
      exact ⟨token, hgives, hne, by rw [← hkept]; simp⟩
  · rintro ⟨token, hgives, hne, hall⟩
    refine .inr ⟨v, token, hreplied, hgives, hne, redirect_sessionSet_iff.mpr ?_⟩
    rw [hstored.1 token hgives]
    exact List.filter_eq_self.mpr (List.all_eq_true.mp hall)

/-- A callback sets up a session or changes nothing if and only if every reply that decodes as a
token response gives it an access token that is not empty and fits into a cookie. -/
theorem sessionOrNothing_iff :
    SessionOrNothing texts post oidcCfg reply r ↔
      ∀ v, RepliedWith post oidcCfg r v → (unmarshalTokens v).isSome →
        ∃ token, Json.Gives (str "access_token") token v ∧ token ≠ [] ∧
          token.all validCookieValueByte = true := by
  rcases callback_cases texts post oidcCfg reply r with
    ⟨hdeclined, hnone⟩ | ⟨v, tokens, hreplied, htokens, honly, hanswer⟩
  · refine iff_of_true (.inl hdeclined) fun v hv hsome => ?_
    rw [hnone v hv] at hsome
    cases hsome
  · rw [sessionOrNothing_redirect_iff texts post oidcCfg reply r hreplied htokens honly hanswer]
    constructor
    · intro h v' hv' _
      rw [honly v' hv']
      exact h
    · exact fun h => h v hreplied (by rw [htokens]; rfl)

end

def exampleClient : TokenClient where
  clientID := str "pier"
  redirectURI := str "https://app/cb"
  authURL := str "https://kc/auth"
  endSessionURL := str "https://kc/logout"
  tokenURL := str "https://kc/token"

def emptyObject : Str := str "\x7b\x7d"

theorem read_emptyObject :
    Json.read (emptyObject.take maxTokenResponseBytes) = some (.object []) := by
  have htake : emptyObject.take maxTokenResponseBytes = emptyObject :=
    List.take_of_length_le (by decide)
  rw [htake]
  rfl

theorem firstCallback_accepted : CallbackAccepted firstCallback (rawURLEncode firstVerifier) where
  noError := firstCallback_query.1
  code := by
    rw [firstCallback_query.2.1]
    decide
  state := by
    rw [nonEmptyCookie, firstCallback_cookies.1, firstCallback_query.2.2]
    decide
  verifier := by
    rw [nonEmptyCookie, firstCallback_cookies.2]
    decide

/-- The endpoint answers 200 with an empty object, and the browser is sent on as logged in with an
empty token. -/
theorem callback_emptyReply :
    ¬SessionOrNothing ⟨id, id⟩ (fun _ _ => .reply 200 (.ok emptyObject)) (some exampleClient)
      (withBuckets []) firstCallback := by
  have hreplied : RepliedWith (fun _ _ => .reply 200 (.ok emptyObject)) (some exampleClient)
      firstCallback (.object []) :=
    ⟨_, rfl, _, firstCallback_accepted, _, rfl, read_emptyObject⟩
  rcases callback_cases ⟨id, id⟩ (fun _ _ => .reply 200 (.ok emptyObject)) (some exampleClient)
    (withBuckets []) firstCallback with ⟨-, hnone⟩ | ⟨v, tokens, hv, htokens, honly, hanswer⟩
  · cases hnone _ hreplied
  · rw [sessionOrNothing_redirect_iff _ _ _ _ _ hv htokens honly hanswer, ← honly _ hreplied]
    rintro ⟨token, ⟨fields, hfields, hholds⟩, -⟩
    obtain rfl := Json.object.inj hfields
    cases hholds

end PierGateway.WebUI
