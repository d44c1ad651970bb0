import PierGateway.Authorization
import PierGateway.CookieTransport
import PierGateway.CrossSite
import PierGateway.EventRuns
import PierGateway.LoginPairing
import PierGateway.StatsRuns

/-!
# Sessions

The gateway keeps no sessions. What a browser is signed in as is what its cookie says,
and four handlers write cookies: a login, a callback, a logout, each its own. The session
of the model is what a user means by one: it begins when the answer to a callback arrives,
with the token that was exchanged, and ends with its time or when the answer to a logout
arrives. Any number of requests are under way at once and their answers arrive in any
order. The session is read off the history of a run, and the jar of the browser refines it.
-/
namespace PierGateway.WebUI
open GoStrings HttpMessages Auth Acl Interaction EventRuns Digest

/-! ### Who writes cookies -/

/-- An answer without cookies, whatever the calls are answered. -/
abbrev Cookieless (p : Prog Op Reply Answer) : Prop :=
  p.Safe (fun _ => True) (fun _ _ => True) fun answer => answer.cookies = []

section
variable (a : API) (r : UIRequest)

theorem cookieless_handleListBuckets : Cookieless (a.handleListBuckets r) := by
  unfold API.handleListBuckets
  dsimp only
  split_ifs
  · refine ⟨trivial, fun out _ => ?_⟩
    cases out with
    | error err => rfl
    | ok names => rfl
  · rfl

theorem cookieless_guarded {bad : Prop} [Decidable bad] {bucket method code message : Str}
    {groups : List Str}
    {refused : Answer} {ready : Bool} {next : Prog Op Reply Answer} (hr : refused.cookies = [])
    (hnext : Cookieless next) :
    Cookieless (if bad then .done refused
      else if !checkAccess groups bucket method then .done (writeError 403 code message)
      else if !ready then .done backendUnavailable
      else next) := by
  split_ifs
  · exact hr
  · rfl
  · rfl
  · exact hnext

theorem cookieless_handleListObjects : Cookieless (a.handleListObjects r) := by
  refine cookieless_guarded rfl ⟨trivial, fun out _ => ?_⟩
  cases out <;> rfl

theorem cookieless_handleGetObject : Cookieless (a.handleGetObject r) := by
  refine cookieless_guarded rfl ⟨trivial, fun out _ => ?_⟩
  cases out <;> rfl

theorem cookieless_handleGetObjectMeta : Cookieless (a.handleGetObjectMeta r) := by
  refine cookieless_guarded rfl ⟨trivial, fun out _ => ?_⟩
  cases out <;> rfl

theorem cookieless_handlePutObject : Cookieless (a.handlePutObject r) := by
  refine cookieless_guarded rfl ⟨trivial, fun out _ => ?_⟩
  cases out <;> rfl

theorem cookieless_handleDeleteObject : Cookieless (a.handleDeleteObject r) := by
  refine cookieless_guarded rfl ⟨trivial, fun out _ => ?_⟩
  cases out <;> rfl

theorem cookieless_handleBucketStats : Cookieless (a.handleBucketStats r) := by
  refine cookieless_guarded rfl ⟨trivial, fun entered _ => ?_⟩
  cases entered with
  | cached resp => rfl
  | wait ch =>
      refine ⟨trivial, fun woken _ => ?_⟩
      cases woken with
      | false => rfl
      | true =>
          refine ⟨trivial, fun entry _ => ?_⟩
          cases entry <;> rfl
  | walk ch =>
      apply Prog.Safe.bind ((safe_computeBucketStats a _).mono (fun _ _ => trivial) fun _ h => h)
      intro result _
      refine ⟨trivial, fun _ _ => ?_⟩
      cases result <;> rfl

end

theorem cookieless_inner (cfg : UIConfig) {e : Endpoint} (he : e.throttled = false)
    (r : UIRequest) :
    Cookieless (cfg.inner e r) := by
  cases e with
  | me => rfl
  | buckets => exact cookieless_handleListBuckets cfg.api r
  | stats => exact cookieless_handleBucketStats cfg.api r
  | objectMeta => exact cookieless_handleGetObjectMeta cfg.api r
  | getObject => exact cookieless_handleGetObject cfg.api r
  | putObject => exact cookieless_handlePutObject cfg.api r
  | deleteObject => exact cookieless_handleDeleteObject cfg.api r
  | listObjects => exact cookieless_handleListObjects cfg.api r
  | _ => cases he

/-! ### One request -/

/-- An answer on its way to the browser. The tokens are those that a successful callback has
exchanged; the code does not keep them. -/
structure Pending where
  endpoint : Endpoint
  answer : Answer
  tokens : Option TokenResponse

/-- What a callback exchanges its code for, if it comes to that. -/
def exchanged (reply : ∀ op, Reply op) (e : Endpoint) (r : UIRequest) (answer : Answer) :
    Option TokenResponse :=
  if e = .callback ∧ answer.status = 302 then
    (reply (.exchangeCode (r.query (str "code"))
      ((nonEmptyCookie r pkceVerifierCookie).getD [])) : Except Str TokenResponse).toOption
  else none

/-- A request is handled, and its calls are answered by a function. -/
def respond (cfg : UIConfig) (reply : ∀ op, Reply op) (verifier : TokenVerifier) (e : Endpoint)
    (r : UIRequest) : Pending :=
  let answer := (cfg.handler verifier e r).eval reply
  { endpoint := e, answer := answer, tokens := exchanged reply e r answer }

namespace Pending

def LogsOut (p : Pending) : Prop := p.endpoint = .logout ∧ p.answer.status = 200

/-- The refresh token among the tokens, if there is one. -/
def refreshToken (p : Pending) : Option Str := (p.tokens.map (·.refreshToken)).filter (· ≠ [])

instance (p : Pending) : Decidable p.LogsOut := inferInstanceAs (Decidable (_ ∧ _))

/-- The cookies of an answer: those of a sign-in, those of a sign-out, or none of the session. -/
inductive Sound (p : Pending) : Prop
  | signIn (tokens : TokenResponse) (htokens : p.tokens = some tokens) (hout : ¬p.LogsOut)
      (hcookies : p.answer.cookies = sessionCookies tokens)
  | signOut (htokens : p.tokens = none) (hout : p.LogsOut)
      (hcookies : p.answer.cookies = [clearRefreshTokenCookie, clearCookie accessTokenCookie])
  | other (htokens : p.tokens = none) (hout : ¬p.LogsOut)
      (hcookies : ∀ c ∈ p.answer.cookies, c.name ≠ accessTokenCookie ∧ c.name ≠ refreshTokenCookie)

end Pending

/-- The replies are those of the function. -/
def Given (reply : ∀ op, Reply op) (op : Op) (x : Reply op) : Prop := x = reply op

theorem given (reply : ∀ op, Reply op) : ∀ op, Given reply op (reply op) := fun _ => rfl

/-- What is right when the replies keep a promise is right of the answer that is given. -/
theorem right_of_safe {reply : ∀ op, Reply op} {allowed : Op → Prop}
    {promised : ∀ op, Reply op → Prop}
    {right : Answer → Prop} (hreply : ∀ op, promised op (reply op)) {p : Prog Op Reply Answer}
    (h : p.Safe allowed promised right) : right (p.eval reply) := by
  induction p with
  | done answer => exact h
  | call op next ih => exact ih (reply op) (h.2 (reply op) (hreply op))

section
variable {cfg : UIConfig} {reply : ∀ op, Reply op} {verifier : TokenVerifier} {r : UIRequest}

theorem exchanged_eq_none {e : Endpoint} {answer : Answer}
    (h : e = .callback → answer.status ≠ 302) :
    exchanged reply e r answer = none := by
  unfold exchanged
  exact if_neg fun hc => h hc.1 hc.2

/-- An answer without cookies that ends no session. -/
theorem sound_of_cookies_nil {e : Endpoint} {answer : Answer} (hcookies : answer.cookies = [])
    (hcallback : e = .callback → answer.status ≠ 302)
    (hlogout : e = .logout → answer.status ≠ 200) :
    Pending.Sound ⟨e, answer, exchanged reply e r answer⟩ := by
  refine .other (exchanged_eq_none hcallback) (fun h => hlogout h.1 h.2) fun c hc => ?_
  rw [hcookies] at hc
  cases hc

theorem sound_of_cookieless {e : Endpoint} {answer : Answer} (he : e.throttled = false)
    (hcookies : answer.cookies = []) :
    Pending.Sound ⟨e, answer, exchanged reply e r answer⟩ := by
  have hcallback : e ≠ .callback := by
    rintro rfl
    cases he
  have hlogout : e ≠ .logout := by
    rintro rfl
    cases he
  exact sound_of_cookies_nil hcookies (fun h => absurd h hcallback) fun h => absurd h hlogout

theorem sound_login (oidcCfg : Option OIDCConfig) :
    Pending.Sound ⟨.login, (handleLogin oidcCfg r).eval reply,
      exchanged reply .login r ((handleLogin oidcCfg r).eval reply)⟩ := by
  have hnames : pkceVerifierCookie ≠ accessTokenCookie ∧ pkceVerifierCookie ≠ refreshTokenCookie ∧
      oauthStateCookie ≠ accessTokenCookie ∧ oauthStateCookie ≠ refreshTokenCookie := by decide
  have hwritten : (handleLogin oidcCfg r).Safe (fun _ => True) (Given reply) fun answer =>
      ∀ c ∈ answer.cookies, c.name ≠ accessTokenCookie ∧ c.name ≠ refreshTokenCookie := by
    cases oidcCfg with
    | none => exact fun c hc => absurd hc List.not_mem_nil
    | some cfg =>
        refine ⟨trivial, fun codeVerifier _ => ?_⟩
        cases codeVerifier with
        | error err => exact fun c hc => absurd hc List.not_mem_nil
        | ok codeVerifier =>
            refine ⟨trivial, fun state _ => ?_⟩
            cases state with
            | error err => exact fun c hc => absurd hc List.not_mem_nil
            | ok state =>
                intro c hc
                rcases List.mem_pair.mp hc with rfl | rfl
                · exact ⟨hnames.1, hnames.2.1⟩
                · exact ⟨hnames.2.2.1, hnames.2.2.2⟩
  have hnone : exchanged reply .login r ((handleLogin oidcCfg r).eval reply) = none :=
    exchanged_eq_none fun h => (by cases h)
  have hright := right_of_safe (given reply) hwritten
  exact .other hnone (fun h => (by cases h.1)) hright

theorem sound_callback (oidcCfg : Option OIDCConfig) :
    Pending.Sound ⟨.callback, (handleCallback oidcCfg r).eval reply,
      exchanged reply .callback r ((handleCallback oidcCfg r).eval reply)⟩ := by
  have hsound : (handleCallback oidcCfg r).Safe (fun _ => True) (Given reply) fun answer =>
      Pending.Sound ⟨.callback, answer, exchanged reply .callback r answer⟩ := by
    have hrefused : ∀ (status : ℕ) (code message : Str), status ≠ 302 →
        Pending.Sound ⟨.callback, writeError status code message,
          exchanged reply .callback r (writeError status code message)⟩ := by
      intro status code message hstatus
      exact sound_of_cookies_nil rfl (fun _ => hstatus) fun h => (by cases h)
    cases oidcCfg with
    | none => exact hrefused _ _ _ (by decide)
    | some cfg =>
        unfold handleCallback
        dsimp only
        split_ifs
        · exact hrefused _ _ _ (by decide)
        · exact hrefused _ _ _ (by decide)
        · exact hrefused _ _ _ (by decide)
        · cases hverifier : nonEmptyCookie r pkceVerifierCookie with
          | none => exact hrefused _ _ _ (by decide)
          | some codeVerifier =>
              refine ⟨trivial, fun out hout => ?_⟩
              cases out with
              | error err => exact hrefused _ _ _ (by decide)
              | ok tokens =>
                  refine .signIn tokens ?_ (fun h => (by cases h.1)) rfl
                  unfold exchanged
                  rw [if_pos ⟨rfl, rfl⟩, hverifier, Option.getD_some, ← hout]
                  rfl
  exact right_of_safe (given reply) hsound

theorem sound_logout (oidcCfg : Option OIDCConfig) :
    Pending.Sound ⟨.logout, (handleLogout oidcCfg r).eval reply,
      exchanged reply .logout r ((handleLogout oidcCfg r).eval reply)⟩ := by
  unfold handleLogout
  split_ifs
  · exact sound_of_cookies_nil rfl (fun h => (by cases h)) fun _ h => (by cases h)
  · refine .signOut ?_ ⟨rfl, rfl⟩ rfl
    dsimp only
    exact exchanged_eq_none fun h => (by cases h)

/-- Every answer the server gives is one of the three. -/
theorem sound_respond (cfg : UIConfig) (reply : ∀ op, Reply op) (verifier : TokenVerifier)
    (e : Endpoint)
    (r : UIRequest) : (respond cfg reply verifier e r).Sound := by
  unfold respond
  dsimp only
  by_cases he : e.throttled = true
  · have hhandler : cfg.handler verifier e r = rateLimitMiddleware (cfg.inner e) r := by
      unfold UIConfig.handler
      rw [if_pos he]
    rw [hhandler]
    unfold rateLimitMiddleware
    dsimp only [Prog.eval]
    split_ifs
    · cases e with
      | login => exact sound_login cfg.oidcCfg
      | callback => exact sound_callback cfg.oidcCfg
      | logout => exact sound_logout cfg.oidcCfg
      | _ => cases he
    · exact sound_of_cookies_nil rfl (fun _ h => (by cases h)) fun _ h => (by cases h)
  · have hopen : e.throttled = false := by simpa using he
    apply sound_of_cookieless hopen
    have hcookieless : Cookieless (cfg.handler verifier e r) := by
      unfold UIConfig.handler
      rw [if_neg he]
      apply safe_authMiddleware
      · intro status code message
        rfl
      · intro claims username _ _
        exact cookieless_inner cfg hopen _
    exact right_of_safe (fun _ => trivial) hcookieless

end

/-! ### The browser and its session -/

/-- What the user is signed in with, and until when. -/
structure Session where
  token : Str
  expires : Option Time
deriving DecidableEq

/-- A browser with the answers on their way to it. -/
structure SessionBrowser where
  jar : Jar := fun _ => none
  now : Time
  underWay : List Pending := []

/-- The session that tokens open. -/
def Session.opened (now : Time) (tokens : TokenResponse) : Session where
  token := tokens.accessToken
  expires := if 0 < tokens.expiresIn then some (now + tokens.expiresIn * second) else none

def Session.Open (now : Time) (x : Session) : Prop := ∀ t ∈ x.expires, now < t

instance (now : Time) (x : Session) : Decidable (x.Open now) :=
  inferInstanceAs (Decidable (∀ _ ∈ _, _))

inductive SessionEvent where
  | ask (e : Endpoint) (r : UIRequest) (verifier : TokenVerifier) (reply : ∀ op, Reply op)
  | deliver (i : ℕ)
  | lose (i : ℕ)
  | wait (d : ℕ)

namespace SessionBrowser

/-- An answer arrives: its cookies as they are written. -/
def receive (b : SessionBrowser) (i : ℕ) (p : Pending) : SessionBrowser :=
  { b with
    jar := b.jar.receive b.now (p.answer.cookies.map Cookie.written)
    underWay := b.underWay.eraseIdx i }

def step (cfg : UIConfig) (b : SessionBrowser) : SessionEvent → Option SessionBrowser
  | .ask e r verifier reply =>
      some { b with underWay := b.underWay ++ [respond cfg reply verifier e r] }
  | .deliver i => b.underWay[i]?.map (b.receive i)
  | .lose i => b.underWay[i]?.map fun _ => { b with underWay := b.underWay.eraseIdx i }
  | .wait d => some { b with now := b.now + d }

/-- The answer that an event brings, and when. -/
def arrival (b : SessionBrowser) : SessionEvent → Option (Time × Pending)
  | .deliver i => b.underWay[i]?.map fun p => (b.now, p)
  | _ => none

/-- The session that answers amount to: the last one to sign in or out decides. -/
def sessionOf : List (Time × Pending) → Option Session :=
  decided (fun a => a.2.tokens.isSome || a.2.LogsOut) fun a => a.2.tokens.map (.opened a.1)

/-- The refresh token that answers amount to: the last one to bring any or to log out decides. -/
def refreshTokenOf : List (Time × Pending) → Option Str :=
  decided (fun a => a.2.refreshToken.isSome || a.2.LogsOut) fun a => a.2.refreshToken

/-- The session after a history, as long as it is open. -/
def current (h : List (SessionBrowser × SessionEvent)) (now : Time) : Option Session :=
  (sessionOf (seen arrival h)).filter fun x => x.Open now

/-- The cookies of the jar are those of the session. -/
structure Faithful (h : List (SessionBrowser × SessionEvent)) (b : SessionBrowser) : Prop where
  access : b.jar (accessTokenCookie, cookiePath) =
    (sessionOf (seen arrival h)).map fun x => ⟨sentValue x.token, x.expires⟩
  refresh : b.jar (refreshTokenCookie, cookiePath) =
    (refreshTokenOf (seen arrival h)).map fun token => ⟨sentValue token, none⟩
  sound : ∀ p ∈ b.underWay, p.Sound

theorem store_ne {c : Cookie} {name : Str} (h : c.name ≠ name) (now : Time) (jar : Jar)
    (path : Str) :
    jar.store now c (name, path) = jar (name, path) := by
  unfold Jar.store
  apply Function.update_of_ne
  intro he
  exact h (Prod.mk.inj he).1.symm

theorem receive_of_names {cookies : List Cookie} {name : Str} (h : ∀ c ∈ cookies, c.name ≠ name)
    (now : Time) (path : Str) (jar : Jar) :
    jar.receive now (cookies.map Cookie.written) (name, path) = jar (name, path) := by
  induction cookies generalizing jar with
  | nil => rfl
  | cons c cookies ih =>
      have hrest := ih (fun d hd => h d (List.mem_cons_of_mem _ hd)) (jar.store now c.written)
      have hname : c.written.name ≠ name := h c List.mem_cons_self
      exact hrest.trans (store_ne hname now jar path)

theorem faithful_start (now : Time) : Faithful [] { now := now } where
  access := rfl
  refresh := rfl
  sound _ h := absurd h List.not_mem_nil

variable {h : List (SessionBrowser × SessionEvent)} {b : SessionBrowser}

theorem session_names :
    pkceVerifierCookie ≠ accessTokenCookie ∧ pkceVerifierCookie ≠ refreshTokenCookie ∧
    oauthStateCookie ≠ accessTokenCookie ∧ oauthStateCookie ≠ refreshTokenCookie ∧
    accessTokenCookie ≠ refreshTokenCookie := by decide

theorem store_self (now : Time) (jar : Jar) (c : Cookie) :
    jar.store now c (c.name, c.path) =
      if c.maxAge < 0 then none
      else some ⟨c.value, if c.maxAge = 0 then none else some (now + c.maxAge * second)⟩ :=
  Function.update_self ..

/-- The access token of a sign-in lasts as long as its session. -/
theorem receive_access (now : Time) (jar : Jar) (tokens : TokenResponse) :
    jar.receive now ((sessionCookies tokens).map Cookie.written) (accessTokenCookie, cookiePath) =
      some ⟨sentValue tokens.accessToken, (Session.opened now tokens).expires⟩ := by
  obtain ⟨hpkce, -, hstate, -, hrefresh⟩ := session_names
  have hlater :
      ∀ c ∈ (if tokens.refreshToken = [] then []
          else [setRefreshTokenCookie tokens.refreshToken 0]),
      c.name ≠ accessTokenCookie := by
    intro c hc
    split_ifs at hc
    · cases hc
    · rw [List.mem_singleton.mp hc]
      exact hrefresh.symm
  have hage : ¬max tokens.expiresIn 0 < 0 := by omega
  have hexpires :
      (if max tokens.expiresIn 0 = 0 then none else some (now + max tokens.expiresIn 0 * second)) =
      (Session.opened now tokens).expires := by
    unfold Session.opened
    by_cases hpos : 0 < tokens.expiresIn
    · rw [if_pos hpos, max_eq_left hpos.le, if_neg hpos.ne']
    · rw [if_neg hpos, max_eq_right (not_lt.mp hpos), if_pos rfl]
  have hstored := store_self now (jar.receive now
      ([clearCookie pkceVerifierCookie, clearCookie oauthStateCookie].map Cookie.written))
    (setAccessTokenCookie tokens.accessToken tokens.expiresIn).written
  unfold sessionCookies
  rw [List.map_append, Jar.receive, List.foldl_append]
  refine (receive_of_names hlater now cookiePath _).trans (hstored.trans ?_)
  change (if max tokens.expiresIn 0 < 0 then none else some (Kept.mk _ _)) = _
  rw [if_neg hage, ← hexpires]
  rfl

/-- A refresh token is kept until there is a new one. -/
theorem receive_refresh (now : Time) (jar : Jar) (tokens : TokenResponse) :
    jar.receive now ((sessionCookies tokens).map Cookie.written) (refreshTokenCookie, cookiePath) =
      if tokens.refreshToken = [] then jar (refreshTokenCookie, cookiePath)
      else some ⟨sentValue tokens.refreshToken, none⟩ := by
  obtain ⟨-, hpkce, -, hstate, haccess⟩ := session_names
  have hfirst : ∀ c ∈ [clearCookie pkceVerifierCookie, clearCookie oauthStateCookie,
      setAccessTokenCookie tokens.accessToken tokens.expiresIn], c.name ≠ refreshTokenCookie := by
    intro c hc
    simp only [List.mem_cons, List.not_mem_nil, or_false] at hc
    rcases hc with rfl | rfl | rfl
    · exact hpkce
    · exact hstate
    · exact haccess
  have hrest := receive_of_names hfirst now cookiePath jar
  unfold sessionCookies
  rw [List.map_append, Jar.receive, List.foldl_append]
  split_ifs
  · exact hrest
  · exact store_self now (jar.receive now
      ([clearCookie pkceVerifierCookie, clearCookie oauthStateCookie,
        setAccessTokenCookie tokens.accessToken tokens.expiresIn].map Cookie.written))
      (setRefreshTokenCookie tokens.refreshToken 0).written

theorem Faithful.receive (hb : Faithful h b) {i : ℕ} {p : Pending} (hp : b.underWay[i]? = some p) :
    Faithful (h ++ [(b, .deliver i)]) (b.receive i p) := by
  have harrived : seen arrival (h ++ [(b, .deliver i)]) = seen arrival h ++ [(b.now, p)] := by
    rw [seen_snoc]
    simp [arrival, hp]
  have hunderWay : ∀ q ∈ b.underWay.eraseIdx i, q.Sound := fun q hq =>
    hb.sound q (List.mem_of_mem_eraseIdx hq)
  unfold SessionBrowser.receive
  cases hb.sound p (List.mem_of_getElem? hp) with
  | signIn tokens htokens hout hcookies =>
      constructor
      · rw [harrived, sessionOf, decided_snoc, hcookies, htokens]
        exact receive_access b.now b.jar tokens
      · rw [harrived, refreshTokenOf, decided_snoc, hcookies]
        dsimp only
        rw [receive_refresh]
        unfold Pending.refreshToken
        rw [htokens]
        by_cases hnone : tokens.refreshToken = []
        · simp only [hnone, if_true, Option.map_some, Option.filter_some, ne_eq, not_true_eq_false,
            decide_false, Bool.false_eq_true, if_false, Option.isSome_none, hout, Bool.or_self]
          exact hb.refresh
        · simp [hnone]
      · exact hunderWay
  | signOut htokens hout hcookies =>
      constructor
      · rw [harrived, sessionOf, decided_snoc, hcookies, htokens]
        simp only [hout, decide_true, Bool.or_true, if_true]
        exact store_self b.now (b.jar.store b.now clearRefreshTokenCookie.written)
          (clearCookie accessTokenCookie).written
      · rw [harrived, refreshTokenOf, decided_snoc, hcookies]
        have hname : (clearCookie accessTokenCookie).written.name ≠ refreshTokenCookie :=
          session_names.2.2.2.2
        have hkept :=
          store_ne hname b.now (b.jar.store b.now clearRefreshTokenCookie.written) cookiePath
        simp only [hout, decide_true, Bool.or_true, if_true, Pending.refreshToken, htokens]
        exact hkept.trans (store_self b.now b.jar clearRefreshTokenCookie.written)
      · exact hunderWay
  | other htokens hout hcookies =>
      constructor
      · rw [harrived, sessionOf, decided_snoc]
        dsimp only
        rw [receive_of_names fun c hc => (hcookies c hc).1]
        simp only [hout, htokens, Option.isSome_none, decide_false, Bool.or_self,
          Bool.false_eq_true, if_false]
        exact hb.access
      · rw [harrived, refreshTokenOf, decided_snoc]
        dsimp only
        rw [receive_of_names fun c hc => (hcookies c hc).2]
        simp only [hout, Pending.refreshToken, htokens, Option.map_none, Option.filter_none,
          Option.isSome_none, decide_false, Bool.or_self, Bool.false_eq_true, if_false]
        exact hb.refresh
      · exact hunderWay

theorem Faithful.of_jar_eq (hb : Faithful h b) {e : SessionEvent} (he : arrival b e = none)
    {c : SessionBrowser} (hjar : c.jar = b.jar) (hsound : ∀ p ∈ c.underWay, p.Sound) :
    Faithful (h ++ [(b, e)]) c := by
  have harrived : seen arrival (h ++ [(b, e)]) = seen arrival h := by
    rw [seen_snoc, he, Option.toList_none, List.append_nil]
  constructor
  · rw [harrived, hjar]
    exact hb.access
  · rw [harrived, hjar]
    exact hb.refresh
  · exact hsound

theorem Faithful.step {cfg : UIConfig} {c : SessionBrowser} {e : SessionEvent} (hb : Faithful h b)
    (hstep : b.step cfg e = some c) : Faithful (h ++ [(b, e)]) c := by
  cases e with
  | ask endpoint r verifier reply =>
      rw [← Option.some.inj hstep]
      refine hb.of_jar_eq rfl rfl fun p hp => ?_
      rcases List.mem_append.mp hp with hp | hp
      · exact hb.sound p hp
      · rw [List.mem_singleton.mp hp]
        exact sound_respond cfg reply verifier endpoint r
  | deliver i =>
      obtain ⟨p, hp, rfl⟩ := Option.map_eq_some_iff.mp hstep
      exact hb.receive hp
  | lose i =>
      obtain ⟨p, -, rfl⟩ := Option.map_eq_some_iff.mp hstep
      exact hb.of_jar_eq rfl rfl fun q hq => hb.sound q (List.mem_of_mem_eraseIdx hq)
  | wait d =>
      rw [← Option.some.inj hstep]
      exact hb.of_jar_eq rfl rfl hb.sound

/-! ### What the server sees of it -/

/-- A request of this browser: on its one line of cookies stands the access token the jar sends,
among whatever other cookies. -/
structure Carried (b : SessionBrowser) (r : UIRequest) : Prop where
  line : ∃ cookies,
    r.header.values (str "Cookie") = (if cookies = [] then [] else [cookieLine cookies]) ∧
    (∀ c ∈ cookies, Sendable c) ∧
    ∀ raw, (accessTokenCookie, raw) ∈ cookies ↔ b.jar.sent b.now accessTokenCookie = some raw

theorem Faithful.sent (hb : Faithful h b) :
    b.jar.sent b.now accessTokenCookie = (current h b.now).map fun x => sentValue x.token := by
  unfold Jar.sent current
  rw [hb.access]
  cases sessionOf (seen arrival h) with
  | none => rfl
  | some x =>
      dsimp only [Option.map_some]
      by_cases hopen : x.Open b.now
      · have hall : ∀ t ∈ x.expires, b.now < t := hopen
        rw [if_pos hall, Option.filter_some, if_pos (by simpa using hopen)]
        rfl
      · have hall : ¬∀ t ∈ x.expires, b.now < t := hopen
        rw [if_neg hall, Option.filter_some, if_neg (by simpa using hopen)]
        rfl

theorem cookie_of_carried (hb : Faithful h b) {r : UIRequest} (hr : b.Carried r) :
    r.cookie accessTokenCookie = (current h b.now).map fun x => readBack x.token := by
  obtain ⟨cookies, hline, hsend, hmem⟩ := hr.line
  have hread : readCookies r.header = cookies.map fun c => (c.1, valueRead c.2) := by
    by_cases hnil : cookies = []
    · rw [if_pos hnil] at hline
      unfold readCookies
      rw [hline, hnil]
      rfl
    · rw [if_neg hnil] at hline
      exact readCookies_line hnil hsend hline
  rw [hb.sent] at hmem
  unfold Request.cookie
  rw [hread]
  cases hcurrent : current h b.now with
  | none =>
      rw [hcurrent] at hmem
      rw [Option.map_none, List.lookup_eq_none_iff]
      intro c hc
      obtain ⟨⟨name, raw⟩, hcookie, rfl⟩ := List.mem_map.mp hc
      simp only [bne_iff_ne, ne_eq]
      rintro rfl
      cases (hmem raw).mp hcookie
  | some x =>
      rw [hcurrent] at hmem
      have hfound : (accessTokenCookie, readBack x.token) ∈
          cookies.map fun c => (c.1, valueRead c.2) := by
        refine List.mem_map.mpr ⟨_, (hmem (sentValue x.token)).mpr rfl, ?_⟩
        rw [valueRead_sentValue]
      cases hlookup : (cookies.map fun c => (c.1, valueRead c.2)).lookup accessTokenCookie with
      | none =>
          have hnone := List.lookup_eq_none_iff.mp hlookup _ hfound
          simp at hnone
      | some v =>
          obtain ⟨before, after, hsplit, -⟩ := List.lookup_eq_some_iff.mp hlookup
          have hv : (accessTokenCookie, v) ∈ cookies.map fun c => (c.1, valueRead c.2) := by
            simp [hsplit]
          obtain ⟨⟨name, raw⟩, hcookie, he⟩ := List.mem_map.mp hv
          obtain ⟨rfl, rfl⟩ := Prod.mk.inj he
          obtain rfl := Option.some.inj ((hmem raw).mp hcookie)
          rw [valueRead_sentValue]
          rfl

/-- The token a request is known by that names none itself. -/
theorem extractToken_of_carried (hb : Faithful h b) {r : UIRequest} (hr : b.Carried r)
    (hbearer : ∀ token, ¬BearerToken r token) :
    (extractToken r).1 = ((current h b.now).map fun x => readBack x.token).getD [] := by
  rw [extractToken_of_no_bearer hbearer]
  unfold cookieToken
  rw [cookie_of_carried hb hr]
  cases hcurrent : current h b.now with
  | none => rfl
  | some x =>
      rw [Option.map_some, Option.getD_some]
      cases readBack x.token <;> rfl

theorem faithful_of_run {cfg : UIConfig} {now : Time}
    (hrun : Runs (SessionBrowser.step cfg) unguarded { now := now } h b) : Faithful h b :=
  hrun.invariant (faithful_start now) fun _ _ _ _ hb _ hstep => hb.step hstep

end SessionBrowser

open SessionBrowser in
/-- In every run of a browser, whatever it asks for, whatever is answered and in whatever order the
answers arrive, a request that names no token itself is known by the one that the last callback to
arrive has exchanged, for as long as that was to last and until the answer to a logout arrives;
without one, it is refused by every endpoint behind authentication before that does anything. The
refresh token that is sent need not be of the same session: it is the last one that came. -/
theorem session_refined (cfg : UIConfig) {now : Time} {h : List (SessionBrowser × SessionEvent)}
    {b : SessionBrowser} (hrun : Runs (SessionBrowser.step cfg) unguarded { now := now } h b)
    {r : UIRequest} (hr : b.Carried r) :
    (∀ token, BearerToken r token → extractToken r = (token, false)) ∧
      ((∀ token, ¬BearerToken r token) →
        (extractToken r).1 = ((current h b.now).map fun x => readBack x.token).getD [] ∧
        (current h b.now = none → ∀ verifier e, e.throttled = false → cfg.handler verifier e r =
          .done (writeError 401 (str "unauthorized") (str "missing authentication")))) ∧
      b.jar.sent b.now refreshTokenCookie =
        (refreshTokenOf (seen arrival h)).map sentValue := by
  have hfaithful := faithful_of_run hrun
  refine ⟨fun token => extractToken_of_bearer, fun hbearer => ?_, ?_⟩
  · have htoken := extractToken_of_carried hfaithful hr hbearer
    refine ⟨htoken, fun hnone verifier e he => ?_⟩
    have hnil : (extractToken r).1 = [] := by
      rw [htoken, hnone]
      rfl
    unfold UIConfig.handler
    rw [if_neg (by simp [he])]
    unfold authMiddlewareWithMapper
    dsimp only
    rw [if_pos hnil]
  · unfold Jar.sent
    rw [hfaithful.refresh]
    cases refreshTokenOf (seen arrival h) <;> simp

/-- A provider that exchanges every code for the same tokens, with nothing behind the gateway. -/
def oneProvider : ∀ op, Reply op
  | .listBuckets => .error []
  | .listObjects .. => .error []
  | .getObject .. => .error []
  | .headObject .. => .error []
  | .putObject .. => .error []
  | .deleteObject .. => .error []
  | .statsEnter _ => .wait 0
  | .statsWait _ => false
  | .statsRead _ => none
  | .statsFinish .. => ()
  | .allow _ => true
  | .randomBytes _ => .error []
  | .exchangeCode .. => .ok { accessToken := str "a b", expiresIn := 300 }

def signedInConfig : UIConfig :=
  { api := { hasBackend := false }, oidcCfg := some ⟨[], [], [], []⟩ }

/-- The tokens of that provider. -/
def spacedTokens : TokenResponse := { accessToken := str "a b", expiresIn := 300 }

theorem respond_firstCallback :
    ∃ answer, respond signedInConfig oneProvider (fun _ => .error []) .callback firstCallback =
      ⟨.callback, answer, some spacedTokens⟩ := by
  have hinner : (handleCallback (some ⟨[], [], [], []⟩) firstCallback).eval oneProvider =
      redirectFound firstCallback.method [slash] (sessionCookies spacedTokens) := by
    rcases handleCallback_cases ⟨[], [], [], []⟩ firstCallback with
      ⟨answer, -, -, hnone⟩ | ⟨codeVerifier, next, -, hcall, -, hok⟩
    · exact absurd firstCallback_accepted (hnone _)
    · rw [hcall]
      change (next (.ok spacedTokens)).eval oneProvider = _
      rw [hok]
      rfl
  have heval :
      (signedInConfig.handler (fun _ => .error []) .callback firstCallback).eval oneProvider =
      redirectFound firstCallback.method [slash] (sessionCookies spacedTokens) := by
    have hthrottled : Endpoint.callback.throttled = true := rfl
    have hallowed : ∀ (next : Handler) (r : UIRequest),
        (rateLimitMiddleware next r).eval oneProvider = (next r).eval oneProvider := fun _ _ => rfl
    unfold UIConfig.handler
    rw [if_pos hthrottled, hallowed]
    exact hinner
  refine ⟨redirectFound firstCallback.method [slash] (sessionCookies spacedTokens), ?_⟩
  unfold respond exchanged
  dsimp only
  rw [heval, if_pos ⟨rfl, rfl⟩]
  rfl

def cookieRequest : UIRequest where
  method := str "GET"
  url := { path := str "/api/v1/auth/me" }
  header := .ofLines [(str "Cookie", str "access_token=\"a b\"")]

theorem exists_signedIn : ∃ h b,
    Runs (SessionBrowser.step signedInConfig) unguarded { now := 0 } h b ∧ b.now = 0 ∧
      SessionBrowser.current h 0 = some (.opened 0 spacedTokens) := by
  obtain ⟨answer, hrespond⟩ := respond_firstCallback
  obtain ⟨h, hasked, harrived⟩ :
      ∃ h, Runs (SessionBrowser.step signedInConfig) unguarded { now := 0 } h
        { now := 0, underWay := [⟨.callback, answer, some spacedTokens⟩] } ∧
        seen SessionBrowser.arrival h = [] := by
    refine ⟨_, Runs.nil.snoc
      (a := .ask .callback firstCallback (fun _ => .error []) oneProvider) trivial ?_, rfl⟩
    dsimp only [SessionBrowser.step]
    rw [hrespond]
    rfl
  refine ⟨_, _, hasked.snoc (a := .deliver 0) trivial rfl, rfl, ?_⟩
  unfold SessionBrowser.current SessionBrowser.sessionOf
  rw [seen_snoc, harrived]
  have hopen : (Session.opened 0 spacedTokens).Open 0 := by decide
  change Option.filter (fun x => decide (Session.Open 0 x)) (some (.opened 0 spacedTokens)) = _
  rw [Option.filter_some, if_pos (decide_eq_true hopen)]

/-- A token with a space in it goes through the jar and comes back. -/
theorem session_refined_callback : (extractToken cookieRequest).1 = str "a b" := by
  obtain ⟨h, b, hrun, hnow, hcurrent⟩ := exists_signedIn
  have hsent := (SessionBrowser.faithful_of_run hrun).sent
  rw [hnow, hcurrent] at hsent
  have hcarried : b.Carried cookieRequest := by
    refine ⟨⟨[(accessTokenCookie, sentValue (str "a b"))], by decide, ?_, fun raw => ?_⟩⟩
    · intro c hc
      obtain rfl := List.mem_singleton.mp hc
      exact ⟨by decide, by decide, str "a b", rfl⟩
    · rw [hnow, hsent, List.mem_singleton, Prod.mk.injEq]
      exact ⟨fun h => congrArg some h.2.symm, fun h => ⟨rfl, (Option.some.inj h).symm⟩⟩
  have hbearer : ∀ token, ¬BearerToken cookieRequest token := by
    rintro token ⟨scheme, rest, hheader, -⟩
    have hnone : cookieRequest.header.get (str "Authorization") = [] := by decide
    rw [hnone] at hheader
    simp at hheader
  rw [((session_refined signedInConfig hrun hcarried).2.1 hbearer).1, hnow, hcurrent]
  decide

end PierGateway.WebUI
