import PierGateway.LoginRuns

/-!
# Verifier and state stay paired

The jar holds the two cookies of one login with one expiry time, or neither: an answer
to a login brings both, the redirect at the end of a callback takes both away, no
other answer touches them, and they expire together. What a tab sends is read from
the jar at one moment, so the verifier it shows is the one that was drawn with the
state it is called back with, however the tabs interleave.
-/
namespace PierGateway.WebUI
open GoStrings Interaction Digest

/-! ### Cookies in a jar -/

section
variable {now : Time} {jar : Jar}

theorem Jar.receive_nil (now : Time) (jar : Jar) : jar.receive now [] = jar := rfl

theorem Jar.receive_cons (now : Time) (jar : Jar) (c : Cookie) (cookies : List Cookie) :
    jar.receive now (c :: cookies) = (jar.store now c).receive now cookies := rfl

theorem Jar.store_ne {c : Cookie} {name path : Str} (h : c.name ≠ name) :
    jar.store now c (name, path) = jar (name, path) :=
  Function.update_of_ne (fun he => h (Prod.mk.inj he).1.symm) ..

theorem Jar.receive_ne {cookies : List Cookie} {name path : Str}
    (h : ∀ c ∈ cookies, c.name ≠ name) :
    jar.receive now cookies (name, path) = jar (name, path) := by
  induction cookies generalizing jar with
  | nil => rfl
  | cons c cookies ih =>
      rw [Jar.receive_cons, ih fun c' hc' => h c' (List.mem_cons_of_mem _ hc'),
        Jar.store_ne (h c List.mem_cons_self)]

theorem Jar.store_transient (name value : Str) :
    jar.store now (setTransientCookie name value) (name, cookiePath) =
      some ⟨value, some (now + 300 * second)⟩ := Function.update_self ..

theorem Jar.store_clear (name : Str) :
    jar.store now (clearCookie name) (name, cookiePath) = none := Function.update_self ..

end

theorem cookie_names :
    pkceVerifierCookie ≠ oauthStateCookie ∧ accessTokenCookie ≠ oauthStateCookie ∧
      accessTokenCookie ≠ pkceVerifierCookie ∧ refreshTokenCookie ≠ oauthStateCookie ∧
      refreshTokenCookie ≠ pkceVerifierCookie := by
  simp [pkceVerifierCookie, oauthStateCookie, accessTokenCookie, refreshTokenCookie]

/-- The cookies of the answer to a login. -/
def loginCookies (verifier state : Str) : List Cookie :=
  [setTransientCookie pkceVerifierCookie verifier, setTransientCookie oauthStateCookie state]

theorem Jar.receive_login (now : Time) (jar : Jar) (verifier state : Str) :
    jar.receive now (loginCookies verifier state) (oauthStateCookie, cookiePath) =
        some ⟨state, some (now + 300 * second)⟩ ∧
      jar.receive now (loginCookies verifier state) (pkceVerifierCookie, cookiePath) =
        some ⟨verifier, some (now + 300 * second)⟩ := by
  have hname : (setTransientCookie oauthStateCookie state).name ≠ pkceVerifierCookie :=
    cookie_names.1.symm
  unfold loginCookies
  rw [Jar.receive_cons, Jar.receive_cons, Jar.receive_nil, Jar.store_ne hname]
  exact ⟨Jar.store_transient .., Jar.store_transient ..⟩

theorem Jar.sent_login (now : Time) (jar : Jar) (verifier state : Str) :
    (jar.receive now (loginCookies verifier state)).sent now oauthStateCookie = some state ∧
      (jar.receive now (loginCookies verifier state)).sent now pkceVerifierCookie =
        some verifier := by
  obtain ⟨hstate, hverifier⟩ := Jar.receive_login now jar verifier state
  have hlater : now < now + 300 * second := lt_add_of_pos_right now (by decide)
  unfold Jar.sent
  rw [hstate, hverifier]
  simp [hlater]

/-! ### Pairs -/

/-- The tab has logged in with this verifier and state. -/
def Generated (h : TabHistory) (j : ℕ) (verifier state : Str) : Prop :=
  ∃ (r : UIRequest) (x y : Str) (rest : List TabCall),
    callsOf h j = ⟨.send, r⟩ :: ⟨.server (.randomBytes 32), Except.ok x⟩ ::
      ⟨.server (.randomBytes 16), Except.ok y⟩ :: rest ∧
    verifier = rawURLEncode x ∧ state = rawURLEncode y

theorem Generated.append {h : TabHistory} {j : ℕ} {verifier state : Str}
    (hg : Generated h j verifier state) (h' : TabHistory) :
    Generated (h ++ h') j verifier state := by
  obtain ⟨r, x, y, rest, hcalls, hverifier, hstate⟩ := hg
  refine ⟨r, x, y, rest ++ callsOf h' j, ?_, hverifier, hstate⟩
  rw [callsOf_append, hcalls]
  rfl

/-- The jar holds the cookies of one login, or none. -/
def Paired (h : TabHistory) (jar : Jar) : Prop :=
  (jar (oauthStateCookie, cookiePath) = none ∧ jar (pkceVerifierCookie, cookiePath) = none) ∨
    ∃ j verifier state expires, Generated h j verifier state ∧
      jar (oauthStateCookie, cookiePath) = some ⟨state, expires⟩ ∧
      jar (pkceVerifierCookie, cookiePath) = some ⟨verifier, expires⟩

section
variable {h : TabHistory} {now : Time} {jar : Jar}

theorem Paired.append (hp : Paired h jar) (h' : TabHistory) : Paired (h ++ h') jar := by
  rcases hp with hnone | ⟨j, verifier, state, expires, hg, hjar⟩
  · exact .inl hnone
  · exact .inr ⟨j, verifier, state, expires, hg.append h', hjar⟩

theorem Paired.login {j : ℕ} {verifier state : Str} (hg : Generated h j verifier state) :
    Paired h (jar.receive now (loginCookies verifier state)) :=
  .inr ⟨j, verifier, state, _, hg, Jar.receive_login now jar verifier state⟩

theorem Paired.session (h : TabHistory) (tokens : TokenResponse) :
    Paired h (jar.receive now (sessionCookies tokens)) := by
  obtain ⟨rest, hsession, hrest⟩ : ∃ rest, sessionCookies tokens =
      clearCookie pkceVerifierCookie :: clearCookie oauthStateCookie :: rest ∧
        ∀ c ∈ rest, c.name ≠ oauthStateCookie ∧ c.name ≠ pkceVerifierCookie := by
    refine ⟨_, rfl, fun c hc => ?_⟩
    rcases List.mem_cons.mp hc with rfl | hc
    · exact ⟨cookie_names.2.1, cookie_names.2.2.1⟩
    · change c ∈ if tokens.refreshToken = [] then [] else _ at hc
      split_ifs at hc
      · cases hc
      · obtain rfl := List.mem_singleton.mp hc
        exact ⟨cookie_names.2.2.2.1, cookie_names.2.2.2.2⟩
  have hname : (clearCookie oauthStateCookie).name ≠ pkceVerifierCookie := cookie_names.1.symm
  rw [hsession]
  refine .inl ⟨?_, ?_⟩
  · rw [Jar.receive_cons, Jar.receive_cons, Jar.receive_ne fun c hc => (hrest c hc).1]
    exact Jar.store_clear _
  · rw [Jar.receive_cons, Jar.receive_cons, Jar.receive_ne fun c hc => (hrest c hc).2]
    exact (Jar.store_ne hname).trans (Jar.store_clear _)

/-- A jar sends both cookies of a login or neither. -/
theorem Paired.sent (hp : Paired h jar) {state verifier : Str}
    (hstate : jar.sent now oauthStateCookie = some state)
    (hverifier : jar.sent now pkceVerifierCookie = some verifier) :
    ∃ j, Generated h j verifier state := by
  unfold Jar.sent at hstate hverifier
  rcases hp with ⟨hnone, -⟩ | ⟨j, verifier', state', expires, hg, hs, hv⟩
  · rw [hnone] at hstate
    cases hstate
  · rw [hs] at hstate
    rw [hv] at hverifier
    dsimp only at hstate hverifier
    split_ifs at hstate hverifier
    obtain rfl := Option.some.inj hstate
    obtain rfl := Option.some.inj hverifier
    exact ⟨j, hg⟩

end

/-! ### Random values -/

/-- The values drawn in a run are known, and each was drawn by one request. -/
structure Draws (h : TabHistory) (drawn : Finset Str) : Prop where
  known : ∀ j n x, (⟨.server (.randomBytes n), Except.ok x⟩ : TabCall) ∈ callsOf h j → x ∈ drawn
  once : ∀ j j' n n' x, (⟨.server (.randomBytes n), Except.ok x⟩ : TabCall) ∈ callsOf h j →
    (⟨.server (.randomBytes n'), Except.ok x⟩ : TabCall) ∈ callsOf h j' → j = j'

section
variable {oidcCfg : Option OIDCConfig} {b₀ : Browser} {h : TabHistory}
  {c : Config TabOp TabReply Visit Answer Browser}

theorem Draws.quiet {drawn : Finset Str} (hd : Draws h drawn) {i : ℕ} {b : Browser} {op : TabOp}
    {x : TabReply op} (hop : ∀ n y, (⟨op, x⟩ : TabCall) ≠ ⟨.server (.randomBytes n), Except.ok y⟩) :
    Draws (h ++ [⟨i, b, op, x⟩]) drawn := by
  have hsame : ∀ {j n y}, (⟨.server (.randomBytes n), Except.ok y⟩ : TabCall) ∈
      callsOf (h ++ [⟨i, b, op, x⟩]) j →
        (⟨.server (.randomBytes n), Except.ok y⟩ : TabCall) ∈ callsOf h j := by
    intro j n y hmem
    rcases mem_callsOf_snoc.mp hmem with hmem | ⟨-, he⟩
    · exact hmem
    · exact absurd he.symm (hop n y)
  constructor
  · intro j n y hmem
    exact hd.known j n y (hsame hmem)
  · intro j j' n n' y hmem hmem'
    exact hd.once j j' n n' y (hsame hmem) (hsame hmem')

theorem Draws.step {i : ℕ} {b b' : Browser} (hd : Draws h b.drawn) {op : TabOp} {x : TabReply op}
    (hx : TabHandle i b op x b') : Draws (h ++ [⟨i, b, op, x⟩]) b'.drawn := by
  cases hx with
  | send => exact hd.quiet (by simp)
  | receive cookies => exact hd.quiet (by simp)
  | noRandomness n err => exact hd.quiet (by simp)
  | exchangeCode code codeVerifier x => exact hd.quiet (by simp)
  | @draw n y hn hnew =>
      constructor
      · intro j m z hmem
        rcases mem_callsOf_snoc.mp hmem with hmem | ⟨-, he⟩
        · exact Finset.mem_insert_of_mem (hd.known j m z hmem)
        · cases he
          exact Finset.mem_insert_self ..
      · intro j j' m m' z hmem hmem'
        rcases mem_callsOf_snoc.mp hmem with hold | ⟨rfl, he⟩
        · rcases mem_callsOf_snoc.mp hmem' with hold' | ⟨rfl, he'⟩
          · exact hd.once j j' m m' z hold hold'
          · cases he'
            exact absurd (hd.known j m _ hold) hnew
        · rcases mem_callsOf_snoc.mp hmem' with hold' | ⟨rfl, he'⟩
          · cases he
            exact absurd (hd.known j' m' _ hold') hnew
          · rfl

theorem draws_of_run (hr : (loginSystem oidcCfg).Run b₀ h c) : Draws h c.state.drawn := by
  induction hr with
  | init =>
      constructor
      · intro j n x hmem
        exact absurd hmem List.not_mem_nil
      · intro j j' n n' x hmem
        exact absurd hmem List.not_mem_nil
  | start _ i owner hi ih => exact ih
  | call _ i owner op next x s hi hs ih => exact ih.step hs
  | drift _ s hs ih =>
      change Draws _ s.drawn
      rw [hs.2.2]
      exact ih

/-- A state was drawn by one login, and with one verifier. -/
theorem generated_unique (hr : (loginSystem oidcCfg).Run b₀ h c) {j j' : ℕ}
    {verifier verifier' state : Str} (hg : Generated h j verifier state)
    (hg' : Generated h j' verifier' state) : j' = j ∧ verifier' = verifier := by
  obtain ⟨r, x, y, rest, hcalls, rfl, rfl⟩ := hg
  obtain ⟨r', x', y', rest', hcalls', rfl, hstate⟩ := hg'
  obtain rfl := rawURLEncode_injective hstate
  have hmem : (⟨.server (.randomBytes 16), Except.ok y⟩ : TabCall) ∈ callsOf h j := by
    rw [hcalls]
    simp
  have hmem' : (⟨.server (.randomBytes 16), Except.ok y⟩ : TabCall) ∈ callsOf h j' := by
    rw [hcalls']
    simp
  obtain rfl := (draws_of_run hr).once j' j 16 16 y hmem' hmem
  rw [hcalls] at hcalls'
  obtain ⟨-, hrest⟩ := List.cons.inj hcalls'
  obtain ⟨hx, -⟩ := List.cons.inj hrest
  cases hx
  exact ⟨rfl, rfl⟩

/-! ### The invariant -/

/-- The handler a tab has called. -/
def Visit.handler (oidcCfg : Option OIDCConfig) : Visit → Handler
  | .login => handleLogin oidcCfg
  | .callback => handleCallback oidcCfg

theorem tabStage_of_run (hr : (loginSystem oidcCfg).Run b₀ h c) {i : ℕ} {visit : Visit}
    {p : Prog TabOp TabReply Answer} (hi : c.threads i = some (visit, p)) :
    TabStage (visit.handler oidcCfg) (callsOf h i) p := by
  have hafter := (hr.thread i).2 visit p hi
  cases visit <;> exact tabStage_of_after hafter

theorem Paired.receive {i : ℕ} {visit : Visit} {r : UIRequest} {l : List (Σ op, Reply op)}
    {answer : Answer} (hcalls : callsOf h i = ⟨.send, r⟩ :: l.map serverCall)
    (hanswer : (visit.handler oidcCfg r).After l (.done answer)) {jar : Jar} (hp : Paired h jar)
    (now : Time) : Paired h (jar.receive now answer.cookies) := by
  cases visit with
  | login =>
      rcases handleLogin_answer hanswer with hnone | ⟨x, y, rfl, hboth⟩
      · rw [hnone]
        exact hp
      · rw [hboth]
        exact .login ⟨r, x, y, [], hcalls, rfl, rfl⟩
  | callback =>
      have hright := ((safe_callback oidcCfg r).after (fun _ _ => trivial) hanswer).2
      rcases hright with hnone | ⟨-, tokens, hsession⟩
      · rw [hnone]
        exact hp
      · rw [hsession]
        exact .session h tokens

theorem paired_of_run (hr : (loginSystem oidcCfg).Run b₀ h c) (h₀ : b₀.jar = fun _ => none) :
    Paired h c.state.jar := by
  induction hr with
  | init =>
      refine .inl ⟨?_, ?_⟩
      · exact congrFun h₀ _
      · exact congrFun h₀ _
  | start _ i owner hi ih => exact ih
  | call hr i owner op next x s hi hs ih =>
      refine Paired.append ?_ _
      rcases (tabStage_of_run hr hi).nextCall with ⟨-, rfl⟩ | ⟨r, l, op', next', -, -, rfl⟩ |
        ⟨r, l, answer, hcalls, hanswer, rfl⟩
      · cases hs
        exact ih
      · cases hs <;> exact ih
      · cases hs
        exact ih.receive hcalls hanswer _
  | drift _ s hs ih =>
      change Paired _ s.jar
      rw [hs.1]
      exact ih

theorem login_of_generated (hr : (loginSystem oidcCfg).Run b₀ h c) {j : ℕ} {verifier state : Str}
    (hg : Generated h j verifier state) : ∃ p, c.threads j = some (.login, p) := by
  obtain ⟨r, x, y, rest, hcalls, -, -⟩ := hg
  have hmem : (⟨.server (.randomBytes 32), Except.ok x⟩ : TabCall) ∈ callsOf h j := by
    rw [hcalls]
    simp
  cases hj : c.threads j with
  | none =>
      rw [(hr.thread j).1 hj] at hmem
      exact absurd hmem List.not_mem_nil
  | some thread =>
      obtain ⟨visit, p⟩ := thread
      cases visit with
      | login => exact ⟨p, rfl⟩
      | callback =>
          obtain ⟨r', l, q, hq, hdrawn⟩ := (tabStage_of_run hr hj).server_of_mem hmem
          have hcall := ((safe_callback oidcCfg r').after (fun _ _ => trivial) hq).1 _ hdrawn
          obtain ⟨code, codeVerifier, he, -⟩ := hcall
          cases he

/-- A tab that exchanges a code shows the verifier of the login that drew its state. -/
theorem generated_of_exchange (hr : (loginSystem oidcCfg).Run b₀ h c)
    (h₀ : b₀.jar = fun _ => none) {i : ℕ} {visit : Visit} {code codeVerifier : Str}
    {next : Except Str TokenResponse → Prog TabOp TabReply Answer}
    (hi : c.threads i = some (visit, .call (.server (.exchangeCode code codeVerifier)) next)) :
    ∃ r rest, callsOf h i = ⟨.send, r⟩ :: rest ∧
      ∃ j, Generated h j codeVerifier (r.query (str "state")) := by
  rcases (tabStage_of_run hr hi).nextCall with ⟨-, hop⟩ | ⟨r, l, op, next', hcalls, hafter, hop⟩ |
    ⟨r, l, answer, -, -, hop⟩
  · cases hop
  · obtain rfl : Op.exchangeCode code codeVerifier = op := TabOp.server.inj hop
    refine ⟨r, _, hcalls, ?_⟩
    have hmem : (⟨.send, r⟩ : TabCall) ∈ callsOf h i := by
      rw [hcalls]
      exact List.mem_cons_self
    -- what the tab has shown was in the jar when it sent its request
    obtain ⟨h₁, b, h₂, hh⟩ := System.Run.exists_split hmem
    have hr' := hr
    rw [hh] at hr'
    obtain ⟨c₁, hr₁, hstate, owner, next₁, b', -, hsend⟩ := hr'.split
    have hpaired := paired_of_run hr₁ h₀
    rw [hstate] at hpaired
    have hcookies : r.cookie oauthStateCookie = some (r.query (str "state")) ∧
        r.cookie pkceVerifierCookie = some codeVerifier := by
      cases visit with
      | login =>
          have hnext := ((safe_login oidcCfg r).after (fun _ _ => trivial) hafter).2.1
          obtain ⟨n, hn⟩ := hnext
          cases hn
      | callback =>
          have hnext := ((safe_callback oidcCfg r).after (fun _ _ => trivial) hafter).2.1
          obtain ⟨code', codeVerifier', he, hboth⟩ := hnext
          cases he
          exact hboth
    cases hsend with
    | send _ hs hv =>
        obtain ⟨j, hg⟩ := hpaired.sent (hs.symm.trans hcookies.1) (hv.symm.trans hcookies.2)
        rw [hh]
        exact ⟨j, hg.append _⟩
  · cases hop

end

theorem handleCallback_exchanges (cfg : OIDCConfig) {r : UIRequest} {codeVerifier : Str}
    (herror : r.query (str "error") = []) (hcode : r.query (str "code") ≠ [])
    (hstate : r.query (str "state") ≠ [])
    (hs : r.cookie oauthStateCookie = some (r.query (str "state")))
    (hv : r.cookie pkceVerifierCookie = some codeVerifier) (hne : codeVerifier ≠ []) :
    ∃ next, handleCallback (some cfg) r =
      .call (.exchangeCode (r.query (str "code")) codeVerifier) next := by
  have hs' : nonEmptyCookie r oauthStateCookie = some (r.query (str "state")) := by
    simp [nonEmptyCookie, hs, hstate]
  have hv' : nonEmptyCookie r pkceVerifierCookie = some codeVerifier := by
    simp [nonEmptyCookie, hv, hne]
  unfold handleCallback
  dsimp only
  rw [if_neg (not_not.mpr herror), if_neg (by simp [hcode, hstate]), if_neg (not_not.mpr hs'), hv']
  exact ⟨_, rfl⟩

theorem rawURLEncode_ne_nil {s : Str} (hs : s ≠ []) : rawURLEncode s ≠ [] :=
  fun h => hs (rawURLEncode_injective h)

theorem exists_exchange (cfg : OIDCConfig) {x y : Str} (hx : x.length = 32) (hy : y.length = 16)
    (login r : UIRequest) (hs₀ : login.cookie oauthStateCookie = none)
    (hv₀ : login.cookie pkceVerifierCookie = none) (herror : r.query (str "error") = [])
    (hcode : r.query (str "code") ≠ []) (hstate : r.query (str "state") = rawURLEncode y)
    (hs : r.cookie oauthStateCookie = some (rawURLEncode y))
    (hv : r.cookie pkceVerifierCookie = some (rawURLEncode x)) :
    ∃ h c next, (loginSystem (some cfg)).Run { now := 0 } h c ∧ c.threads 1 = some (.callback,
      .call (.server (.exchangeCode (r.query (str "code")) (rawURLEncode x))) next) := by
  have hxy : y ∉ ({x} : Finset Str) := by
    rw [Finset.mem_singleton]
    intro he
    rw [he, hx] at hy
    cases hy
  have hne : ∀ s : Str, s.length ≠ 0 → rawURLEncode s ≠ [] :=
    fun s hlen => rawURLEncode_ne_nil fun he => hlen (by rw [he]; rfl)
  have hr₀ : (loginSystem (some cfg)).Run { now := 0 } [] _ := .init
  -- the login, from its request to the arrival of its answer
  have hlogin : (loginSystem (some cfg)).start .login = exchange (handleLogin (some cfg)) := rfl
  have hr₁ := hr₀.first_call (i := 0) rfl hlogin (.send login hs₀ hv₀)
  have hr₂ := hr₁.next_call (x := Except.ok x) rfl (.draw x hx (Finset.notMem_empty x))
  have hr₃ := hr₂.next_call (x := Except.ok y) rfl (.draw y hy hxy)
  have hreceive : TabHandle 0 ⟨fun _ => none, 0, {y, x}⟩
      (.receive (loginCookies (rawURLEncode x) (rawURLEncode y))) () _ := .receive _
  have hr₄ := hr₃.next_call rfl hreceive
  -- the callback, in another tab
  obtain ⟨next, hnext⟩ := handleCallback_exchanges cfg herror hcode
    (hstate ▸ hne y (by omega)) (hstate ▸ hs) hv (hne x (by omega))
  obtain ⟨hs', hv'⟩ := Jar.sent_login 0 (fun _ => none) (rawURLEncode x) (rawURLEncode y)
  have hsend : TabHandle 1 ⟨_, 0, {y, x}⟩ .send r _ :=
    .send r (hs.trans hs'.symm) (hv.trans hv'.symm)
  have hcallback : (loginSystem (some cfg)).start .callback =
      exchange (handleCallback (some cfg)) :=
    rfl
  have hr₅ := hr₄.first_call (i := 1) rfl hcallback hsend
  refine ⟨_, _, fun out => (onServer (next out)).bind deliver, hr₅, ?_⟩
  simp only [Function.update_self, hnext]
  rfl

/-- In every run of a browser's tabs, a code is exchanged with the verifier of the one login that
drew the state it came with, and an answer to a callback that is no redirect has no cookies. -/
theorem verifier_of_state (oidcCfg : Option OIDCConfig) {start : Time} {h : TabHistory}
    {c : Config TabOp TabReply Visit Answer Browser}
    (hr : (loginSystem oidcCfg).Run { now := start } h c) :
    (∀ i visit code codeVerifier next,
      c.threads i = some (visit, .call (.server (.exchangeCode code codeVerifier)) next) →
        ∃ r rest, callsOf h i = ⟨.send, r⟩ :: rest ∧
          ∃ j p, c.threads j = some (.login, p) ∧
            Generated h j codeVerifier (r.query (str "state")) ∧
            ∀ j' verifier, Generated h j' verifier (r.query (str "state")) →
              j' = j ∧ verifier = codeVerifier) ∧
      ∀ r l answer, (handleCallback oidcCfg r).After l (.done answer) → answer.status ≠ 302 →
        answer.cookies = [] := by
  constructor
  · intro i visit code codeVerifier next hi
    obtain ⟨r, rest, hcalls, j, hg⟩ := generated_of_exchange hr rfl hi
    obtain ⟨p, hj⟩ := login_of_generated hr hg
    exact ⟨r, rest, hcalls, j, p, hj, hg, fun j' verifier hg' => generated_unique hr hg hg'⟩
  · intro r l answer hanswer hstatus
    rcases ((safe_callback oidcCfg r).after (fun _ _ => trivial) hanswer).2 with
      hnone | ⟨hredirect, -⟩
    · exact hnone
    · exact absurd hredirect hstatus

/-- The first request of a browser. -/
def firstLogin : UIRequest where
  method := str "GET"
  url := { path := str "/api/v1/auth/login" }
  header := .empty

def firstVerifier : Str := List.replicate 32 0
def firstState : Str := List.replicate 16 0

/-- The way back from the identity provider with what the first login was given. -/
def firstCallback : UIRequest where
  method := str "GET"
  url :=
    { path := str "/api/v1/auth/callback"
      rawQuery := str "code=c&state=" ++ rawURLEncode firstState }
  header := .ofLines [(str "Cookie", str "oauth_state=" ++ rawURLEncode firstState ++
    str "; pkce_verifier=" ++ rawURLEncode firstVerifier)]

theorem firstLogin_cookies :
    firstLogin.cookie oauthStateCookie = none ∧ firstLogin.cookie pkceVerifierCookie = none := by
  decide

theorem firstCallback_query :
    firstCallback.query (str "error") = [] ∧ firstCallback.query (str "code") = str "c" ∧
      firstCallback.query (str "state") = rawURLEncode firstState := by
  decide +kernel

theorem firstCallback_cookies :
    firstCallback.cookie oauthStateCookie = some (rawURLEncode firstState) ∧
      firstCallback.cookie pkceVerifierCookie = some (rawURLEncode firstVerifier) := by
  decide +kernel

theorem verifier_of_state_first :
    ∃ h, ∃ c : Config TabOp TabReply Visit Answer Browser, ∃ next,
      c.threads 1 = some (.callback, .call (.server (.exchangeCode
        (firstCallback.query (str "code")) (rawURLEncode firstVerifier))) next) ∧
      ∃ r rest, callsOf h 1 = ⟨.send, r⟩ :: rest ∧
        ∃ j p, c.threads j = some (.login, p) ∧
          Generated h j (rawURLEncode firstVerifier) (r.query (str "state")) ∧
          ∀ j' verifier, Generated h j' verifier (r.query (str "state")) →
            j' = j ∧ verifier = rawURLEncode firstVerifier := by
  have hcode : firstCallback.query (str "code") ≠ [] := by
    rw [firstCallback_query.2.1]
    decide
  obtain ⟨h, c, next, hr, hi⟩ := exists_exchange ⟨[], [], [], []⟩ rfl rfl firstLogin firstCallback
    firstLogin_cookies.1 firstLogin_cookies.2 firstCallback_query.1 hcode firstCallback_query.2.2
    firstCallback_cookies.1 firstCallback_cookies.2
  exact ⟨h, c, next, hi, (verifier_of_state (some ⟨[], [], [], []⟩) hr).1 1 _ _ _ _ hi⟩

end PierGateway.WebUI
