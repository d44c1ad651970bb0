import PierGateway.Histories
import PierGateway.OidcHandlers

/-!
# Logins of one browser

A browser keeps the cookies it is sent in a jar and shows them with every request. Any
number of its tabs log in and come back from the identity provider at once: a tab
sends its request with what the jar holds at that moment, the server handles it, and
the cookies of the answer go into the jar when it arrives, all of them together. Time
passes in between and cookies expire. The random values of the server are all
different.
-/
namespace PierGateway.WebUI
open GoStrings Interaction Digest

/-! ### The browser -/

structure Kept where
  value : Str
  expires : Option Time

/-- The cookies of the gateway's host by name and path. -/
abbrev Jar := Str × Str → Option Kept

def Jar.store (now : Time) (jar : Jar) (c : Cookie) : Jar :=
  Function.update jar (c.name, c.path)
    (if c.maxAge < 0 then none
     else some ⟨c.value, if c.maxAge = 0 then none else some (now + c.maxAge * second)⟩)

/-- All cookies of an answer at once. -/
def Jar.receive (now : Time) (jar : Jar) (cookies : List Cookie) : Jar :=
  cookies.foldl (Jar.store now) jar

/-- What the browser sends to the routes of the interface under a name. -/
def Jar.sent (jar : Jar) (now : Time) (name : Str) : Option Str :=
  match jar (name, cookiePath) with
  | some kept => if ∀ t ∈ kept.expires, now < t then some kept.value else none
  | none => none

/-- The browser, and the random values the server has drawn. -/
structure Browser where
  jar : Jar := fun _ => none
  now : Time
  drawn : Finset Str := ∅

/-- The calls of a tab: those of the server while it handles the request, and those of the browser
before and after. -/
inductive TabOp where
  | server (op : Op)
  | send
  | receive (cookies : List Cookie)

@[reducible] def TabReply : TabOp → Type
  | .server op => Reply op
  | .send => UIRequest
  | .receive _ => Unit

def onServer {α : Type} : Prog Op Reply α → Prog TabOp TabReply α
  | .done a => .done a
  | .call op next => .call (.server op) fun x => onServer (next x)

def deliver (answer : Answer) : Prog TabOp TabReply Answer :=
  .call (.receive answer.cookies) fun (_ : Unit) => .done answer

/-- A request with its answer, as a tab makes it. -/
def exchange (handler : Handler) : Prog TabOp TabReply Answer :=
  .call .send fun (r : UIRequest) => (onServer (handler r)).bind deliver

inductive Visit where
  | login
  | callback

/-- A request is any whatsoever, as long as the server reads from it the cookies of the jar. -/
inductive TabHandle (i : ℕ) (b : Browser) : (op : TabOp) → TabReply op → Browser → Prop
  | send (r : UIRequest) (hstate : r.cookie oauthStateCookie = b.jar.sent b.now oauthStateCookie)
      (hverifier : r.cookie pkceVerifierCookie = b.jar.sent b.now pkceVerifierCookie) :
      TabHandle i b .send r b
  | receive (cookies : List Cookie) :
      TabHandle i b (.receive cookies) () { b with jar := b.jar.receive b.now cookies }
  | draw {n : ℕ} (x : Str) (hn : x.length = n) (hnew : x ∉ b.drawn) :
      TabHandle i b (.server (.randomBytes n)) (.ok x) { b with drawn := insert x b.drawn }
  | noRandomness (n : ℕ) (err : Str) : TabHandle i b (.server (.randomBytes n)) (.error err) b
  | exchangeCode (code codeVerifier : Str) (x : Except Str TokenResponse) :
      TabHandle i b (.server (.exchangeCode code codeVerifier)) x b

/-- Time passes. -/
def Browser.Drifts (b b' : Browser) : Prop :=
  b'.jar = b.jar ∧ b.now ≤ b'.now ∧ b'.drawn = b.drawn

def loginSystem (oidcCfg : Option OIDCConfig) : System TabOp TabReply Visit Answer Browser where
  start
    | .login => exchange (handleLogin oidcCfg)
    | .callback => exchange (handleCallback oidcCfg)
  handle := TabHandle
  drift := Browser.Drifts

/-! ### How far a tab has come -/

/-- A call of a tab with its reply. -/
abbrev TabCall := Σ op, TabReply op

abbrev TabHistory := List (Event TabOp TabReply Browser)

def serverCall (call : Σ op, Reply op) : TabCall := ⟨.server call.1, call.2⟩

theorem after_onServer {α : Type} {p : Prog Op Reply α} {l : List TabCall}
    {q : Prog TabOp TabReply α} (h : (onServer p).After l q) :
    ∃ l' q', l = l'.map serverCall ∧ q = onServer q' ∧ p.After l' q' := by
  induction p generalizing l with
  | done a =>
      obtain ⟨rfl, rfl⟩ := Prog.after_done h
      exact ⟨[], .done a, rfl, rfl, .nil _⟩
  | call op next ih =>
      rcases Prog.after_call h with ⟨rfl, rfl⟩ | ⟨x, l', rfl, h'⟩
      · exact ⟨[], .call op next, rfl, rfl, .nil _⟩
      · obtain ⟨l'', q', rfl, rfl, hq⟩ := ih x h'
        exact ⟨⟨op, x⟩ :: l'', q', rfl, rfl, .cons hq⟩

/-- The calls a tab has made and what is left of its exchange. -/
inductive TabStage (handler : Handler) : List TabCall → Prog TabOp TabReply Answer → Prop
  | fresh : TabStage handler [] (exchange handler)
  | handling (r : UIRequest) {l : List (Σ op, Reply op)} {q : Prog Op Reply Answer}
      (h : (handler r).After l q) :
      TabStage handler (⟨.send, r⟩ :: l.map serverCall) ((onServer q).bind deliver)
  | arrived (r : UIRequest) {l : List (Σ op, Reply op)} {answer : Answer}
      (h : (handler r).After l (.done answer)) :
      TabStage handler (⟨.send, r⟩ :: (l.map serverCall ++ [⟨.receive answer.cookies, ()⟩]))
        (.done answer)

theorem tabStage_of_after {handler : Handler} {l : List TabCall} {q : Prog TabOp TabReply Answer}
    (h : (exchange handler).After l q) : TabStage handler l q := by
  rcases Prog.after_call h with ⟨rfl, rfl⟩ | ⟨r, l', rfl, hsent⟩
  · exact .fresh
  · rcases Prog.after_bind hsent with ⟨p', hp', rfl⟩ | ⟨l₁, l₂, answer, rfl, hanswer, hdeliver⟩
    · obtain ⟨l'', q', rfl, rfl, hq⟩ := after_onServer hp'
      exact .handling r hq
    · obtain ⟨l'', q', rfl, hdone, hq⟩ := after_onServer hanswer
      cases q' with
      | call op next => cases hdone
      | done answer' =>
          cases hdone
          rcases Prog.after_call hdeliver with ⟨rfl, rfl⟩ | ⟨x, l₃, rfl, hlast⟩
          · rw [List.append_nil]
            exact .handling r hq
          · obtain ⟨rfl, rfl⟩ := Prog.after_done hlast
            exact .arrived r hq

/-- A tab that makes a call sends its request, has it handled or receives its answer. -/
theorem TabStage.nextCall {handler : Handler} {l : List TabCall} {op : TabOp}
    {next : TabReply op → Prog TabOp TabReply Answer} (h : TabStage handler l (.call op next)) :
    (l = [] ∧ op = .send) ∨
      (∃ r l' op' next', l = ⟨.send, r⟩ :: l'.map serverCall ∧
        (handler r).After l' (.call op' next') ∧ op = .server op') ∨
      ∃ r l' answer, l = ⟨.send, r⟩ :: l'.map serverCall ∧ (handler r).After l' (.done answer) ∧
        op = .receive answer.cookies := by
  generalize hq : Prog.call op next = q at h
  cases h with
  | fresh =>
      cases hq
      exact .inl ⟨rfl, rfl⟩
  | @handling r l' q' hq' =>
      cases q' with
      | done answer =>
          cases hq
          exact .inr (.inr ⟨r, l', answer, rfl, hq', rfl⟩)
      | call op' next' =>
          cases hq
          exact .inr (.inl ⟨r, l', op', next', rfl, hq', rfl⟩)
  | arrived r hq' => cases hq

theorem TabStage.server_of_mem {handler : Handler} {l : List TabCall}
    {p : Prog TabOp TabReply Answer} (h : TabStage handler l p) {op : Op} {x : Reply op}
    (hmem : (⟨.server op, x⟩ : TabCall) ∈ l) :
    ∃ r l' q, (handler r).After l' q ∧ (⟨op, x⟩ : Σ op, Reply op) ∈ l' := by
  have hlift : ∀ {l' : List (Σ op, Reply op)}, (⟨.server op, x⟩ : TabCall) ∈ l'.map serverCall →
      (⟨op, x⟩ : Σ op, Reply op) ∈ l' := by
    intro l' hl'
    obtain ⟨⟨op', x'⟩, hc, he⟩ := List.mem_map.mp hl'
    cases he
    exact hc
  cases h with
  | fresh => exact absurd hmem List.not_mem_nil
  | @handling r l' q hq =>
      rcases List.mem_cons.mp hmem with he | hmem
      · exact absurd (congrArg Sigma.fst he) (by simp)
      · exact ⟨r, l', q, hq, hlift hmem⟩
  | @arrived r l' answer hq =>
      rcases List.mem_cons.mp hmem with he | hmem
      · exact absurd (congrArg Sigma.fst he) (by simp)
      · rcases List.mem_append.mp hmem with hmem | hmem
        · exact ⟨r, l', _, hq, hlift hmem⟩
        · exact absurd (congrArg Sigma.fst (List.mem_singleton.mp hmem)) (by simp)

/-! ### What the handlers do -/

theorem handleLogin_answer {oidcCfg : Option OIDCConfig} {r : UIRequest}
    {l : List (Σ op, Reply op)} {answer : Answer}
    (h : (handleLogin oidcCfg r).After l (.done answer)) :
    answer.cookies = [] ∨ ∃ x y : Str,
      l = [⟨.randomBytes 32, Except.ok x⟩, ⟨.randomBytes 16, Except.ok y⟩] ∧
        answer.cookies = [setTransientCookie pkceVerifierCookie (rawURLEncode x),
          setTransientCookie oauthStateCookie (rawURLEncode y)] := by
  cases oidcCfg with
  | none =>
      cases (Prog.after_done h).2
      exact .inl rfl
  | some cfg =>
      rcases Prog.after_call h with ⟨-, hcall⟩ | ⟨drawn, l', rfl, hx⟩
      · cases hcall
      · cases drawn with
        | error err =>
            cases (Prog.after_done hx).2
            exact .inl rfl
        | ok x =>
            rcases Prog.after_call hx with ⟨-, hcall⟩ | ⟨drawn, l'', rfl, hy⟩
            · cases hcall
            · cases drawn with
              | error err =>
                  cases (Prog.after_done hy).2
                  exact .inl rfl
              | ok y =>
                  obtain ⟨rfl, hdone⟩ := Prog.after_done hy
                  cases hdone
                  exact .inr ⟨x, y, rfl, rfl⟩

theorem safe_login (oidcCfg : Option OIDCConfig) (r : UIRequest) :
    (handleLogin oidcCfg r).Safe (fun op => ∃ n, op = .randomBytes n) (fun _ _ => True)
      fun _ => True := by
  cases oidcCfg with
  | none => trivial
  | some cfg =>
      refine ⟨⟨32, rfl⟩, fun drawn _ => ?_⟩
      cases drawn with
      | error err => trivial
      | ok x =>
          refine ⟨⟨16, rfl⟩, fun drawn _ => ?_⟩
          cases drawn <;> trivial

/-- A callback exchanges a code with the verifier it was shown, after it was shown the state that it
was called with; and only the redirect at its end has cookies. -/
theorem safe_callback (oidcCfg : Option OIDCConfig) (r : UIRequest) :
    (handleCallback oidcCfg r).Safe
      (fun op => ∃ code codeVerifier, op = .exchangeCode code codeVerifier ∧
        r.cookie oauthStateCookie = some (r.query (str "state")) ∧
        r.cookie pkceVerifierCookie = some codeVerifier)
      (fun _ _ => True)
      fun answer => answer.cookies = [] ∨
        (answer.status = 302 ∧ ∃ tokens, answer.cookies = sessionCookies tokens) := by
  cases oidcCfg with
  | none => exact .inl rfl
  | some cfg =>
      unfold handleCallback
      dsimp only
      split_ifs with herror hparams hstate
      · exact .inl rfl
      · exact .inl rfl
      · exact .inl rfl
      · cases hverifier : nonEmptyCookie r pkceVerifierCookie with
        | none => exact .inl rfl
        | some codeVerifier =>
            have hshown : ∀ {name value : Str}, nonEmptyCookie r name = some value →
                r.cookie name = some value := by
              intro name value hv
              exact (Option.filter_eq_some_iff.mp hv).1
            refine ⟨⟨_, codeVerifier, rfl, hshown (not_not.mp hstate), hshown hverifier⟩,
              fun out _ => ?_⟩
            cases out with
            | error err => exact .inl rfl
            | ok tokens => exact .inr ⟨rfl, tokens, rfl⟩

end PierGateway.WebUI
