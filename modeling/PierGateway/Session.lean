import PierGateway.EventRuns
import PierGateway.GoStrings

/-!
# The session of the single-page application

The provider follows the events of the user manager. An event with a valid user sets the
token at once and asks the gateway who that is; the answer is taken whenever it comes,
even after a later event. The token therefore follows the last event, and the user does
as long as no answer comes after the one to the last event.
-/
namespace PierGateway.Spa
open GoStrings EventRuns

/-- What the provider reads of a user of the library, `expired` as it is when it looks. -/
structure OidcUser where
  accessToken : Str
  expired : Bool
  preferredUsername : Option Str

structure UserInfo where
  username : Str
  groups : List Str
deriving DecidableEq

/-- The events of the user manager and the outcome of the first request for a user. -/
inductive IdentityEvent where
  | resolved (user : Option OidcUser)
  | rejected
  | userLoaded (user : OidcUser)
  | userUnloaded
  | silentRenewError

/-- What `handleUser` is called with; a rejection does not call it. -/
def IdentityEvent.argument : IdentityEvent → Option (Option OidcUser)
  | .resolved user => some user
  | .rejected => none
  | .userLoaded user => some (some user)
  | .userUnloaded | .silentRenewError => some none

structure AuthState where
  user : Option UserInfo := none
  isLoading : Bool := true
  tokenRef : Option Str := none

/-- A call of `/api/v1/auth/me`, with the number of the event it was started by. -/
structure MeCall where
  event : ℕ
  oidcUser : OidcUser

/-- The reply to the call: an identity, or a failure. -/
abbrev MeReply := Option UserInfo

/-- The identity of the profile, when the gateway does not give one. -/
def profileIdentity (oidcUser : OidcUser) : UserInfo where
  username :=
    match oidcUser.preferredUsername with
    | some (c :: name) => c :: name
    | _ => str "unknown"
  groups := []

def identityOf (oidcUser : OidcUser) (reply : MeReply) : UserInfo :=
  reply.getD (profileIdentity oidcUser)

/-- The user an event carries, if it is there and has not expired. -/
def live (user : Option OidcUser) : Option OidcUser := user.filter fun u => !u.expired

/-- The provider with its past: the events so far, the calls in flight and those answered. -/
structure Provider where
  auth : AuthState := {}
  events : List (Option OidcUser) := []
  pending : List MeCall := []
  answered : List (MeCall × MeReply) := []

inductive ProviderEvent where
  | identity (event : IdentityEvent)
  | complete (i : ℕ) (reply : MeReply)

namespace Provider

/-- `handleUser` up to its first suspension. -/
def handleUser (p : Provider) (user : Option OidcUser) : Provider :=
  match live user with
  | some oidcUser =>
      { p with
        auth := { p.auth with tokenRef := some oidcUser.accessToken }
        events := p.events ++ [user]
        pending := p.pending ++ [⟨p.events.length, oidcUser⟩] }
  | none =>
      { p with
        auth := { p.auth with tokenRef := none, user := none, isLoading := false }
        events := p.events ++ [user] }

/-- The rest of `handleUser`, when its call is answered. -/
def finish (p : Provider) (i : ℕ) (reply : MeReply) (call : MeCall) : Provider :=
  { p with
    auth := { p.auth with user := some (identityOf call.oidcUser reply), isLoading := false }
    pending := p.pending.eraseIdx i
    answered := p.answered ++ [(call, reply)] }

def step (p : Provider) : ProviderEvent → Option Provider
  | .identity event =>
      match event.argument with
      | some user => some (p.handleUser user)
      | none => some { p with auth := { p.auth with isLoading := false } }
  | .complete i reply => p.pending[i]?.map (p.finish i reply)

/-! ### The last event -/

/-- The valid user of the last event. -/
def current (p : Provider) : Option OidcUser := p.events.getLast?.bind live

/-- The call is the one of the last event. -/
def IsLast (p : Provider) (c : MeCall) : Prop := c.event + 1 = p.events.length

/-- A completion happens in time while the call of the last event is open, its own or another. -/
def InTime (p : Provider) : ProviderEvent → Prop
  | .complete _ _ => ∃ c ∈ p.pending, p.IsLast c
  | .identity _ => True

/-- The user is the one answered for the last event. -/
def Answered (p : Provider) (u : OidcUser) : Prop :=
  ∃ c reply, (c, reply) ∈ p.answered ∧ p.IsLast c ∧ c.oidcUser = u ∧
    p.auth.user = some (identityOf u reply)

/-- The law of a quiet provider: nobody without a valid last event, and else the token of that
event and the identity answered for it. -/
def Follows (p : Provider) : Prop :=
  p.pending = [] → ∀ user, p.events.getLast? = some user →
    match live user with
    | none => p.auth.user = none ∧ p.auth.tokenRef = none
    | some u => p.auth.tokenRef = some u.accessToken ∧ p.Answered u

/-- A call in flight was started by a valid user of its event. -/
def Started (p : Provider) : Prop := ∀ c ∈ p.pending, p.events[c.event]?.bind live = some c.oidcUser

theorem handleUser_events (p : Provider) (user : Option OidcUser) :
    (p.handleUser user).events = p.events ++ [user] := by
  unfold handleUser
  split
  · rfl
  · rfl

theorem current_handleUser (p : Provider) (user : Option OidcUser) :
    (p.handleUser user).current = live user := by
  unfold current
  rw [handleUser_events, List.getLast?_concat, Option.bind_some]

/-- What `handleUser` leaves behind at once: nobody, or a token and an open call. -/
theorem handleUser_cases (p : Provider) (user : Option OidcUser) :
    (live user = none ∧ (p.handleUser user).auth.user = none ∧
        (p.handleUser user).auth.tokenRef = none ∧ (p.handleUser user).pending = p.pending) ∨
      ∃ u, live user = some u ∧ (p.handleUser user).auth.tokenRef = some u.accessToken ∧
        (p.handleUser user).pending = p.pending ++ [⟨p.events.length, u⟩] := by
  unfold handleUser
  cases hlive : live user with
  | none => exact .inl ⟨rfl, rfl, rfl, rfl⟩
  | some u => exact .inr ⟨u, rfl, rfl, rfl⟩

/-- What a step can do: start over with a user, end the loading, or take the answer to a call. -/
theorem step_cases {p q : Provider} {e : ProviderEvent} (h : p.step e = some q) :
    (∃ user, q = p.handleUser user) ∨ q = { p with auth := { p.auth with isLoading := false } } ∨
      ∃ i reply call, e = .complete i reply ∧ p.pending[i]? = some call ∧
        q = p.finish i reply call := by
  cases e with
  | identity event =>
      dsimp only [step] at h
      cases harg : event.argument with
      | none =>
          rw [harg] at h
          exact .inr (.inl (Option.some.inj h).symm)
      | some user =>
          rw [harg] at h
          exact .inl ⟨user, (Option.some.inj h).symm⟩
  | complete i reply =>
      obtain ⟨call, hcall, hq⟩ := Option.map_eq_some_iff.mp h
      exact .inr (.inr ⟨i, reply, call, rfl, hcall, hq.symm⟩)

/-! ### The token -/

/-- The token is that of the last event, in every run. -/
def TokenCurrent (p : Provider) : Prop := p.auth.tokenRef = p.current.map (·.accessToken)

theorem TokenCurrent.step {p q : Provider} {e : ProviderEvent} (h : TokenCurrent p)
    (hstep : p.step e = some q) : TokenCurrent q := by
  rcases step_cases hstep with ⟨user, rfl⟩ | rfl | ⟨i, reply, call, -, -, rfl⟩
  · unfold TokenCurrent
    rw [current_handleUser]
    rcases handleUser_cases p user with ⟨hlive, -, htoken, -⟩ | ⟨u, hlive, htoken, -⟩
    · rw [htoken, hlive, Option.map_none]
    · rw [htoken, hlive, Option.map_some]
  · exact h
  · exact h

/-! ### The user -/

/-- The invariant: calls in flight belong to valid users; without a valid last event there is
nobody, and with one its call is open or answered. -/
structure Current (p : Provider) : Prop where
  token : TokenCurrent p
  started : Started p
  nobody : p.current = none → p.auth.user = none
  open_or_answered : ∀ u, p.current = some u → (∃ c ∈ p.pending, p.IsLast c) ∨ p.Answered u

theorem current_initial : Current {} where
  token := rfl
  started _ h := absurd h List.not_mem_nil
  nobody _ := rfl
  open_or_answered _ h := nomatch h

/-- The user of the call of the last event is the valid user of that event. -/
theorem Started.current {p : Provider} (h : Started p) {c : MeCall} (hc : c ∈ p.pending)
    (hlast : p.IsLast c) : p.current = some c.oidcUser := by
  have hindex : p.events.getLast? = p.events[c.event]? := by
    rw [List.getLast?_eq_getElem?, ← hlast, Nat.add_sub_cancel]
  unfold Provider.current
  rw [hindex]
  exact h c hc

theorem Started.append {p : Provider} (h : Started p) {c : MeCall} (hc : c ∈ p.pending)
    (user : Option OidcUser) : (p.events ++ [user])[c.event]?.bind live = some c.oidcUser := by
  have hsome := h c hc
  have hlt : c.event < p.events.length := by
    by_contra hge
    rw [List.getElem?_eq_none (Nat.le_of_not_lt hge)] at hsome
    cases hsome
  rw [List.getElem?_append_left hlt]
  exact hsome

theorem Current.handleUser {p : Provider} {user : Option OidcUser} (h : Current p)
    (htoken : TokenCurrent (p.handleUser user)) : Current (p.handleUser user) := by
  have hevents := handleUser_events p user
  rcases handleUser_cases p user with ⟨hlive, hnobody, -, hpending⟩ | ⟨u, hlive, -, hpending⟩
  · refine ⟨htoken, ?_, fun _ => hnobody, ?_⟩
    · intro c hc
      rw [hpending] at hc
      rw [hevents]
      exact h.started.append hc user
    · intro u hu
      rw [current_handleUser, hlive] at hu
      cases hu
  · refine ⟨htoken, ?_, ?_, ?_⟩
    · intro c hc
      rw [hpending] at hc
      rw [hevents]
      rcases List.mem_append.mp hc with hc | hc
      · exact h.started.append hc user
      · obtain rfl := List.mem_singleton.mp hc
        rw [List.getElem?_concat_length, Option.bind_some, hlive]
    · intro hnone
      rw [current_handleUser, hlive] at hnone
      cases hnone
    · intro _ _
      refine .inl ⟨⟨p.events.length, u⟩, ?_, ?_⟩
      · rw [hpending]
        exact List.mem_append_right _ (List.mem_singleton_self _)
      · unfold IsLast
        rw [hevents, List.length_append, List.length_singleton]

/-- A completion in time is the one of the last event, or leaves that one open. -/
theorem Current.finish {p : Provider} (h : Current p) {i : ℕ} {reply : MeReply} {call : MeCall}
    (hcall : p.pending[i]? = some call) (htime : InTime p (.complete i reply)) :
    Current (p.finish i reply call) := by
  obtain ⟨c, hc, hlast⟩ := htime
  have hcurrent := h.started.current hc hlast
  refine ⟨h.token, ?_, ?_, ?_⟩
  · intro d hd
    exact h.started d (List.mem_of_mem_eraseIdx hd)
  · intro hnone
    exact absurd (hcurrent.symm.trans hnone) (Option.some_ne_none _)
  · intro u hu
    obtain rfl : c.oidcUser = u := Option.some.inj (hcurrent.symm.trans hu)
    by_cases heq : c = call
    · right
      obtain rfl := heq
      exact ⟨c, reply, List.mem_append_right _ (List.mem_singleton_self _), hlast, rfl, rfl⟩
    · exact .inl ⟨c, mem_eraseIdx_of_ne hc hcall heq, hlast⟩

theorem Current.step {p q : Provider} {e : ProviderEvent} (h : Current p) (htime : InTime p e)
    (hstep : p.step e = some q) : Current q := by
  have htoken := h.token.step hstep
  rcases step_cases hstep with ⟨user, rfl⟩ | rfl | ⟨i, reply, call, rfl, hcall, rfl⟩
  · exact h.handleUser htoken
  · exact ⟨htoken, h.started, h.nobody, h.open_or_answered⟩
  · exact h.finish hcall htime

theorem Current.follows {p : Provider} (h : Current p) : Follows p := by
  intro hquiet user hlast
  have hcurrent : p.current = live user := by
    unfold Provider.current
    rw [hlast, Option.bind_some]
  have htoken := h.token
  unfold TokenCurrent at htoken
  rw [hcurrent] at htoken
  cases hlive : live user with
  | none =>
      rw [hlive] at htoken hcurrent
      exact ⟨h.nobody hcurrent, htoken⟩
  | some u =>
      rw [hlive] at htoken hcurrent
      refine ⟨htoken, ?_⟩
      rcases h.open_or_answered u hcurrent with ⟨c, hc, -⟩ | hanswered
      · rw [hquiet] at hc
        exact absurd hc List.not_mem_nil
      · exact hanswered

/-- In a run whose completions are all in time, a quiet provider follows the last event. -/
theorem follows_of_inTime {p : Provider} (h : Reaches step InTime {} p) : Follows p := by
  have hcurrent : Current p :=
    h.invariant current_initial fun _ _ _ hc htime hstep => hc.step htime hstep
  exact hcurrent.follows

/-- The token follows the last event whatever the order of the completions. -/
theorem tokenCurrent_of_reaches {guard : Provider → ProviderEvent → Prop} {p : Provider}
    (h : Reaches step guard {} p) : TokenCurrent p := by
  have hinitial : TokenCurrent {} := rfl
  exact h.invariant hinitial fun _ _ _ hc _ hstep => hc.step hstep

def alice : OidcUser where
  accessToken := str "t"
  expired := false
  preferredUsername := some (str "alice")

/-- The gateway fails to answer and the profile stands in. -/
theorem follows_of_inTime_alice :
    ∃ p, Reaches step InTime {} p ∧ p.pending = [] ∧
      p.auth.user = some ⟨str "alice", []⟩ ∧ Follows p := by
  have hloaded : Reaches step InTime {} (({} : Provider).handleUser (some alice)) :=
    .next (a := .identity (.userLoaded alice)) .refl trivial rfl
  have htime : InTime (({} : Provider).handleUser (some alice)) (.complete 0 none) :=
    ⟨⟨0, alice⟩, List.mem_singleton_self _, rfl⟩
  have hdone := Reaches.next hloaded htime rfl
  exact ⟨_, hdone, rfl, rfl, follows_of_inTime hdone⟩

/-- The answer for a user comes after the sign-out. -/
theorem not_always_follows : ¬∀ p, Reaches step unguarded {} p → Follows p := by
  intro hall
  have hloaded : Reaches step unguarded {} (({} : Provider).handleUser (some alice)) :=
    .next (a := .identity (.userLoaded alice)) .refl trivial rfl
  have hgone := Reaches.next (a := .identity .silentRenewError) hloaded trivial rfl
  have hlate := Reaches.next (a := .complete 0 none) hgone trivial rfl
  have hnobody := (hall _ hlate rfl none rfl).1
  cases hnobody

end Provider

end PierGateway.Spa
