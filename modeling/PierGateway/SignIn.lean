import PierGateway.Session

/-!
# Opening the application

A tab that opens the application asks the library for its user, the gateway for an identity,
follows the redirects of its pages and sends the first requests of the page it arrives at. An
answer 401 away from the two sign-in paths loads `/login` anew. Whatever the library reports and
the gateway answers, somebody sees buckets and nobody the sign-in page. When the library says
nothing after its first answer and the gateway does not change its mind, the tab comes to rest,
with one exception: a user whom the library holds valid and the gateway turns away is taken from
`/login` back to the buckets and from there to `/login` again, without end.
-/
namespace PierGateway.Spa
open GoStrings EventRuns

/-! ### Routes -/

/-- What the routes of `AppRoutes` show. -/
inductive Route where
  | login | callback | buckets
  | browser (bucket : Str)
  | unknown
deriving DecidableEq

/-- What the router matches paths with. -/
structure Router where
  route : Str → Route
  route_login : route (str "/login") = .login
  route_callback : route (str "/callback") = .callback
  route_buckets : route (str "/buckets") = .buckets

/-- The routes behind `ProtectedRoute`. -/
def Route.Protected : Route → Prop
  | .buckets | .browser _ => True
  | _ => False

instance (r : Route) : Decidable r.Protected :=
  match r with
  | .buckets | .browser _ => .isTrue trivial
  | .login | .callback | .unknown => .isFalse id

/-- Where the page of a route sends the browser on, when it does. -/
def Route.redirect (auth : AuthState) : Route → Option Str
  | .login => if auth.user.isSome then some (str "/buckets") else none
  | .callback =>
      if auth.isLoading then none
      else some (if auth.user.isSome then str "/buckets" else str "/login")
  | .buckets | .browser _ =>
      if auth.isLoading then none else if auth.user.isSome then none else some (str "/login")
  | .unknown => some (str "/buckets")

/-- What a page asks of the gateway when it is first shown, together with the shell around it. -/
def Route.firstRequests : Route → ℕ
  | .buckets => 2
  | .browser _ => 3
  | _ => 0

section
variable (router : Router)

/-- The path after the redirects; there are at most two in a row. -/
def settle (auth : AuthState) (path : Str) : Str :=
  match (router.route path).redirect auth with
  | none => path
  | some p => ((router.route p).redirect auth).getD p

variable {router} {auth : AuthState} {path p : Str}

theorem settle_stays (h : (router.route path).redirect auth = none) :
    settle router auth path = path := by
  unfold settle
  rw [h]

theorem settle_moves (h : (router.route path).redirect auth = some p) :
    settle router auth path = ((router.route p).redirect auth).getD p := by
  unfold settle
  rw [h]

variable (router) in
theorem settle_signedIn (huser : auth.user.isSome) (hloading : auth.isLoading = false)
    (path : Str) :
    (router.route (settle router auth path)).Protected := by
  have hthere : ∀ p, (router.route path).redirect auth = some p → p = str "/buckets" →
      (router.route (settle router auth path)).Protected := by
    rintro p hmoves rfl
    rw [settle_moves hmoves, router.route_buckets]
    simp [Route.redirect, huser, router.route_buckets, Route.Protected]
  cases hroute : router.route path with
  | login => exact hthere _ (by rw [hroute, Route.redirect, if_pos huser]) rfl
  | callback => exact hthere _ (by simp [hroute, Route.redirect, huser, hloading]) rfl
  | unknown => exact hthere _ (by rw [hroute, Route.redirect]) rfl
  | buckets =>
      rw [settle_stays (by simp [hroute, Route.redirect, huser]), hroute]
      trivial
  | browser bucket =>
      rw [settle_stays (by simp [hroute, Route.redirect, huser]), hroute]
      trivial

variable (router) in
theorem settle_signedOut (huser : auth.user = none) (hloading : auth.isLoading = false)
    (path : Str) :
    router.route (settle router auth path) = .login := by
  have hthere : (router.route path).redirect auth = some (str "/login") →
      router.route (settle router auth path) = .login := by
    intro hmoves
    rw [settle_moves hmoves, router.route_login]
    simp [Route.redirect, huser, router.route_login]
  cases hroute : router.route path with
  | login => rw [settle_stays (by simp [hroute, Route.redirect, huser]), hroute]
  | callback => exact hthere (by simp [hroute, Route.redirect, huser, hloading])
  | buckets => exact hthere (by simp [hroute, Route.redirect, huser, hloading])
  | browser bucket => exact hthere (by simp [hroute, Route.redirect, huser, hloading])
  | unknown =>
      rw [settle_moves (by rw [hroute, Route.redirect]), router.route_buckets]
      simp [Route.redirect, huser, hloading, router.route_login]

end

/-! ### A tab -/

/-- The user some time later. -/
def OidcUser.expire (u : OidcUser) : OidcUser := { u with expired := true }

/-- A document of the application in its tab. The library keeps its user for the tab; `callback`
says whether the document began at the path of the callback, and `redirect` is what the library
makes of the parameters that path comes with, nothing when it rejects them. -/
structure Tab where
  path : Str
  stored : Option OidcUser
  redirect : Option OidcUser
  callback : Bool
  provider : Provider := {}
  resolved : Bool := false
  page : Option Str := none
  calls : List (Option Str) := []
  leaving : Bool := false
  loads : ℕ := 0

/-- What happens in a tab that nobody touches: the first answer of the library, or that it has
none; what it reports of its own accord; a token that runs out; the answer to the call for an
identity or to a request of a page, which may then send more, `refused` when it has status 401;
the tab has left. -/
inductive TabEvent where
  | resolve
  | rejected
  | userLoaded (user : OidcUser)
  | userUnloaded
  | silentRenewError
  | expire
  | me (i : ℕ) (refused : Bool) (reply : MeReply)
  | reply (i more : ℕ) (refused : Bool)
  | load

namespace Tab
variable (router : Router)

/-- The pages follow the provider: redirects first, and the requests of a page that is new. -/
def render (t : Tab) : Tab :=
  let auth := t.provider.auth
  let path := settle router auth t.path
  if (router.route path).Protected ∧ auth.isLoading = false ∧ auth.user.isSome then
    { t with
      path := path
      page := some path
      calls :=
        if t.page = some path then t.calls
        else t.calls ++ List.replicate (router.route path).firstRequests auth.tokenRef }
  else { t with path := path, page := none }

def opened (path : Str) (stored redirect : Option OidcUser) : Tab :=
  render router
    { path := path, stored := stored, redirect := redirect
      callback := decide (path = str "/callback") }

/-- Neither of the two sign-in paths. -/
def Away (t : Tab) : Prop := t.path ≠ str "/login" ∧ t.path ≠ str "/callback"

instance (t : Tab) : Decidable t.Away := inferInstanceAs (Decidable (_ ∧ _))

/-- The interceptor of answers with status 401. -/
def intercept (t : Tab) : Tab := if t.Away then { t with leaving := true } else t

def handleUser (t : Tab) (user : Option OidcUser) : Tab :=
  { t with provider := t.provider.handleUser user }

/-- The library has no first answer. -/
def reject (t : Tab) : Tab :=
  { t with
    resolved := true
    provider := { t.provider with auth := { t.provider.auth with isLoading := false } } }

/-- The first answer of the library. Behind the callback it keeps the user, says so, and then
answers with it; elsewhere it answers with the user it has kept. -/
def resolve (t : Tab) : Tab :=
  if t.callback then
    match t.redirect with
    | some u =>
        { (t.handleUser (some u)).handleUser (some u) with resolved := true, stored := some u }
    | none => t.reject
  else { t.handleUser t.stored with resolved := true }

/-- The answer to the call for an identity. -/
def answerMe (t : Tab) (i : ℕ) (refused : Bool) (reply : MeReply) (call : MeCall) : Tab :=
  if refused then { t.intercept with provider := t.provider.finish i none call }
  else { t with provider := t.provider.finish i reply call }

/-- The answer to a request of a page. -/
def answerPage (t : Tab) (i more : ℕ) (refused : Bool) : Tab :=
  if refused then { t.intercept with calls := t.calls.eraseIdx i }
  else { t with calls := t.calls.eraseIdx i ++ List.replicate more t.provider.auth.tokenRef }

def step (t : Tab) : TabEvent → Option Tab
  | .resolve => if t.resolved then none else some (t.resolve.render router)
  | .rejected => if t.resolved then none else some (t.reject.render router)
  | .userLoaded user => some ({ t.handleUser (some user) with stored := some user }.render router)
  | .userUnloaded => some ({ t.handleUser none with stored := none }.render router)
  | .silentRenewError => some ((t.handleUser none).render router)
  | .expire =>
      some { t with stored := t.stored.map (·.expire), redirect := t.redirect.map (·.expire) }
  | .me i refused reply =>
      t.provider.pending[i]?.map fun call => (t.answerMe i refused reply call).render router
  | .reply i more refused => t.calls[i]?.map fun _ => t.answerPage i more refused
  | .load =>
      if t.leaving then
        some { opened router (str "/login") t.stored t.redirect with loads := t.loads + 1 }
      else none

/-- The user that the library first answers with. -/
def presented (t : Tab) : Option OidcUser := if t.callback then t.redirect else t.stored

end Tab

/-! ### Histories of a tab -/

/-- Without a valid user nobody is there; with one the gateway has to say who it is. -/
def dismissal (user : Option OidcUser) : Option Bool :=
  if (live user).isSome then none else some false

/-- What an event says about somebody being there. An answer to the call for an identity says
yes, whatever it is; a document that has just begun knows of nobody. -/
def Tab.tells (t : Tab) : TabEvent → Option Bool
  | .me _ _ _ => some true
  | .userUnloaded | .silentRenewError | .load => some false
  | .userLoaded user => dismissal (some user)
  | .resolve => if t.callback ∧ t.redirect = none then none else dismissal t.presented
  | .rejected | .expire | .reply _ _ _ => none

/-- An answer 401 away from the two sign-in paths. -/
def Tab.refusal (t : Tab) : TabEvent → Option Unit
  | .me _ true _ | .reply _ _ true => if t.Away then some () else none
  | _ => none

/-- The last that was said is that somebody is there. -/
def SomebodyThere (h : List (Tab × TabEvent)) : Prop := (seen Tab.tells h).getLast? = some true

/-- The answers 401 away from the two sign-in paths. -/
def refusals (h : List (Tab × TabEvent)) : ℕ := (seen Tab.refusal h).length

/-- The library says nothing after its first answer, no token runs out, and the gateway turns
away the tokens `refuses` and no others. -/
def Quiet (refuses : Option Str → Bool) (t : Tab) : TabEvent → Prop
  | .resolve | .load => True
  | .me i refused _ => ∀ call, t.provider.pending[i]? = some call →
      refused = refuses (some call.oidcUser.accessToken)
  | .reply i _ refused => ∀ token, t.calls[i]? = some token → refused = refuses token
  | .rejected | .userLoaded _ | .userUnloaded | .silentRenewError | .expire => False

/-- Nothing is under way. -/
structure Tab.AtRest (t : Tab) : Prop where
  resolved : t.resolved = true
  pending : t.provider.pending = []
  calls : t.calls = []
  leaving : t.leaving = false

/-- The sign-in page is shown to nobody. -/
def Tab.AtSignIn (router : Router) (t : Tab) : Prop :=
  t.provider.auth.user = none ∧ t.provider.auth.isLoading = false ∧
    router.route t.path = .login ∧ t.page = none

/-- A page of buckets is shown to somebody. -/
def Tab.AtBuckets (router : Router) (t : Tab) : Prop :=
  t.provider.auth.user.isSome ∧ t.provider.auth.isLoading = false ∧
    (router.route t.path).Protected ∧ t.page = some t.path

/-- No page is shown, and it is not yet known who is there. -/
def Tab.Loading (t : Tab) : Prop :=
  t.provider.auth.user = none ∧ t.provider.auth.isLoading = true ∧ t.page = none

namespace Tab
variable {router : Router} {refuses : Option Str → Bool} {u : OidcUser} {t t' : Tab} {e : TabEvent}
  {past : List (Tab × TabEvent)}

theorem intercept_cases (t : Tab) : t.intercept = t ∨ t.intercept = { t with leaving := true } := by
  unfold intercept
  split_ifs
  · exact .inr rfl
  · exact .inl rfl

theorem resolve_frame (t : Tab) : t.resolve.loads = t.loads ∧ t.resolve.leaving = t.leaving := by
  unfold resolve
  split
  · split
    · exact ⟨rfl, rfl⟩
    · exact ⟨rfl, rfl⟩
  · exact ⟨rfl, rfl⟩

/-! ### What every event keeps -/

section
variable {p q r : Provider} {said : Option Bool}

/-- The provider goes by what was said, and as long as it does not know a call is open. -/
structure Heeds (p q : Provider) (said : Option Bool) : Prop where
  user : q.auth.user.isSome = said.getD p.auth.user.isSome
  loading : q.auth.isLoading = true →
    p.auth.isLoading = true ∧ q.auth.user = p.auth.user ∧ q.pending ≠ []

theorem heeds_handleUser (p : Provider) (user : Option OidcUser) :
    Heeds p (p.handleUser user) (dismissal user) := by
  unfold Provider.handleUser dismissal
  cases live user with
  | none => exact ⟨rfl, by simp⟩
  | some u => exact ⟨rfl, fun hloading => ⟨hloading, rfl, by simp⟩⟩

theorem heeds_finish (p : Provider) (i : ℕ) (reply : MeReply) (call : MeCall) :
    Heeds p (p.finish i reply call) (some true) := ⟨rfl, by simp [Provider.finish]⟩

theorem heeds_reject (t : Tab) : Heeds t.provider t.reject.provider none := ⟨rfl, by simp [reject]⟩

/-- What is said twice is heeded as what is said once. -/
theorem Heeds.again (h : Heeds p q said) (h' : Heeds q r said) : Heeds p r said := by
  constructor
  · rw [h'.user, h.user]
    cases said with
    | none => rfl
    | some b => rfl
  · intro hloading
    obtain ⟨hloading, huser, hpending⟩ := h'.loading hloading
    obtain ⟨hloading, husers, -⟩ := h.loading hloading
    exact ⟨hloading, huser.trans husers, hpending⟩

end

theorem heeds_resolve (t : Tab) : Heeds t.provider t.resolve.provider (t.tells .resolve) := by
  unfold resolve
  dsimp only [tells, presented]
  cases t.callback with
  | false => exact heeds_handleUser t.provider t.stored
  | true =>
      cases t.redirect with
      | none => exact t.heeds_reject
      | some u =>
          have hfirst := heeds_handleUser t.provider (some u)
          have hagain := heeds_handleUser (t.provider.handleUser (some u)) (some u)
          exact hfirst.again hagain

theorem heeds_answerMe (t : Tab) (i : ℕ) (refused : Bool) (reply : MeReply) (call : MeCall) :
    Heeds t.provider (t.answerMe i refused reply call).provider (some true) := by
  unfold answerMe
  split_ifs
  · exact heeds_finish t.provider i none call
  · exact heeds_finish t.provider i reply call

theorem render_frame (router : Router) (t : Tab) :
    (t.render router).provider = t.provider ∧ (t.render router).resolved = t.resolved ∧
      (t.render router).loads = t.loads ∧ (t.render router).leaving = t.leaving := by
  unfold render
  dsimp only
  split_ifs
  · exact ⟨rfl, rfl, rfl, rfl⟩
  · exact ⟨rfl, rfl, rfl, rfl⟩
  · exact ⟨rfl, rfl, rfl, rfl⟩

theorem render_away (h : t.provider.auth.user = none) :
    t.render router =
      { t with path := settle router t.provider.auth t.path, page := none } := by
  unfold render
  dsimp only
  rw [if_neg (by simp [h])]

/-- What is shown: nothing yet, the sign-in page or a page of buckets. -/
def Shown (router : Router) (t : Tab) : Prop :=
  t.Loading ∨ t.AtSignIn router ∨ t.AtBuckets router

theorem Shown.nobody_of_loading (h : t.Shown router) (hloading : t.provider.auth.isLoading = true) :
    t.provider.auth.user = none := by
  rcases h with h | h | h
  · exact h.1
  · exact h.1
  · rw [h.2.1] at hloading
    cases hloading

variable (router) in
theorem shown_render (h : t.provider.auth.isLoading = true → t.provider.auth.user = none) :
    (t.render router).Shown router := by
  cases huser : t.provider.auth.user with
  | none =>
      rw [render_away huser]
      cases hloading : t.provider.auth.isLoading with
      | true => exact .inl ⟨huser, hloading, rfl⟩
      | false =>
          exact .inr (.inl ⟨huser, hloading, settle_signedOut router huser hloading t.path, rfl⟩)
  | some name =>
      have hknown : t.provider.auth.isLoading = false := by
        by_contra hloading
        rw [h (by simpa using hloading)] at huser
        cases huser
      have hsome : t.provider.auth.user.isSome := by rw [huser, Option.isSome_some]
      have hhere := settle_signedIn router hsome hknown t.path
      unfold render
      dsimp only
      rw [if_pos ⟨hhere, hknown, hsome⟩]
      exact .inr (.inr ⟨hsome, hknown, hhere, rfl⟩)

theorem Shown.of_eq (h : t.Shown router) (hpath : t'.path = t.path)
    (hprovider : t'.provider = t.provider) (hpage : t'.page = t.page) : t'.Shown router := by
  unfold Shown Loading AtSignIn AtBuckets at h ⊢
  rw [hpath, hprovider, hpage]
  exact h

/-! ### The laws of every history -/

theorem somebodyThere_snoc (past : List (Tab × TabEvent)) (t : Tab) (e : TabEvent) :
    SomebodyThere (past ++ [(t, e)]) ↔
      (t.tells e).elim (SomebodyThere past) (fun b => b = true) := by
  unfold SomebodyThere
  rw [seen_snoc]
  cases t.tells e <;> simp

theorem refusals_snoc (past : List (Tab × TabEvent)) (t : Tab) (e : TabEvent) :
    refusals (past ++ [(t, e)]) = refusals past + (t.refusal e).toList.length := by
  unfold refusals
  rw [seen_snoc, List.length_append]

/-- What holds of every tab and its history. -/
structure Lawful (router : Router) (past : List (Tab × TabEvent)) (t : Tab) : Prop where
  shown : t.Shown router
  somebody : t.provider.auth.user.isSome = true ↔ SomebodyThere past
  awaited : t.provider.auth.isLoading = true → t.resolved = false ∨ t.provider.pending ≠ []
  loads : t.loads + t.leaving.toNat ≤ refusals past

theorem Lawful.render (h : Lawful router past t) (hheeds : Heeds t.provider t'.provider (t.tells e))
    (hloads : t'.loads = t.loads)
    (hleaving : t'.leaving.toNat ≤ t.leaving.toNat + (t.refusal e).toList.length) :
    Lawful router (past ++ [(t, e)]) (t'.render router) := by
  obtain ⟨hprovider, -, hloads', hleaving'⟩ := render_frame router t'
  constructor
  · apply shown_render
    intro hloading
    obtain ⟨hloading, huser, -⟩ := hheeds.loading hloading
    rw [huser]
    exact h.shown.nobody_of_loading hloading
  · rw [hprovider, hheeds.user, somebodyThere_snoc]
    cases t.tells e with
    | none => exact h.somebody
    | some b => exact Iff.rfl
  · rw [hprovider]
    intro hloading
    exact .inr (hheeds.loading hloading).2.2
  · have hold := h.loads
    rw [hloads', hleaving', hloads, refusals_snoc]
    omega

theorem Lawful.keep (h : Lawful router past t) (hsilent : t.tells e = none)
    (hpath : t'.path = t.path) (hprovider : t'.provider = t.provider) (hpage : t'.page = t.page)
    (hresolved : t'.resolved = t.resolved) (hloads : t'.loads = t.loads)
    (hleaving : t'.leaving.toNat ≤ t.leaving.toNat + (t.refusal e).toList.length) :
    Lawful router (past ++ [(t, e)]) t' := by
  constructor
  · exact h.shown.of_eq hpath hprovider hpage
  · rw [hprovider, somebodyThere_snoc, hsilent]
    exact h.somebody
  · rw [hprovider, hresolved]
    exact h.awaited
  · have hold := h.loads
    rw [hloads, refusals_snoc]
    omega

/-- The interceptor makes the tab leave only for an answer that counts. -/
theorem intercept_leaving (t : Tab) :
    t.intercept.leaving.toNat ≤
      t.leaving.toNat + (if t.Away then some () else none : Option Unit).toList.length := by
  unfold intercept
  split_ifs
  · simp
  · simp

theorem intercept_frame (t : Tab) :
    t.intercept.path = t.path ∧ t.intercept.provider = t.provider ∧ t.intercept.page = t.page ∧
      t.intercept.resolved = t.resolved ∧ t.intercept.loads = t.loads := by
  rcases t.intercept_cases with h | h
  · rw [h]
    exact ⟨rfl, rfl, rfl, rfl, rfl⟩
  · rw [h]
    exact ⟨rfl, rfl, rfl, rfl, rfl⟩

theorem Lawful.answerMe (h : Lawful router past t) (i : ℕ) (refused : Bool) (reply : MeReply)
    (call : MeCall) :
    Lawful router (past ++ [(t, .me i refused reply)])
      ((t.answerMe i refused reply call).render router) := by
  apply h.render (t.heeds_answerMe i refused reply call)
  · unfold Tab.answerMe
    split_ifs
    · exact t.intercept_frame.2.2.2.2
    · rfl
  · unfold Tab.answerMe
    cases refused with
    | true => exact t.intercept_leaving
    | false => exact Nat.le_add_right _ _

theorem Lawful.answerPage (h : Lawful router past t) (i more : ℕ) (refused : Bool) :
    Lawful router (past ++ [(t, .reply i more refused)]) (t.answerPage i more refused) := by
  obtain ⟨hpath, hprovider, hpage, hresolved, hloads⟩ := t.intercept_frame
  unfold Tab.answerPage
  cases refused with
  | true => exact h.keep rfl hpath hprovider hpage hresolved hloads t.intercept_leaving
  | false => exact h.keep rfl rfl rfl rfl rfl rfl (Nat.le_add_right _ _)

theorem opened_eq (router : Router) (path : Str) (stored redirect : Option OidcUser) :
    opened router path stored redirect =
      { path := settle router {} path, stored := stored, redirect := redirect
        callback := decide (path = str "/callback") } := by
  unfold opened
  rw [render_away rfl]

theorem shown_opened (router : Router) (path : Str) (stored redirect : Option OidcUser) :
    (opened router path stored redirect).Shown router := by
  rw [opened_eq]
  exact .inl ⟨rfl, rfl, rfl⟩

theorem lawful_opened (router : Router) (path : Str) (stored redirect : Option OidcUser) :
    Lawful router [] (opened router path stored redirect) := by
  refine ⟨shown_opened router path stored redirect, ?_, ?_, ?_⟩
  · rw [opened_eq]
    simp [SomebodyThere]
  · rw [opened_eq]
    exact fun _ => .inl rfl
  · rw [opened_eq]
    exact Nat.zero_le _

theorem Lawful.step (h : Lawful router past t) (hstep : t.step router e = some t') :
    Lawful router (past ++ [(t, e)]) t' := by
  have hfirst : ∀ u : Tab, Heeds t.provider u.provider (t.tells e) → u.loads = t.loads →
      u.leaving = t.leaving → (if t.resolved then none else some (u.render router)) = some t' →
      Lawful router (past ++ [(t, e)]) t' := by
    intro u hheeds hloads hleaving hu
    split_ifs at hu
    obtain rfl := Option.some.inj hu
    exact h.render hheeds hloads (by rw [hleaving]; exact Nat.le_add_right _ _)
  cases e with
  | resolve => exact hfirst _ t.heeds_resolve (resolve_frame t).1 (resolve_frame t).2 hstep
  | rejected => exact hfirst _ t.heeds_reject rfl rfl hstep
  | userLoaded user =>
      obtain rfl := Option.some.inj hstep
      exact h.render (heeds_handleUser t.provider (some user)) rfl (Nat.le_add_right _ _)
  | userUnloaded =>
      obtain rfl := Option.some.inj hstep
      exact h.render (heeds_handleUser t.provider none) rfl (Nat.le_add_right _ _)
  | silentRenewError =>
      obtain rfl := Option.some.inj hstep
      exact h.render (heeds_handleUser t.provider none) rfl (Nat.le_add_right _ _)
  | expire =>
      obtain rfl := Option.some.inj hstep
      exact h.keep rfl rfl rfl rfl rfl rfl (Nat.le_add_right _ _)
  | me i refused reply =>
      obtain ⟨call, -, rfl⟩ := Option.map_eq_some_iff.mp hstep
      exact h.answerMe i refused reply call
  | reply i more refused =>
      obtain ⟨token, -, rfl⟩ := Option.map_eq_some_iff.mp hstep
      exact h.answerPage i more refused
  | load =>
      dsimp only [Tab.step] at hstep
      split_ifs at hstep with hleaving
      obtain rfl := Option.some.inj hstep
      have hold := h.loads
      rw [hleaving] at hold
      rw [opened_eq]
      refine ⟨.inl ⟨rfl, rfl, rfl⟩, ?_, fun _ => .inl rfl, ?_⟩
      · rw [somebodyThere_snoc]
        simp [tells]
      · rw [refusals_snoc]
        exact hold.trans (Nat.le_add_right _ _)

/-- Where nothing is under way it is known who is there. -/
theorem Lawful.known (h : Lawful router past t) (hrest : t.AtRest) :
    t.provider.auth.isLoading = false := by
  by_contra hloading
  rcases h.awaited (by simpa using hloading) with hresolved | hpending
  · rw [hrest.resolved] at hresolved
    cases hresolved
  · exact hpending hrest.pending

theorem Lawful.atBuckets_iff (h : Lawful router past t) :
    t.AtBuckets router ↔ SomebodyThere past := by
  rw [← h.somebody]
  constructor
  · exact fun hat => hat.1
  · intro huser
    rcases h.shown with hshown | hshown | hshown
    · rw [hshown.1] at huser
      cases huser
    · rw [hshown.1] at huser
      cases huser
    · exact hshown

/-- Who is not there sees the sign-in page, or nothing as long as an answer is owed. -/
theorem Lawful.elsewhere (h : Lawful router past t) (hnobody : ¬SomebodyThere past) :
    t.AtSignIn router ∨ t.Loading ∧ ¬t.AtRest := by
  rcases h.shown with hshown | hshown | hshown
  · refine .inr ⟨hshown, fun hrest => ?_⟩
    have hloading := h.known hrest
    rw [hshown.2.1] at hloading
    cases hloading
  · exact .inl hshown
  · exact absurd (h.atBuckets_iff.mp hshown) hnobody

theorem Lawful.loads_le (h : Lawful router past t) : t.loads ≤ refusals past :=
  (Nat.le_add_right _ _).trans h.loads

/-! ### What an event of a quiet run can do -/

theorem quiet_cases (hquiet : Quiet refuses t e) (h : t.step router e = some t') :
    (t.resolved = false ∧ t' = t.resolve.render router) ∨
      (∃ i reply call, t.provider.pending[i]? = some call ∧
        t' = (t.answerMe i (refuses (some call.oidcUser.accessToken)) reply call).render router) ∨
      (∃ i more token, t.calls[i]? = some token ∧ t' = t.answerPage i more (refuses token)) ∨
      t.leaving = true ∧
        t' = { opened router (str "/login") t.stored t.redirect with loads := t.loads + 1 } := by
  cases e with
  | resolve =>
      dsimp only [step] at h
      split_ifs at h with hresolved
      exact .inl ⟨by simpa using hresolved, (Option.some.inj h).symm⟩
  | me i refused reply =>
      obtain ⟨call, hcall, ht'⟩ := Option.map_eq_some_iff.mp h
      obtain rfl := hquiet call hcall
      exact .inr (.inl ⟨i, reply, call, hcall, ht'.symm⟩)
  | reply i more refused =>
      obtain ⟨token, htoken, ht'⟩ := Option.map_eq_some_iff.mp h
      obtain rfl := hquiet token htoken
      exact .inr (.inr (.inl ⟨i, more, token, htoken, ht'.symm⟩))
  | load =>
      dsimp only [step] at h
      split_ifs at h with hleaving
      exact .inr (.inr (.inr ⟨hleaving, (Option.some.inj h).symm⟩))
  | rejected => exact hquiet.elim
  | userLoaded user => exact hquiet.elim
  | userUnloaded => exact hquiet.elim
  | silentRenewError => exact hquiet.elim
  | expire => exact hquiet.elim

/-! ### The pages of one document -/

/-- A document whose library has not answered yet. -/
structure Fresh (t : Tab) : Prop where
  provider : t.provider = {}
  resolved : t.resolved = false
  page : t.page = none
  calls : t.calls = []
  leaving : t.leaving = false

/-- The gateway is asked who the user of the library is. -/
structure Asking (u : OidcUser) (t : Tab) : Prop where
  resolved : t.resolved = true
  stored : t.stored = some u
  pending : t.provider.pending ≠ []
  pending_le : t.provider.pending.length ≤ 2
  asked : ∀ c ∈ t.provider.pending, c.oidcUser = u
  auth : t.provider.auth = { tokenRef := some u.accessToken }
  page : t.page = none
  calls : t.calls = []
  leaving : t.leaving = false

/-- The page of some buckets is shown. -/
structure SignedIn (router : Router) (u : OidcUser) (t : Tab) : Prop where
  resolved : t.resolved = true
  stored : t.stored = some u
  pending_le : t.provider.pending.length ≤ 2
  asked : ∀ c ∈ t.provider.pending, c.oidcUser = u
  user : t.provider.auth.user.isSome
  loading : t.provider.auth.isLoading = false
  token : t.provider.auth.tokenRef = some u.accessToken
  here : (router.route t.path).Protected
  page : t.page = some t.path
  calls : ∀ token ∈ t.calls, token = some u.accessToken

/-- The sign-in page is shown, and nothing is under way. -/
structure SignedOut (router : Router) (t : Tab) : Prop where
  resolved : t.resolved = true
  user : t.provider.auth.user = none
  loading : t.provider.auth.isLoading = false
  pending : t.provider.pending = []
  here : router.route t.path = .login
  page : t.page = none
  calls : t.calls = []
  leaving : t.leaving = false

theorem fresh_opened (router : Router) (path : Str) (stored redirect : Option OidcUser) :
    (opened router path stored redirect).Fresh := by
  rw [opened_eq]
  constructor
  · rfl
  · rfl
  · rfl
  · rfl
  · rfl

variable (router) in
theorem render_new (huser : t.provider.auth.user.isSome)
    (hloading : t.provider.auth.isLoading = false)
    (hpage : t.page = none) :
    ∃ path, (router.route path).Protected ∧ t.render router =
      { t with
        path := path
        page := some path
        calls := t.calls ++
          List.replicate (router.route path).firstRequests t.provider.auth.tokenRef } := by
  have hhere := settle_signedIn router huser hloading t.path
  refine ⟨_, hhere, ?_⟩
  unfold render
  dsimp only
  rw [if_pos ⟨hhere, hloading, huser⟩, if_neg (by simp [hpage])]

variable (router) in
theorem render_same (huser : t.provider.auth.user.isSome)
    (hloading : t.provider.auth.isLoading = false)
    (hhere : (router.route t.path).Protected) (hpage : t.page = some t.path) :
    t.render router = t := by
  have hstays : settle router t.provider.auth t.path = t.path := by
    apply settle_stays
    cases hroute : router.route t.path with
    | buckets => simp [Route.redirect, huser]
    | browser bucket => simp [Route.redirect, huser]
    | _ =>
        rw [hroute] at hhere
        exact hhere.elim
  unfold render
  dsimp only
  rw [hstays, if_pos ⟨hhere, hloading, huser⟩, if_pos hpage, ← hpage]

theorem firstRequests_bounds {r : Route} (h : r.Protected) :
    0 < r.firstRequests ∧ r.firstRequests ≤ 3 := by
  cases r with
  | buckets => decide
  | browser bucket => exact ⟨Nat.succ_pos 2, le_rfl⟩
  | _ => exact h.elim

/-! ### The steps of one document -/

theorem Fresh.resolve_signedOut (h : t.Fresh) (hu : live t.presented = none) :
    SignedOut router (t.resolve.render router) ∧ (t.resolve.render router).loads = t.loads := by
  have hresolve : ∃ stored auth events, auth.user = none ∧ auth.isLoading = false ∧ t.resolve =
      { t with
        resolved := true
        stored := stored
        provider := { auth := auth, events := events } } := by
    unfold Tab.presented at hu
    unfold resolve
    split_ifs at hu with hcallback
    · rw [if_pos hcallback]
      cases hredirect : t.redirect with
      | none =>
          dsimp only [reject]
          rw [h.provider]
          exact ⟨t.stored, { isLoading := false }, [], rfl, rfl, by rw [hredirect]⟩
      | some u =>
          rw [hredirect] at hu
          dsimp only [Tab.handleUser]
          rw [h.provider, Provider.handleUser, hu, Provider.handleUser, hu]
          exact ⟨_, _, _, rfl, rfl, by rw [hredirect]⟩
    · rw [if_neg hcallback]
      dsimp only [Tab.handleUser]
      rw [h.provider, Provider.handleUser, hu]
      exact ⟨t.stored, _, _, rfl, rfl, rfl⟩
  obtain ⟨stored, auth, events, huser, hloading, heq⟩ := hresolve
  rw [heq, render_away huser]
  refine ⟨?_, rfl⟩
  constructor
  · rfl
  · exact huser
  · exact hloading
  · rfl
  · exact settle_signedOut router huser hloading t.path
  · rfl
  · exact h.calls
  · exact h.leaving

/-- With a valid user the gateway is asked, behind the callback twice. -/
theorem Fresh.resolve_asking (h : t.Fresh) (hu : live t.presented = some u) :
    Asking u (t.resolve.render router) ∧ (t.resolve.render router).loads = t.loads := by
  have hlive : ∀ user : Option OidcUser, live user = some u → user = some u := by
    intro user huser
    exact (Option.filter_eq_some_iff.mp huser).1
  have hresolve : ∃ pending events, pending ≠ [] ∧ pending.length ≤ 2 ∧
      (∀ c ∈ pending, MeCall.oidcUser c = u) ∧ t.resolve =
        { t with
          resolved := true
          stored := some u
          provider := {
            auth := { tokenRef := some u.accessToken }, events, pending } } := by
    unfold Tab.presented at hu
    unfold resolve
    split_ifs at hu with hcallback
    · rw [if_pos hcallback]
      cases hredirect : t.redirect with
      | none =>
          rw [hredirect] at hu
          cases hu
      | some v =>
          rw [hredirect] at hu
          obtain rfl : v = u := Option.some.inj (hlive _ hu)
          dsimp only [Tab.handleUser]
          rw [h.provider, Provider.handleUser, hu, Provider.handleUser, hu]
          refine ⟨_, _, ?_, ?_, ?_, by rw [hredirect]⟩
          · simp
          · simp
          · simp
    · rw [if_neg hcallback]
      dsimp only [Tab.handleUser]
      rw [h.provider, Provider.handleUser, hu, hlive _ hu]
      refine ⟨_, _, ?_, ?_, ?_, rfl⟩
      · simp
      · simp
      · simp
  obtain ⟨pending, events, hne, hle, hasked, heq⟩ := hresolve
  rw [heq, render_away rfl]
  refine ⟨?_, rfl⟩
  constructor
  · rfl
  · rfl
  · exact hne
  · exact hle
  · exact hasked
  · rfl
  · rfl
  · exact h.calls
  · exact h.leaving

theorem intercept_protected (h : (router.route t.path).Protected) :
    t.intercept = { t with leaving := true } := by
  unfold intercept
  apply if_pos
  constructor
  · intro hpath
    rw [hpath, router.route_login] at h
    exact h
  · intro hpath
    rw [hpath, router.route_callback] at h
    exact h

/-- An answer to the call for an identity signs the user in, whatever it is. -/
theorem answerMe_eq (t : Tab) (i : ℕ) (refused : Bool) (reply : MeReply) (call : MeCall) :
    ∃ leaving reply', t.answerMe i refused reply call =
        { t with leaving := leaving, provider := t.provider.finish i reply' call } ∧
      (refused = false → leaving = t.leaving) ∧ (t.leaving = true → leaving = true) := by
  unfold answerMe
  split_ifs with hrefused
  · rcases t.intercept_cases with h | h
    · rw [h]
      exact ⟨t.leaving, none, rfl, fun _ => rfl, id⟩
    · rw [h]
      exact ⟨true, none, rfl, by simp [hrefused], fun _ => rfl⟩
  · exact ⟨t.leaving, reply, rfl, fun _ => rfl, id⟩

theorem length_eraseIdx_add_one {α : Type} {l : List α} {i : ℕ} {x : α} (h : l[i]? = some x) :
    (l.eraseIdx i).length + 1 = l.length := (perm_eraseIdx h).length_eq

/-- The first answer brings up a page. -/
theorem Asking.answerMe (h : Asking u t) {i : ℕ} {call : MeCall}
    (hcall : t.provider.pending[i]? = some call) (reply : MeReply) :
    let t' := (t.answerMe i (refuses (some call.oidcUser.accessToken)) reply call).render router
    SignedIn router u t' ∧ t'.loads = t.loads ∧
      t'.provider.pending.length + 1 = t.provider.pending.length ∧
      (0 < t'.calls.length ∧ t'.calls.length ≤ 3) ∧
      (refuses (some u.accessToken) = false → t'.leaving = t.leaving) := by
  obtain ⟨leaving, reply', heq, hkept, -⟩ :=
    t.answerMe_eq i (refuses (some call.oidcUser.accessToken)) reply call
  obtain ⟨path, hhere, hrender⟩ := render_new router
    (t := { t with leaving := leaving, provider := t.provider.finish i reply' call }) rfl rfl h.page
  obtain ⟨hpos, hle⟩ := firstRequests_bounds hhere
  have htoken : (t.provider.finish i reply' call).auth.tokenRef = some u.accessToken := by
    dsimp only [Provider.finish]
    rw [h.auth]
  have herased := length_eraseIdx_add_one hcall
  have hasked := h.asked call (List.mem_of_getElem? hcall)
  dsimp only
  rw [heq, hrender]
  dsimp only
  rw [h.calls, htoken]
  refine ⟨?_, rfl, herased, ?_, ?_⟩
  · constructor
    · exact h.resolved
    · exact h.stored
    · have hle := h.pending_le
      dsimp only [Provider.finish]
      omega
    · intro c hc
      exact h.asked c (List.mem_of_mem_eraseIdx hc)
    · rfl
    · rfl
    · exact htoken
    · exact hhere
    · rfl
    · intro token hcalled
      exact List.eq_of_mem_replicate (by simpa using hcalled)
  · simpa using ⟨hpos, hle⟩
  · intro hgranted
    exact hkept (by rw [hasked]; exact hgranted)

theorem SignedIn.answerMe (h : SignedIn router u t) {i : ℕ} {call : MeCall}
    (hcall : t.provider.pending[i]? = some call) (reply : MeReply) :
    let t' := (t.answerMe i (refuses (some call.oidcUser.accessToken)) reply call).render router
    SignedIn router u t' ∧ t'.loads = t.loads ∧
      t'.provider.pending.length + 1 = t.provider.pending.length ∧ t'.calls = t.calls ∧
      (refuses (some u.accessToken) = false → t'.leaving = t.leaving) ∧
      (t.leaving = true → t'.leaving = true) := by
  obtain ⟨leaving, reply', heq, hkept, hleft⟩ :=
    t.answerMe_eq i (refuses (some call.oidcUser.accessToken)) reply call
  have hrender := render_same router
    (t := { t with leaving := leaving, provider := t.provider.finish i reply' call }) rfl rfl
    h.here h.page
  have herased := length_eraseIdx_add_one hcall
  have hasked := h.asked call (List.mem_of_getElem? hcall)
  dsimp only
  rw [heq, hrender]
  refine ⟨?_, rfl, herased, rfl, ?_, hleft⟩
  · constructor
    · exact h.resolved
    · exact h.stored
    · have hle := h.pending_le
      dsimp only [Provider.finish]
      omega
    · intro c hc
      exact h.asked c (List.mem_of_mem_eraseIdx hc)
    · rfl
    · rfl
    · exact h.token
    · exact h.here
    · exact h.page
    · exact h.calls
  · intro hgranted
    exact hkept (by rw [hasked]; exact hgranted)

theorem SignedIn.answerPage (h : SignedIn router u t) {i : ℕ} {token : Option Str}
    (htoken : t.calls[i]? = some token) (more : ℕ) :
    let t' := t.answerPage i more (refuses token)
    SignedIn router u t' ∧ t'.loads = t.loads ∧ t'.provider = t.provider ∧
      (refuses (some u.accessToken) = false → t'.leaving = t.leaving) ∧
      (refuses (some u.accessToken) = true → t'.leaving = true ∧
        t'.calls.length + 1 = t.calls.length) := by
  obtain rfl := h.calls token (List.mem_of_getElem? htoken)
  have hsigned : ∀ calls leaving, (∀ token ∈ calls, token = some u.accessToken) →
      SignedIn router u { t with calls := calls, leaving := leaving } := by
    intro calls leaving hcalls
    exact { h with calls := hcalls }
  dsimp only
  unfold Tab.answerPage
  split_ifs with hrefused
  · rw [intercept_protected h.here]
    refine ⟨?_, rfl, rfl, by simp [hrefused], ?_⟩
    · apply hsigned
      intro token hmem
      exact h.calls token (List.mem_of_mem_eraseIdx hmem)
    · intro _
      exact ⟨rfl, length_eraseIdx_add_one htoken⟩
  · refine ⟨?_, rfl, rfl, fun _ => rfl, fun h => absurd h hrefused⟩
    apply hsigned
    intro token hmem
    rcases List.mem_append.mp hmem with hold | hnew
    · exact h.calls token (List.mem_of_mem_eraseIdx hold)
    · rw [List.eq_of_mem_replicate hnew]
      exact h.token

/-! ### Runs -/

/-- Where a tab is whose library has a valid user. -/
inductive Stage (router : Router) (u : OidcUser) (t : Tab) : Prop
  | opening (h : t.Fresh) (hu : live t.presented = some u)
  | asking (h : Asking u t)
  | signedIn (h : SignedIn router u t)

/-- A document that was loaded on account of a refusal begins where it began. -/
theorem fresh_loaded (hu : u.expired = false) (hstored : t.stored = some u) :
    let t' := { opened router (str "/login") t.stored t.redirect with loads := t.loads + 1 }
    t'.Fresh ∧ live t'.presented = some u := by
  have hfresh := fresh_opened router (str "/login") t.stored t.redirect
  have hlogin : str "/login" ≠ str "/callback" := by decide
  have hlive : live (some u) = some u := by
    unfold live
    rw [Option.filter_some, hu]
    rfl
  constructor
  · exact ⟨hfresh.provider, hfresh.resolved, hfresh.page, hfresh.calls, hfresh.leaving⟩
  · rw [opened_eq, decide_eq_false hlogin, hstored]
    exact hlive

/-- What becomes of such a tab in a step. -/
inductive Advance (router : Router) (refuses : Option Str → Bool) (u : OidcUser) (t t' : Tab) : Prop
  | asks (h : t.Fresh) (h' : Asking u t') (hloads : t'.loads = t.loads)
  | arrives (h : Asking u t) (h' : SignedIn router u t') (hloads : t'.loads = t.loads)
      (hpending : t'.provider.pending.length + 1 = t.provider.pending.length)
      (hcalls : 0 < t'.calls.length ∧ t'.calls.length ≤ 3)
      (hgranted : refuses (some u.accessToken) = false → t'.leaving = t.leaving)
  | asksLess (h : SignedIn router u t) (h' : SignedIn router u t') (hloads : t'.loads = t.loads)
      (hpending : t'.provider.pending.length + 1 = t.provider.pending.length)
      (hcalls : t'.calls = t.calls)
      (hgranted : refuses (some u.accessToken) = false → t'.leaving = t.leaving)
      (hleft : t.leaving = true → t'.leaving = true)
  | answered (h : SignedIn router u t) (h' : SignedIn router u t') (hloads : t'.loads = t.loads)
      (hprovider : t'.provider = t.provider)
      (hgranted : refuses (some u.accessToken) = false → t'.leaving = t.leaving)
      (hrefused : refuses (some u.accessToken) = true →
        t'.leaving = true ∧ t'.calls.length + 1 = t.calls.length)
  | loads (h : SignedIn router u t) (hleaving : t.leaving = true) (hfresh : t'.Fresh)
      (hlive : live t'.presented = some u)
      (hloads : t'.loads = t.loads + 1)

theorem Stage.advance (hu : u.expired = false) (h : Stage router u t) (hquiet : Quiet refuses t e)
    (hstep : t.step router e = some t') : Advance router refuses u t t' := by
  cases h with
  | opening h hlive =>
      rcases quiet_cases hquiet hstep with
        ⟨-, rfl⟩ | ⟨i, reply, call, hcall, -⟩ | ⟨i, more, token, htoken, -⟩ |
        ⟨hleaving, -⟩
      · obtain ⟨hasking, hloads⟩ := h.resolve_asking hlive
        exact .asks h hasking hloads
      · rw [h.provider] at hcall
        cases hcall
      · rw [h.calls] at htoken
        cases htoken
      · rw [h.leaving] at hleaving
        cases hleaving
  | asking h =>
      rcases quiet_cases hquiet hstep with ⟨hunresolved, -⟩ | ⟨i, reply, call, hcall, rfl⟩ |
        ⟨i, more, token, htoken, -⟩ | ⟨hleaving, -⟩
      · rw [h.resolved] at hunresolved
        cases hunresolved
      · obtain ⟨hsigned, hloads, hpending, hcalls, hgranted⟩ := h.answerMe hcall reply
        exact .arrives h hsigned hloads hpending hcalls hgranted
      · rw [h.calls] at htoken
        cases htoken
      · rw [h.leaving] at hleaving
        cases hleaving
  | signedIn h =>
      rcases quiet_cases hquiet hstep with ⟨hunresolved, -⟩ | ⟨i, reply, call, hcall, rfl⟩ |
        ⟨i, more, token, htoken, rfl⟩ | ⟨hleaving, rfl⟩
      · rw [h.resolved] at hunresolved
        cases hunresolved
      · obtain ⟨hsigned, hloads, hpending, hcalls, hgranted, hleft⟩ := h.answerMe hcall reply
        exact .asksLess h hsigned hloads hpending hcalls hgranted hleft
      · obtain ⟨hsigned, hloads, hprovider, hgranted, hrefused⟩ := h.answerPage htoken more
        exact .answered h hsigned hloads hprovider hgranted hrefused
      · obtain ⟨hfresh, hlive⟩ := fresh_loaded hu h.stored
        exact .loads h hleaving hfresh hlive rfl

/-- How far a document has got: one step for the library, one for each answer. -/
def rank (t : Tab) : ℕ :=
  if t.resolved then
    1 + (2 - t.provider.pending.length) + if t.page.isSome then 3 - t.calls.length else 0
  else 0

theorem Fresh.rank (h : t.Fresh) : t.rank = 0 := by simp [Tab.rank, h.resolved]

theorem Asking.rank (h : Asking u t) : t.rank = 1 + (2 - t.provider.pending.length) := by
  simp [Tab.rank, h.resolved, h.page]

theorem SignedIn.rank (h : SignedIn router u t) :
    t.rank = 1 + (2 - t.provider.pending.length) + (3 - t.calls.length) := by
  simp [Tab.rank, h.resolved, h.page]

theorem rank_le (t : Tab) : t.rank ≤ 6 := by
  unfold Tab.rank
  split_ifs
  · omega
  · omega
  · omega

/-- The tab of a user whom the gateway refuses, after so many steps. -/
structure Trapped (router : Router) (u : OidcUser) (n : ℕ) (t : Tab) : Prop where
  stage : Stage router u t
  steps : n ≤ 7 * t.loads + t.rank
  calls_le : t.calls.length ≤ 3
  goesOn : SignedIn router u t → 0 < t.calls.length ∨ t.leaving = true

theorem Trapped.step {n : ℕ} (hu : u.expired = false)
    (hrefused : refuses (some u.accessToken) = true)
    (h : Trapped router u n t) (hquiet : Quiet refuses t e) (hstep : t.step router e = some t') :
    Trapped router u (n + 1) t' := by
  have hsteps := h.steps
  have hle := h.calls_le
  have hasksNothing : ∀ {t : Tab}, t.page = none → ¬SignedIn router u t := by
    intro t hpage hsigned
    have hsome := hsigned.page
    rw [hpage] at hsome
    cases hsome
  cases h.stage.advance hu hquiet hstep with
  | asks hfresh hasking hloads =>
      have hrank := hfresh.rank
      have hrank' := hasking.rank
      refine ⟨.asking hasking, ?_, by simp [hasking.calls],
        fun hs => absurd hs (hasksNothing hasking.page)⟩
      omega
  | arrives hasking hsigned hloads hpending hcalls _ =>
      have hrank := hasking.rank
      have hrank' := hsigned.rank
      have hpending_le := hasking.pending_le
      refine ⟨.signedIn hsigned, ?_, hcalls.2, fun _ => .inl hcalls.1⟩
      omega
  | asksLess hold hsigned hloads hpending hcalls _ hleft =>
      have hrank := hold.rank
      have hrank' := hsigned.rank
      have hpending_le := hold.pending_le
      have hsame : t'.calls.length = t.calls.length := by rw [hcalls]
      refine ⟨.signedIn hsigned, ?_, by omega, fun _ => ?_⟩
      · omega
      · rw [hsame]
        exact (h.goesOn hold).imp_right hleft
  | answered hold hsigned hloads hprovider _ hleaves =>
      obtain ⟨hleaving, hcalls⟩ := hleaves hrefused
      have hrank := hold.rank
      have hrank' := hsigned.rank
      rw [hprovider] at hrank'
      refine ⟨.signedIn hsigned, ?_, by omega, fun _ => .inr hleaving⟩
      omega
  | loads hold hleaving hfresh hlive hloads =>
      have hrank := t.rank_le
      have hrank' := hfresh.rank
      refine ⟨.opening hfresh hlive, ?_, by simp [hfresh.calls],
        fun hs => absurd hs (hasksNothing hfresh.page)⟩
      omega

/-- When nothing is left to happen the page of some buckets is shown. -/
theorem Stage.signedIn_of_atRest (h : Stage router u t) (hrest : t.AtRest) :
    SignedIn router u t := by
  cases h with
  | opening hfresh _ =>
      have hresolved := hfresh.resolved
      rw [hrest.resolved] at hresolved
      cases hresolved
  | asking hasking => exact absurd hrest.pending hasking.pending
  | signedIn h => exact h

/-- There is always something that is still to happen. -/
theorem Trapped.not_atRest {n : ℕ} (h : Trapped router u n t) : ¬t.AtRest := by
  intro hrest
  rcases h.goesOn (h.stage.signedIn_of_atRest hrest) with hcalls | hleaving
  · rw [hrest.calls] at hcalls
    exact absurd hcalls (Nat.lt_irrefl 0)
  · rw [hrest.leaving] at hleaving
    cases hleaving

/-- The tab of a user whom the gateway knows. -/
structure Welcome (router : Router) (u : OidcUser) (t : Tab) : Prop where
  stage : Stage router u t
  loads : t.loads = 0
  leaving : t.leaving = false

theorem Welcome.step (hu : u.expired = false) (hgranted : refuses (some u.accessToken) = false)
    (h : Welcome router u t) (hquiet : Quiet refuses t e) (hstep : t.step router e = some t') :
    Welcome router u t' := by
  cases h.stage.advance hu hquiet hstep with
  | asks _ hasking hloads => exact ⟨.asking hasking, hloads.trans h.loads, hasking.leaving⟩
  | arrives _ hsigned hloads _ _ hkept =>
      exact ⟨.signedIn hsigned, hloads.trans h.loads, (hkept hgranted).trans h.leaving⟩
  | asksLess _ hsigned hloads _ _ hkept _ =>
      exact ⟨.signedIn hsigned, hloads.trans h.loads, (hkept hgranted).trans h.leaving⟩
  | answered _ hsigned hloads _ hkept _ =>
      exact ⟨.signedIn hsigned, hloads.trans h.loads, (hkept hgranted).trans h.leaving⟩
  | loads _ hleaving _ _ _ =>
      rw [h.leaving] at hleaving
      cases hleaving

/-- The tab of nobody: not yet answered, or at the sign-in page for good. -/
def Nobody (router : Router) (t : Tab) : Prop :=
  (t.Fresh ∧ live t.presented = none ∨ SignedOut router t) ∧ t.loads = 0

/-- Without a call, a page or a refusal nothing happens at the sign-in page. -/
theorem SignedOut.step (h : SignedOut router t) (hquiet : Quiet refuses t e) :
    t.step router e ≠ some t' := by
  intro hstep
  rcases quiet_cases hquiet hstep with ⟨hunresolved, -⟩ | ⟨i, reply, call, hcall, -⟩ |
    ⟨i, more, token, htoken, -⟩ | ⟨hleaving, -⟩
  · rw [h.resolved] at hunresolved
    cases hunresolved
  · rw [h.pending] at hcall
    cases hcall
  · rw [h.calls] at htoken
    cases htoken
  · rw [h.leaving] at hleaving
    cases hleaving

theorem Nobody.step (h : Nobody router t) (hquiet : Quiet refuses t e)
    (hstep : t.step router e = some t') : Nobody router t' := by
  rcases h.1 with ⟨hfresh, hlive⟩ | hout
  · rcases quiet_cases hquiet hstep with ⟨-, rfl⟩ | ⟨i, reply, call, hcall, -⟩ |
      ⟨i, more, token, htoken, -⟩ | ⟨hleaving, -⟩
    · obtain ⟨hout, hloads⟩ := hfresh.resolve_signedOut hlive
      exact ⟨.inr hout, hloads.trans h.2⟩
    · rw [hfresh.provider] at hcall
      cases hcall
    · rw [hfresh.calls] at htoken
      cases htoken
    · rw [hfresh.leaving] at hleaving
      cases hleaving
  · exact absurd hstep (hout.step hquiet)

end Tab

/-- The library first answers with a valid user, whom the gateway refuses. -/
def TurnedAway (refuses : Option Str → Bool) (t : Tab) : Prop :=
  ∃ u, live t.presented = some u ∧ refuses (some u.accessToken) = true

section
variable {router : Router} {refuses : Option Str → Bool} {path : Str}
  {stored redirect : Option OidcUser} {h : List (Tab × TabEvent)} {t : Tab} {u : OidcUser}

theorem opening_lawful
    (hrun : Runs (Tab.step router) unguarded (Tab.opened router path stored redirect) h t) :
    t.Lawful router h :=
  hrun.invariant (Tab.lawful_opened router path stored redirect)
    fun _ _ _ _ hlawful _ hstep => hlawful.step hstep

theorem opening_nobody
    (hrun : Runs (Tab.step router) (Quiet refuses) (Tab.opened router path stored redirect) h t)
    (hlive : live (Tab.opened router path stored redirect).presented = none) :
    Tab.Nobody router t := by
  have hstart : Tab.Nobody router (Tab.opened router path stored redirect) := by
    refine ⟨.inl ⟨Tab.fresh_opened router path stored redirect, hlive⟩, ?_⟩
    rw [Tab.opened_eq]
  apply hrun.invariant
  · exact hstart
  · exact fun _ _ _ _ hnobody hquiet hstep => hnobody.step hquiet hstep

theorem expired_of_live {user : Option OidcUser} (h : live user = some u) : u.expired = false := by
  have hkept := (Option.filter_eq_some_iff.mp h).2
  simpa using hkept

theorem opening_trapped
    (hrun : Runs (Tab.step router) (Quiet refuses) (Tab.opened router path stored redirect) h t)
    (hlive : live (Tab.opened router path stored redirect).presented = some u)
    (hrefused : refuses (some u.accessToken) = true) : Tab.Trapped router u h.length t := by
  have hfresh := Tab.fresh_opened router path stored redirect
  have hstart : Tab.Trapped router u 0 (Tab.opened router path stored redirect) := by
    refine ⟨.opening hfresh hlive, Nat.zero_le _, by simp [hfresh.calls], ?_⟩
    intro hsigned
    have hsome := hsigned.page
    rw [hfresh.page] at hsome
    cases hsome
  apply hrun.invariant
  · exact hstart
  · intro h t e t' htrapped hquiet hstep
    rw [List.length_append]
    exact htrapped.step (expired_of_live hlive) hrefused hquiet hstep

theorem opening_welcome
    (hrun : Runs (Tab.step router) (Quiet refuses) (Tab.opened router path stored redirect) h t)
    (hlive : live (Tab.opened router path stored redirect).presented = some u)
    (hgranted : refuses (some u.accessToken) = false) : Tab.Welcome router u t := by
  have hfresh := Tab.fresh_opened router path stored redirect
  have hstart : Tab.Welcome router u (Tab.opened router path stored redirect) := by
    refine ⟨.opening hfresh hlive, ?_, hfresh.leaving⟩
    rw [Tab.opened_eq]
  apply hrun.invariant
  · exact hstart
  · exact fun _ _ _ _ hwelcome hquiet hstep =>
      hwelcome.step (expired_of_live hlive) hgranted hquiet hstep

end

/-- Whatever path a tab is opened at. Whatever the library reports, the gateway answers and in
whatever order, a page of buckets is shown exactly as long as the last that was said is that
somebody is there; else the sign-in page is, or nothing while an answer is still owed; and no
more often than a request was refused is the tab loaded anew. When the library then says nothing
more and the gateway does not change its mind: with a valid user whom the gateway refuses the tab
never comes to rest, and of seven steps one loads it anew; else it is never loaded again, and
comes to rest at buckets if the library has a valid user and at the sign-in page if not. -/
theorem opening_ends (router : Router) (path : Str) (stored redirect : Option OidcUser) :
    let s := Tab.opened router path stored redirect
    (∀ h t, Runs (Tab.step router) unguarded s h t →
      (t.AtBuckets router ↔ SomebodyThere h) ∧
      (¬SomebodyThere h → t.AtSignIn router ∨ t.Loading ∧ ¬t.AtRest) ∧
      t.loads ≤ refusals h) ∧
    ∀ refuses h t, Runs (Tab.step router) (Quiet refuses) s h t →
      (TurnedAway refuses s → ¬t.AtRest ∧ h.length ≤ 7 * t.loads + 6) ∧
      (¬TurnedAway refuses s → t.loads = 0 ∧ (t.AtRest →
        if (live s.presented).isSome then t.AtBuckets router else t.AtSignIn router)) := by
  constructor
  · intro h t hrun
    have hlawful := opening_lawful hrun
    exact ⟨hlawful.atBuckets_iff, hlawful.elsewhere, hlawful.loads_le⟩
  · intro refuses h t hrun
    constructor
    · rintro ⟨u, hlive, hrefused⟩
      have htrapped := opening_trapped hrun hlive hrefused
      have hrank := t.rank_le
      have hsteps := htrapped.steps
      exact ⟨htrapped.not_atRest, by omega⟩
    · intro hwelcome
      cases hlive : live (Tab.opened router path stored redirect).presented with
      | none =>
          obtain ⟨hstage, hloads⟩ := opening_nobody hrun hlive
          refine ⟨hloads, fun hrest => ?_⟩
          rcases hstage with ⟨hfresh, -⟩ | hout
          · have hresolved := hfresh.resolved
            rw [hrest.resolved] at hresolved
            cases hresolved
          · exact ⟨hout.user, hout.loading, hout.here, hout.page⟩
      | some u =>
          have hgranted : refuses (some u.accessToken) = false := by
            by_contra hrefused
            exact hwelcome ⟨u, hlive, by simpa using hrefused⟩
          have hknown := opening_welcome hrun hlive hgranted
          refine ⟨hknown.loads, fun hrest => ?_⟩
          have hsigned := hknown.stage.signedIn_of_atRest hrest
          exact ⟨hsigned.user, hsigned.loading, hsigned.here, hsigned.page⟩

/-- A router that knows the paths as they are written. -/
def plainRouter : Router where
  route path :=
    if path = str "/login" then .login
    else if path = str "/callback" then .callback
    else if path = str "/buckets" then .buckets
    else .unknown
  route_login := by decide
  route_callback := by decide
  route_buckets := by decide

open Provider (alice) in
/-- Alice arrives at her buckets, is sent away when her token is not renewed, or reloads once and
again. -/
theorem opening_ends_alice :
    let s := Tab.opened plainRouter (str "/login") (some alice) none
    (∃ h t, Runs (Tab.step plainRouter) unguarded s h t ∧ t.loads = 0 ∧ ¬SomebodyThere h ∧
      ¬t.AtBuckets plainRouter ∧ t.AtSignIn plainRouter) ∧
    (∃ h t, Runs (Tab.step plainRouter) (Quiet fun _ => true) s h t ∧ h.length = 5 ∧
      t.loads = 1 ∧ ¬t.AtRest) ∧
    ∃ h t, Runs (Tab.step plainRouter) (Quiet fun _ => false) s h t ∧ t.loads = 0 ∧
      t.AtBuckets plainRouter := by
  intro s
  have hlive : live s.presented = some alice := rfl
  obtain ⟨hany, hquiet⟩ := opening_ends plainRouter (str "/login") (some alice) none
  refine ⟨?_, ?_, ?_⟩
  · have h₁ : Runs (Tab.step plainRouter) unguarded s _ _ :=
      .snoc (a := TabEvent.resolve) .nil trivial rfl
    have h₂ := h₁.snoc (a := TabEvent.me 0 false none) trivial rfl
    have h₃ := h₂.snoc (a := TabEvent.silentRenewError) trivial rfl
    obtain ⟨hbuckets, -, -⟩ := hany _ _ h₃
    have hgone : ∀ past t, ¬SomebodyThere (past ++ [(t, TabEvent.silentRenewError)]) := by
      intro past t
      rw [Tab.somebodyThere_snoc]
      exact Bool.false_ne_true
    exact ⟨_, _, h₃, rfl, hgone _ _, hbuckets.not.mpr (hgone _ _), rfl, rfl, by decide, rfl⟩
  · have h₁ : Runs (Tab.step plainRouter) (Quiet fun _ => true) s _ _ :=
      .snoc (a := TabEvent.resolve) .nil trivial rfl
    have h₂ := h₁.snoc (a := TabEvent.me 0 true none) (fun _ _ => rfl) rfl
    have h₃ := h₂.snoc (a := TabEvent.reply 0 0 true) (fun _ _ => rfl) rfl
    have h₄ := h₃.snoc (a := TabEvent.load) trivial rfl
    have h₅ := h₄.snoc (a := TabEvent.resolve) trivial rfl
    exact ⟨_, _, h₅, rfl, rfl, ((hquiet _ _ _ h₅).1 ⟨alice, hlive, rfl⟩).1⟩
  · have h₁ : Runs (Tab.step plainRouter) (Quiet fun _ => false) s _ _ :=
      .snoc (a := TabEvent.resolve) .nil trivial rfl
    have h₂ := h₁.snoc (a := TabEvent.me 0 false none) (fun _ _ => rfl) rfl
    have h₃ := h₂.snoc (a := TabEvent.reply 0 0 false) (fun _ _ => rfl) rfl
    have h₄ := h₃.snoc (a := TabEvent.reply 0 0 false) (fun _ _ => rfl) rfl
    obtain ⟨hloads, hshown⟩ := (hquiet _ _ _ h₄).2 fun ⟨_, _, hrefused⟩ =>
      Bool.false_ne_true hrefused
    rw [hlive] at hshown
    exact ⟨_, _, h₄, hloads, hshown ⟨rfl, rfl, rfl, rfl⟩⟩

end PierGateway.Spa
