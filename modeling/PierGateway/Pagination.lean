import PierGateway.ObjectList

/-!
# Pages of a listing

Loading more appends to the rows the request was sent with and overwrites the store when
the response comes, so calls that overlap, refreshes and failures all race on the same
four fields. For a place whose pages do not change, a request remembers a whole number of
pages and the token behind them, and so does whatever it leaves in the store.
-/
namespace PierGateway.Spa
open GoStrings EventRuns

/-- What the server answers for a place, without a token and with one. -/
abbrev Server (ο π : Type) := Place → Option Str → ListObjectsResponse ο π

section
variable {ο π : Type}

/-- The token of the page behind this one, if there is one: the store takes an empty one for
none. -/
def ListObjectsResponse.next (data : ListObjectsResponse ο π) : Option Str :=
  data.nextPageToken.filter (· ≠ [])

/-- The pages of a place, from `0`: each one is asked for with the token of the one before it. -/
def Server.page (server : Server ο π) (place : Place) : ℕ → Option (ListObjectsResponse ο π)
  | 0 => some (server place none)
  | k + 1 =>
      ((server.page place k).bind (·.next)).map fun token => server place (some token)

/-- The first pages of a place. -/
def Server.firstPages (server : Server ο π) (place : Place) (k : ℕ) :
    List (ListObjectsResponse ο π) :=
  (List.range k).filterMap (server.page place)

def Server.objects (server : Server ο π) (place : Place) (k : ℕ) : List ο :=
  (server.firstPages place k).flatMap (·.objects.getD [])

def Server.prefixes (server : Server ο π) (place : Place) (k : ℕ) : List π :=
  (server.firstPages place k).flatMap (·.prefixes.getD [])

/-- The token a request is sent with. -/
def Listing.pageToken : Listing ο π → Option Str
  | .fetchObjects _ _ => none
  | .loadMore _ _ token _ _ => some token

/-- The browser of one place, with the requests in flight. -/
structure Browser (ο π : Type) where
  store : BrowserState ο π := {}
  inFlight : List (Listing ο π) := []

inductive BrowserEvent where
  | fetchObjects
  | loadMore
  | deliver (i : ℕ)
  | fail (i : ℕ) (err : Failure)

namespace Browser

def step (server : Server ο π) (place : Place) (b : Browser ο π) :
    BrowserEvent → Option (Browser ο π)
  | .fetchObjects =>
      some {
        store := (fetchObjects place.bucket place.prefixPath).1
        inFlight := b.inFlight ++ [(fetchObjects place.bucket place.prefixPath).2] }
  | .loadMore =>
      some {
        store := b.store.loadMore.1
        inFlight := b.inFlight ++ b.store.loadMore.2.toList }
  | .deliver i =>
      b.inFlight[i]?.map fun request =>
        { store := b.store.settle request (.ok (server request.place request.pageToken))
          inFlight := b.inFlight.eraseIdx i }
  | .fail i err =>
      b.inFlight[i]?.map fun request =>
        { store := b.store.settle request (.error err)
          inFlight := b.inFlight.eraseIdx i }

end Browser

/-! ### Whole pages -/

/-- The four fields of a listing are empty. -/
structure BrowserState.Cleared (s : BrowserState ο π) : Prop where
  objects : s.objects = []
  prefixes : s.prefixes = []
  nextPageToken : s.nextPageToken = none
  truncated : s.truncated = false

/-- The four fields are those of the pages up to this one: their rows in order, and the token and
the flag of the last. -/
structure BrowserState.UpTo (s : BrowserState ο π) (server : Server ο π) (place : Place) (k : ℕ)
    (last : ListObjectsResponse ο π) : Prop where
  page : server.page place k = some last
  objects : s.objects = server.objects place (k + 1)
  prefixes : s.prefixes = server.prefixes place (k + 1)
  nextPageToken : s.nextPageToken = last.nextPageToken
  truncated : s.truncated = last.truncated.getD false

/-- The list is cleared or shows whole pages from the first on. -/
def BrowserState.Paged (s : BrowserState ο π) (server : Server ο π) (place : Place) : Prop :=
  s.Cleared ∨ ∃ k last, s.UpTo server place k last

/-- A request asks for the page behind the pages it keeps. -/
def Listing.Behind (request : Listing ο π) (server : Server ο π) (place : Place) (k : ℕ) : Prop :=
  server.page place k = some (server place request.pageToken) ∧
    request.kept = (server.objects place k, server.prefixes place k)

variable {server : Server ο π} {place : Place}

theorem Server.page_succ {k : ℕ} {last : ListObjectsResponse ο π} {token : Str}
    (hpage : server.page place k = some last)
    (hnext : last.next = some token) :
    server.page place (k + 1) = some (server place (some token)) := by
  rw [Server.page, hpage, Option.bind_some, hnext, Option.map_some]

theorem Server.firstPages_succ {k : ℕ} {data : ListObjectsResponse ο π}
    (hpage : server.page place k = some data) :
    server.firstPages place (k + 1) = server.firstPages place k ++ [data] := by
  have hlast : [k].filterMap (server.page place) = [data] := by simp [hpage]
  rw [Server.firstPages, List.range_succ, List.filterMap_append, hlast]
  rfl

theorem Server.objects_succ {k : ℕ} {data : ListObjectsResponse ο π}
    (hpage : server.page place k = some data) :
    server.objects place (k + 1) = server.objects place k ++ data.objects.getD [] := by
  rw [Server.objects, Server.firstPages_succ hpage, List.flatMap_append]
  simp [Server.objects]

theorem Server.prefixes_succ {k : ℕ} {data : ListObjectsResponse ο π}
    (hpage : server.page place k = some data) :
    server.prefixes place (k + 1) = server.prefixes place k ++ data.prefixes.getD [] := by
  rw [Server.prefixes, Server.firstPages_succ hpage, List.flatMap_append]
  simp [Server.prefixes]

theorem behind_fetchObjects (server : Server ο π) (place : Place) :
    (Listing.fetchObjects place.bucket place.prefixPath : Listing ο π).Behind server place 0 :=
  ⟨rfl, rfl⟩

theorem BrowserState.loadMore_cases (s : BrowserState ο π) :
    s.loadMore = (s, none) ∨ ∃ c token, s.nextPageToken = some (c :: token) ∧
      s.loadMore = ({ s with loading := true },
        some (.loadMore s.bucket s.prefixPath (c :: token) s.objects s.prefixes)) := by
  unfold BrowserState.loadMore
  split
  next c token htoken => exact .inr ⟨c, token, htoken, rfl⟩
  · exact .inl rfl

/-- What is sent behind whole pages asks for the page behind them. -/
theorem BrowserState.UpTo.behind {s : BrowserState ο π} {k : ℕ} {last : ListObjectsResponse ο π}
    (h : s.UpTo server place k last) {c : UInt8} {token : Str}
    (htoken : s.nextPageToken = some (c :: token)) :
    (Listing.loadMore s.bucket s.prefixPath (c :: token) s.objects s.prefixes).Behind server place
      (k + 1) := by
  have hnext : last.next = some (c :: token) := by
    rw [ListObjectsResponse.next, ← h.nextPageToken, htoken]
    simp
  exact ⟨Server.page_succ h.page hnext, Prod.ext h.objects h.prefixes⟩

/-- An answer leaves the pages its request kept and its own. -/
theorem Listing.Behind.settle {request : Listing ο π} {k : ℕ}
    (h : request.Behind server place k) (s : BrowserState ο π) :
    (s.settle request (.ok (server place request.pageToken))).UpTo server place k
      (server place request.pageToken) where
  page := h.1
  objects := by
    rw [Server.objects_succ h.1]
    simp [BrowserState.settle, h.2]
  prefixes := by
    rw [Server.prefixes_succ h.1]
    simp [BrowserState.settle, h.2]
  nextPageToken := rfl
  truncated := rfl

theorem BrowserState.Paged.congr {s t : BrowserState ο π}
    (h : s.Paged server place) (hobjects : t.objects = s.objects)
    (hprefixes : t.prefixes = s.prefixes)
    (htoken : t.nextPageToken = s.nextPageToken) (htruncated : t.truncated = s.truncated) :
    t.Paged server place := by
  rcases h with h | ⟨k, last, h⟩
  · left
    exact {
      objects := hobjects.trans h.objects
      prefixes := hprefixes.trans h.prefixes
      nextPageToken := htoken.trans h.nextPageToken
      truncated := htruncated.trans h.truncated }
  · right
    exact ⟨k, last, {
      page := h.page
      objects := hobjects.trans h.objects
      prefixes := hprefixes.trans h.prefixes
      nextPageToken := htoken.trans h.nextPageToken
      truncated := htruncated.trans h.truncated }⟩

namespace Browser

/-- The invariant: the list shows whole pages, and every request asks for the page behind those it
keeps. Until the place is first listed there is nothing to ask with. -/
structure Whole (server : Server ο π) (place : Place) (b : Browser ο π) : Prop where
  store : b.store.Paged server place
  listed : b.store.Cleared ∧ b.inFlight = [] ∨
    (⟨b.store.bucket, b.store.prefixPath⟩ : Place) = place
  inFlight : ∀ request ∈ b.inFlight, request.place = place ∧ ∃ k, request.Behind server place k

theorem cleared_initial : ({} : BrowserState ο π).Cleared := ⟨rfl, rfl, rfl, rfl⟩

theorem whole_initial (server : Server ο π) (place : Place) : Whole server place {} where
  store := .inl cleared_initial
  listed := .inl ⟨cleared_initial, rfl⟩
  inFlight _ h := absurd h List.not_mem_nil

theorem Whole.fetchObjects {b : Browser ο π} (h : Whole server place b) :
    Whole server place {
      store := (Spa.fetchObjects place.bucket place.prefixPath).1
      inFlight := b.inFlight ++ [(Spa.fetchObjects place.bucket place.prefixPath).2] } where
  store := .inl ⟨rfl, rfl, rfl, rfl⟩
  listed := .inr rfl
  inFlight request hr := by
    rcases List.mem_append.mp hr with hr | hr
    · exact h.inFlight request hr
    · obtain rfl := List.mem_singleton.mp hr
      exact ⟨rfl, 0, behind_fetchObjects server place⟩

theorem Whole.loadMore {b : Browser ο π} (h : Whole server place b) :
    Whole server place {
      store := b.store.loadMore.1
      inFlight := b.inFlight ++ b.store.loadMore.2.toList } := by
  rcases b.store.loadMore_cases with hnone | ⟨c, token, htoken, hsome⟩
  · rw [hnone]
    simpa using h
  · rw [hsome]
    -- a token is left by a page only, so the store is at the place and shows whole pages
    have huncleared : ¬b.store.Cleared := by
      intro hcleared
      rw [hcleared.nextPageToken] at htoken
      cases htoken
    have hplace := h.listed.resolve_left fun hc => huncleared hc.1
    obtain ⟨k, last, hupTo⟩ := h.store.resolve_left huncleared
    refine ⟨h.store.congr rfl rfl rfl rfl, .inr hplace, fun request hr => ?_⟩
    rcases List.mem_append.mp hr with hr | hr
    · exact h.inFlight request hr
    · obtain rfl := List.mem_singleton.mp hr
      exact ⟨hplace, k + 1, hupTo.behind htoken⟩

/-- An answer leaves whole pages, whichever request it belongs to; a failure leaves the list. -/
theorem Whole.settle {b : Browser ο π}
    (h : Whole server place b) {i : ℕ} {request : Listing ο π}
    (hrequest : b.inFlight[i]? = some request)
    {reply : Except Failure (ListObjectsResponse ο π)}
    (hreply : ∀ data, reply = .ok data → data = server request.place request.pageToken) :
    Whole server place {
      store := b.store.settle request reply
      inFlight := b.inFlight.eraseIdx i } := by
  have hmem := List.mem_of_getElem? hrequest
  obtain ⟨hplace, k, hbehind⟩ := h.inFlight request hmem
  have hstore : (⟨b.store.bucket, b.store.prefixPath⟩ : Place) = place :=
    h.listed.resolve_left fun hc => absurd (hc.2 ▸ hmem) List.not_mem_nil
  have hflight : ∀ r ∈ b.inFlight.eraseIdx i, r.place = place ∧ ∃ k, r.Behind server place k :=
    fun r hr => h.inFlight r (List.mem_of_mem_eraseIdx hr)
  cases reply with
  | error err => exact ⟨h.store.congr rfl rfl rfl rfl, .inr hstore, hflight⟩
  | ok data =>
      have hdata : data = server place request.pageToken := by
        rw [hreply data rfl, hplace]
      rw [hdata]
      exact ⟨.inr ⟨k, _, hbehind.settle b.store⟩, .inr hstore, hflight⟩

theorem Whole.step {b c : Browser ο π} {e : BrowserEvent}
    (h : Whole server place b) (hstep : b.step server place e = some c) : Whole server place c := by
  cases e with
  | fetchObjects =>
      rw [← Option.some.inj hstep]
      exact h.fetchObjects
  | loadMore =>
      rw [← Option.some.inj hstep]
      exact h.loadMore
  | deliver i =>
      obtain ⟨request, hrequest, rfl⟩ := Option.map_eq_some_iff.mp hstep
      refine h.settle hrequest fun data hdata => ?_
      exact (Except.ok.inj hdata).symm
  | fail i err =>
      obtain ⟨request, hrequest, rfl⟩ := Option.map_eq_some_iff.mp hstep
      refine h.settle hrequest fun data hdata => ?_
      cases hdata

/-- In every state of every run the list is cleared or shows the first pages of the place, each once
and in order, with the token and the flag of the last of them. -/
theorem always_paged {server : Server ο π} {place : Place} {b : Browser ο π}
    (h : Reaches (step server place) unguarded {} b) : b.store.Paged server place := by
  have hwhole : Whole server place b :=
    h.invariant (whole_initial server place) fun _ _ _ hw _ hstep => hw.step hstep
  exact hwhole.store

/-- A place of two pages. -/
def twoPages : Server ℕ ℕ := fun _ token =>
  if token = none then
    { objects := some [1], prefixes := some [7]
      nextPageToken := some (str "t"), truncated := some true }
  else { objects := some [2], truncated := some false }

/-- The second page is asked for twice before either answer comes, and one of the answers comes
late. -/
theorem always_paged_twoPages :
    ∃ b, Reaches (step twoPages ⟨str "a", []⟩) unguarded {} b ∧ b.store.objects = [1, 2] ∧
      b.store.Paged twoPages ⟨str "a", []⟩ := by
  have hstart : Reaches (step twoPages ⟨str "a", []⟩) unguarded {} {} := .refl
  have hlisted := (hstart.next (a := .fetchObjects) trivial rfl).next (a := .deliver 0) trivial rfl
  have hasked := (hlisted.next (a := .loadMore) trivial rfl).next (a := .loadMore) trivial rfl
  have hanswered := (hasked.next (a := .deliver 1) trivial rfl).next (a := .deliver 0) trivial rfl
  exact ⟨_, hanswered, rfl, always_paged hanswered⟩

end Browser

end

end PierGateway.Spa
