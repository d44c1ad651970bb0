import PierGateway.EventRuns
import PierGateway.SpaClient

/-!
# The object list of the single-page application

The browser page takes the bucket and the folder from the URL and the rows from a
store that requests fill when they are answered, in any order. Neither a response nor
the store says what was asked for, and a finished upload or deletion refreshes the
place it was started in. A row of the model remembers the place its response was
requested for; the code never looks at that. A navigation and the effect it triggers
are one event.
-/
namespace PierGateway.Spa
open GoStrings EventRuns
open WebUI (KeyUse)

/-! ### The store -/

/-- A bucket and a folder of it. -/
structure Place where
  bucket : Str
  prefixPath : Str
deriving DecidableEq

structure ListObjectsResponse (ο π : Type) where
  objects : Option (List ο) := none
  prefixes : Option (List π) := none
  nextPageToken : Option Str := none
  truncated : Option Bool := none

structure BrowserState (ο π : Type) where
  bucket : Str := []
  prefixPath : Str := []
  objects : List ο := []
  prefixes : List π := []
  loading : Bool := false
  error : Option Str := none
  nextPageToken : Option Str := none
  truncated : Bool := false

/-- A request in flight, with what its continuation has captured. -/
inductive Listing (ο π : Type) where
  | fetchObjects (bucket prefixPath : Str)
  | loadMore (bucket prefixPath pageToken : Str) (objects : List ο) (prefixes : List π)

/-- What is caught when a request fails: the message of the response, if there is one. -/
abbrev Failure := Option Str

def errorMessage (err : Failure) (fallback : Str) : Str :=
  match err with
  | some (c :: message) => c :: message
  | _ => fallback

section
variable {ο π : Type}

/-- The listing is cleared before the request is sent. -/
def fetchObjects (bucket prefixPath : Str) : BrowserState ο π × Listing ο π :=
  ({ bucket := bucket, prefixPath := prefixPath, loading := true }, .fetchObjects bucket prefixPath)

def BrowserState.loadMore (s : BrowserState ο π) : BrowserState ο π × Option (Listing ο π) :=
  match s.nextPageToken with
  | some (c :: token) =>
      ({ s with loading := true },
        some (.loadMore s.bucket s.prefixPath (c :: token) s.objects s.prefixes))
  | _ => (s, none)

/-- The rows a request was sent with. -/
def Listing.kept : Listing ο π → List ο × List π
  | .fetchObjects _ _ => ([], [])
  | .loadMore _ _ _ objects prefixes => (objects, prefixes)

def Listing.place : Listing ο π → Place
  | .fetchObjects bucket prefixPath | .loadMore bucket prefixPath _ _ _ => ⟨bucket, prefixPath⟩

def Listing.fallback : Listing ο π → Str
  | .fetchObjects _ _ => str "Failed to load objects"
  | .loadMore _ _ _ _ _ => str "Failed to load more"

/-- The continuation of a request, in the state it finds. -/
def BrowserState.settle (s : BrowserState ο π) (request : Listing ο π)
    (reply : Except Failure (ListObjectsResponse ο π)) : BrowserState ο π :=
  match reply with
  | .ok data =>
      { s with
        objects := request.kept.1 ++ data.objects.getD []
        prefixes := request.kept.2 ++ data.prefixes.getD []
        nextPageToken := data.nextPageToken
        truncated := data.truncated.getD false
        loading := false }
  | .error err => { s with error := some (errorMessage err request.fallback), loading := false }

end

/-! ### The page -/

structure Permissions where
  read : Bool
  write : Bool

structure BucketInfo where
  name : Str
  permissions : Permissions

def bucketInfo (buckets : List BucketInfo) (bucket : Str) : Option BucketInfo :=
  buckets.find? fun b => b.name = bucket

def canWrite (buckets : List BucketInfo) (bucket : Str) : Bool :=
  ((bucketInfo buckets bucket).map (·.permissions.write)).getD false

/-- Reading is assumed until the bucket is known. -/
def canRead (buckets : List BucketInfo) (bucket : Str) : Bool :=
  ((bucketInfo buckets bucket).map (·.permissions.read)).getD true

structure ObjectInfo where
  key : Str

/-- A row with the place whose listing it came in. -/
structure Row (α : Type) where
  origin : Place
  value : α

abbrev Store := BrowserState (Row ObjectInfo) (Row Str)
abbrev StoreListing := Listing (Row ObjectInfo) (Row Str)

def ListObjectsResponse.from {ο π : Type} (place : Place) (data : ListObjectsResponse ο π) :
    ListObjectsResponse (Row ο) (Row π) where
  objects := data.objects.map fun l => l.map (Row.mk place)
  prefixes := data.prefixes.map fun l => l.map (Row.mk place)
  nextPageToken := data.nextPageToken
  truncated := data.truncated

/-- The page, `url` being the place it is mounted for, with the requests in flight and the refreshes
that unfinished uploads and deletions have captured. -/
structure Page where
  store : Store := {}
  buckets : List BucketInfo := []
  url : Option Place := none
  inFlight : List StoreListing := []
  captured : List Place := []

inductive PageEvent where
  | navigate (url : Option Place)
  | bucketsLoaded (buckets : List BucketInfo)
  | refresh
  | loadMore
  | startWrite
  | finishWrite (i : ℕ)
  | failWrite (i : ℕ)
  | deliver (i : ℕ) (reply : Except Failure (ListObjectsResponse ObjectInfo Str))

namespace Page

/-- The place whose rows are rendered. -/
def shown (p : Page) : Option Place :=
  p.url.filter fun place => place.bucket ≠ [] ∧ canRead p.buckets place.bucket

/-- The dependencies of the effect that lists. -/
def deps (p : Page) : Option (Place × Bool) :=
  p.url.map fun place => (place, canRead p.buckets place.bucket)

def fetch (p : Page) (place : Place) : Page :=
  { p with
    store := (fetchObjects place.bucket place.prefixPath).1
    inFlight := p.inFlight ++ [(fetchObjects place.bucket place.prefixPath).2] }

/-- The effect, after a render in which its dependencies may have changed. -/
def runEffect (p : Page) (before : Option (Place × Bool)) : Page :=
  if p.deps = before then p
  else
    match p.shown with
    | some place => p.fetch place
    | none => p

/-- `handleRefresh` of a render for this place. -/
def handleRefresh (p : Page) (place : Place) : Page :=
  if place.bucket = [] then p else p.fetch place

def step (p : Page) : PageEvent → Option Page
  | .navigate url => some (({ p with url := url } : Page).runEffect p.deps)
  | .bucketsLoaded buckets => some (({ p with buckets := buckets } : Page).runEffect p.deps)
  | .refresh => p.url.map p.handleRefresh
  | .loadMore =>
      if p.shown.isSome ∧ p.store.truncated then
        some { p with
          store := p.store.loadMore.1
          inFlight := p.inFlight ++ p.store.loadMore.2.toList }
      else none
  | .startWrite =>
      match p.url with
      | some place =>
          if place.bucket ≠ [] ∧ canWrite p.buckets place.bucket then
            some { p with captured := p.captured ++ [place] }
          else none
      | none => none
  | .finishWrite i =>
      p.captured[i]?.map fun place =>
        ({ p with captured := p.captured.eraseIdx i } : Page).handleRefresh place
  | .failWrite i => p.captured[i]?.map fun _ => { p with captured := p.captured.eraseIdx i }
  | .deliver i reply =>
      p.inFlight[i]?.map fun request =>
        { p with
          store := p.store.settle request (reply.map (·.from request.place))
          inFlight := p.inFlight.eraseIdx i }

/-! ### Rows and their place -/

/-- Every row came in a listing of this place. -/
def RowsFrom (place : Place) (rows : List (Row ObjectInfo) × List (Row Str)) : Prop :=
  (∀ o ∈ rows.1, o.origin = place) ∧ ∀ q ∈ rows.2, q.origin = place

def rows (p : Page) : List (Row ObjectInfo) × List (Row Str) := (p.store.objects, p.store.prefixes)

/-- The rows a response leaves on the list: those the request was sent with and its own. -/
def left (request : StoreListing) (data : ListObjectsResponse ObjectInfo Str) :
    List (Row ObjectInfo) × List (Row Str) :=
  (request.kept.1 ++ (data.from request.place).objects.getD [],
    request.kept.2 ++ (data.from request.place).prefixes.getD [])

/-- An event happens in time: a response with rows while the place it was requested for is shown, or
no place is; loading more behind rows while the store is at the place shown. -/
def InTime (p : Page) : PageEvent → Prop
  | .deliver i reply =>
      ∀ place request data, p.shown = some place → p.inFlight[i]? = some request →
        reply = .ok data → request.place = place ∨ left request data = ([], [])
  | .loadMore =>
      ∀ place, p.shown = some place →
        (⟨p.store.bucket, p.store.prefixPath⟩ : Place) = place ∨ p.rows = ([], [])
  | _ => True

theorem rowsFrom_nil (place : Place) : RowsFrom place ([], []) := by
  constructor
  · intro o ho
    exact absurd ho List.not_mem_nil
  · intro q hq
    exact absurd hq List.not_mem_nil

/-- A response puts rows of the requested place behind those it was sent with. -/
theorem rowsFrom_left {request : StoreListing} (hkept : RowsFrom request.place request.kept)
    (data : ListObjectsResponse ObjectInfo Str) : RowsFrom request.place (left request data) := by
  have hnew : ∀ {α : Type} (l : Option (List α)),
      ∀ r ∈ (l.map fun l => l.map (Row.mk request.place)).getD [], r.origin = request.place := by
    intro α l r hr
    cases l with
    | none => exact absurd hr List.not_mem_nil
    | some l =>
        obtain ⟨v, -, rfl⟩ := List.mem_map.mp hr
        rfl
  constructor
  · intro o ho
    rcases List.mem_append.mp ho with ho | ho
    · exact hkept.1 o ho
    · exact hnew data.objects o ho
  · intro q hq
    rcases List.mem_append.mp hq with hq | hq
    · exact hkept.2 q hq
    · exact hnew data.prefixes q hq

/-- The invariant: the rows on screen are those of the place on screen, and a request is sent with
rows of its own place. -/
structure Consistent (p : Page) : Prop where
  shown : ∀ place, p.shown = some place → RowsFrom place p.rows
  inFlight : ∀ request ∈ p.inFlight, RowsFrom request.place request.kept

theorem consistent_initial : Consistent {} where
  shown _ h := nomatch h
  inFlight _ h := absurd h List.not_mem_nil

theorem Consistent.fetch {p : Page}
    (h : ∀ request ∈ p.inFlight, RowsFrom request.place request.kept)
    (place : Place) : Consistent (p.fetch place) where
  shown place' _ := rowsFrom_nil place'
  inFlight request hr := by
    rcases List.mem_append.mp hr with hr | hr
    · exact h request hr
    · obtain rfl := List.mem_singleton.mp hr
      exact rowsFrom_nil _

theorem shown_congr {p q : Page} (h : p.deps = q.deps) : p.shown = q.shown := by
  unfold shown
  unfold deps at h
  cases hp : p.url with
  | none =>
      rw [hp] at h
      cases hq : q.url with
      | none => rfl
      | some place =>
          rw [hq] at h
          cases h
  | some place =>
      rw [hp] at h
      cases hq : q.url with
      | none =>
          rw [hq] at h
          cases h
      | some place' =>
          rw [hq] at h
          obtain ⟨rfl, hread⟩ := Prod.mk.inj (Option.some.inj h)
          simp [Option.filter, hread]

theorem Consistent.congr {p q : Page} (h : Consistent p) (hstore : q.store = p.store)
    (hflight : q.inFlight = p.inFlight) (hdeps : q.deps = p.deps) : Consistent q where
  shown place hplace := by
    have hrows : q.rows = p.rows := by
      unfold rows
      rw [hstore]
    rw [hrows]
    exact h.shown place (shown_congr hdeps ▸ hplace)
  inFlight := by
    rw [hflight]
    exact h.inFlight

/-- A render with the same rows is followed by the effect, which lists when the place shown is
new. -/
theorem Consistent.runEffect {p q : Page} (h : Consistent p) (hstore : q.store = p.store)
    (hflight : q.inFlight = p.inFlight) : Consistent (q.runEffect p.deps) := by
  have hq : ∀ request ∈ q.inFlight, RowsFrom request.place request.kept := by
    rw [hflight]
    exact h.inFlight
  unfold Page.runEffect
  split_ifs with hdeps
  · exact h.congr hstore hflight hdeps
  · cases hshown : q.shown with
    | some place => exact Consistent.fetch hq place
    | none =>
        exact ⟨fun place hplace => (Option.some_ne_none place (hplace.symm.trans hshown)).elim, hq⟩

theorem Consistent.handleRefresh {p : Page} (h : Consistent p) (place : Place) :
    Consistent (p.handleRefresh place) := by
  unfold Page.handleRefresh
  split_ifs
  · exact h
  · exact Consistent.fetch h.inFlight place

theorem Consistent.loadMore {p : Page} (h : Consistent p) (htime : InTime p .loadMore)
    (hshown : p.shown.isSome) :
    Consistent { p with
      store := p.store.loadMore.1
      inFlight := p.inFlight ++ p.store.loadMore.2.toList } := by
  obtain ⟨place, hplace⟩ := Option.isSome_iff_exists.mp hshown
  unfold BrowserState.loadMore
  split
  next c token _ =>
    refine ⟨h.shown, fun request hr => ?_⟩
    rcases List.mem_append.mp hr with hr | hr
    · exact h.inFlight request hr
    · obtain rfl : request = .loadMore p.store.bucket p.store.prefixPath (c :: token)
          p.store.objects p.store.prefixes := by
        simpa using hr
      rcases htime place hplace with hstore | hempty
      · have hrows := h.shown place hplace
        rw [← hstore] at hrows
        exact hrows
      · have hkept : RowsFrom ⟨p.store.bucket, p.store.prefixPath⟩ p.rows := by
          rw [hempty]
          exact rowsFrom_nil _
        exact hkept
  · simpa using h

theorem Consistent.deliver {p : Page} (h : Consistent p) {i : ℕ}
    {reply : Except Failure (ListObjectsResponse ObjectInfo Str)} {request : StoreListing}
    (hrequest : p.inFlight[i]? = some request) (htime : InTime p (.deliver i reply)) :
    Consistent { p with
      store := p.store.settle request (reply.map (·.from request.place))
      inFlight := p.inFlight.eraseIdx i } := by
  have hflight : ∀ r ∈ p.inFlight.eraseIdx i, RowsFrom r.place r.kept := fun r hr =>
    h.inFlight r (List.mem_of_mem_eraseIdx hr)
  refine ⟨fun place hplace => ?_, hflight⟩
  cases reply with
  | error err => exact h.shown place hplace
  | ok data =>
      have hkept := h.inFlight request (List.mem_of_getElem? hrequest)
      have hleft := rowsFrom_left hkept data
      rcases htime place request data hplace hrequest rfl with rfl | hempty
      · exact hleft
      · have hnone : RowsFrom place (left request data) := by
          rw [hempty]
          exact rowsFrom_nil place
        exact hnone

theorem Consistent.step {p q : Page} {e : PageEvent} (h : Consistent p) (htime : InTime p e)
    (hstep : p.step e = some q) : Consistent q := by
  cases e with
  | navigate url =>
      rw [← Option.some.inj hstep]
      exact h.runEffect rfl rfl
  | bucketsLoaded buckets =>
      rw [← Option.some.inj hstep]
      exact h.runEffect rfl rfl
  | refresh =>
      obtain ⟨place, -, rfl⟩ := Option.map_eq_some_iff.mp hstep
      exact h.handleRefresh place
  | loadMore =>
      unfold Page.step at hstep
      split_ifs at hstep with henabled
      rw [← Option.some.inj hstep]
      exact h.loadMore htime henabled.1
  | startWrite =>
      dsimp only [Page.step] at hstep
      cases hurl : p.url with
      | none =>
          rw [hurl] at hstep
          cases hstep
      | some place =>
          rw [hurl] at hstep
          dsimp only at hstep
          split_ifs at hstep
          rw [← Option.some.inj hstep]
          refine h.congr rfl rfl ?_
          rw [deps, deps, hurl]
  | finishWrite i =>
      obtain ⟨place, -, rfl⟩ := Option.map_eq_some_iff.mp hstep
      have hcons : Consistent { p with captured := p.captured.eraseIdx i } := h.congr rfl rfl rfl
      exact hcons.handleRefresh place
  | failWrite i =>
      obtain ⟨place, -, rfl⟩ := Option.map_eq_some_iff.mp hstep
      exact h.congr rfl rfl rfl
  | deliver i reply =>
      obtain ⟨request, hrequest, rfl⟩ := Option.map_eq_some_iff.mp hstep
      exact h.deliver hrequest htime

/-- The path an action on a row goes to: the bucket of the URL and the key of the row. -/
def actionPath (use : KeyUse) (place : Place) (o : Row ObjectInfo) : Str :=
  use.path place.bucket o.value.key

/-- The page shows rows of the place in its URL, and what is done to a row is done to the object it
stands for. -/
structure OnPlace (p : Page) : Prop where
  rows : ∀ place, p.shown = some place → RowsFrom place p.rows
  actions : ∀ place, p.shown = some place → ∀ o ∈ p.store.objects, ∀ use : KeyUse,
    actionPath use place o = use.path o.origin.bucket o.value.key

/-- In a run whose events all happen in time, every page shows rows of its own place. -/
theorem onPlace_of_inTime {p : Page} (h : Reaches step InTime {} p) : OnPlace p := by
  have hcons : Consistent p :=
    h.invariant consistent_initial fun _ _ _ hc htime hstep => hc.step htime hstep
  refine ⟨hcons.shown, ?_⟩
  intro place hplace o ho use
  rw [actionPath, (hcons.shown place hplace).1 o ho]

/-- A response with rows that comes late puts rows of another place on screen at once. -/
theorem late_breaks {p q : Page} (h : Consistent p) {i : ℕ} {request : StoreListing}
    {data : ListObjectsResponse ObjectInfo Str} {place : Place} (hplace : p.shown = some place)
    (hrequest : p.inFlight[i]? = some request) (hlate : request.place ≠ place)
    (hrows : left request data ≠ ([], [])) (hstep : p.step (.deliver i (.ok data)) = some q) :
    ¬OnPlace q := by
  intro hq
  obtain ⟨request', hrequest', rfl⟩ := Option.map_eq_some_iff.mp hstep
  obtain rfl : request' = request := Option.some.inj (hrequest'.symm.trans hrequest)
  have horigin := rowsFrom_left (h.inFlight request' (List.mem_of_getElem? hrequest)) data
  have hshown : RowsFrom place (left request' data) := hq.rows place hplace
  apply hrows
  refine Prod.ext ?_ ?_
  · refine List.eq_nil_iff_forall_not_mem.mpr fun o ho => ?_
    exact hlate ((horigin.1 o ho).symm.trans (hshown.1 o ho))
  · refine List.eq_nil_iff_forall_not_mem.mpr fun o ho => ?_
    exact hlate ((horigin.2 o ho).symm.trans (hshown.2 o ho))

/-- A page that has just come to a place with a bucket nothing is known of. -/
def arrived (place : Place) (inFlight : List StoreListing) : Page :=
  ({ url := some place, inFlight := inFlight } : Page).fetch place

theorem step_navigate {p : Page} {place : Place} (hbuckets : p.buckets = [])
    (hcaptured : p.captured = []) (hbucket : place.bucket ≠ []) (hurl : p.url ≠ some place) :
    p.step (.navigate (some place)) = some (arrived place p.inFlight) := by
  have hread : canRead p.buckets place.bucket = true := by
    rw [hbuckets]
    rfl
  have hshown : ({ p with url := some place } : Page).shown = some place := by
    simp [shown, Option.filter, hbucket, hread]
  have hdeps : ({ p with url := some place } : Page).deps ≠ p.deps := by
    intro h
    unfold deps at h
    cases hp : p.url with
    | none =>
        rw [hp] at h
        cases h
    | some place' =>
        rw [hp] at h
        exact hurl (hp.trans (congrArg some (Prod.mk.inj (Option.some.inj h)).1.symm))
  dsimp only [step, runEffect]
  rw [if_neg hdeps, hshown]
  simp [arrived, fetch, hbuckets, hcaptured]

/-- One object, as the listing of any place. -/
def oneObject : Except Failure (ListObjectsResponse ObjectInfo Str) :=
  .ok { objects := some [⟨str "x"⟩] }

def placeA : Place := ⟨str "a", []⟩
def placeB : Place := ⟨str "b", []⟩

theorem shown_arrived {place : Place} (hbucket : place.bucket ≠ []) (inFlight : List StoreListing) :
    (arrived place inFlight).shown = some place := by
  have hread : canRead [] place.bucket = true := rfl
  simp [arrived, fetch, shown, Option.filter, hbucket, hread]

/-- A listing arrives while its place is shown. -/
theorem onPlace_of_inTime_placeA :
    ∃ p, Reaches step InTime {} p ∧ p.store.objects = [⟨placeA, ⟨str "x"⟩⟩] ∧ OnPlace p := by
  have hbucket : placeA.bucket ≠ [] := by simp [placeA]
  have harrive : Reaches step InTime {} (arrived placeA []) :=
    .next (a := .navigate (some placeA)) .refl trivial (step_navigate rfl rfl hbucket (by simp))
  have htime : InTime (arrived placeA []) (.deliver 0 oneObject) := by
    intro place request data hplace hrequest _
    rw [shown_arrived hbucket] at hplace
    obtain rfl := Option.some.inj hrequest
    exact .inl (Option.some.inj hplace)
  have hdeliver := Reaches.next harrive htime rfl
  exact ⟨_, hdeliver, rfl, onPlace_of_inTime hdeliver⟩

/-- A listing of the first place arrives after the page has gone to the second. -/
theorem not_always_onPlace : ¬∀ p, Reaches step unguarded {} p → OnPlace p := by
  intro hall
  have hA : placeA.bucket ≠ [] := by simp [placeA]
  have hB : placeB.bucket ≠ [] := by simp [placeB]
  have hfirst : Reaches step unguarded {} (arrived placeA []) :=
    .next (a := .navigate (some placeA)) .refl trivial (step_navigate rfl rfl hA (by simp))
  have hmoved : (arrived placeA []).url ≠ some placeB := by
    simp [arrived, fetch, placeA, placeB]
  have hsecond : Reaches step unguarded {} (arrived placeB (arrived placeA []).inFlight) :=
    .next (a := .navigate (some placeB)) hfirst trivial (step_navigate rfl rfl hB hmoved)
  have hlate := Reaches.next (a := .deliver 0 oneObject) hsecond trivial rfl
  have hrows := (hall _ hlate).rows placeB (shown_arrived hB [])
  have horigin := hrows.1 ⟨placeA, ⟨str "x"⟩⟩ List.mem_cons_self
  simp [placeA, placeB] at horigin

end Page

end PierGateway.Spa
