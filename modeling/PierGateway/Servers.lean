import PierGateway.AppPolicy
import PierGateway.RouteValues
import PierGateway.S3Handler
import PierGateway.StaticFiles

/-!
# The listeners

`main` puts a multiplexer in front of each of its handlers. The one of the S3 listener
has a single pattern and yet decides which requests the gate sees, because it redirects
every path that is not clean. The one of the web interface has the routes of the
interface and the static files for the rest; the two share no path. `CONNECT` is the one
method whose paths are not cleaned.
-/
namespace PierGateway.Servers
open GoStrings NetUrl UrlLaws HttpMessages DotSegments CleanPaths ServeMux WebUI Proxy Acl
open ReverseProxy SigV4

/-- The pattern of everything. -/
def rootPattern : Pattern := ⟨[], [.multi []]⟩

/-- What a listener does with a request before its handler has it. The multiplexer itself refuses
the asterisk. -/
inductive Handed (α : Type) where
  | served (a : α)
  | redirect (location : Str)
  | refused (status : ℕ)

def hand {H α : Type} (routes : List (Pattern × H)) (serve : Match H → α) (r : Request) :
    Handed α :=
  if r.url.path = str "*" then .refused 400
  else
    match findHandler routes r with
    | .serve m => .served (serve m)
    | .redirect location => .redirect location
    | .methodNotAllowed _ => .refused 405
    | .notFound => .refused 404

/-- The table of `buildS3Server`. -/
def s3Routes : List (Pattern × Unit) := (parsePattern [slash]).toList.map fun p => (p, ())

def serveS3 (h : S3Handler) (r : Request) : Handed Outcome :=
  hand s3Routes (fun _ => serveHTTP h r) r

theorem s3Routes_eq : s3Routes = [(rootPattern, ())] := by decide

theorem root_mem_uiRoutes : (rootPattern, none) ∈ uiRoutes := by
  rw [uiRoutes_eq]
  simp [rootPattern]

/-! ### The pattern of everything -/

section
variable {H : Type} {routes : List (Pattern × H)} {h : H}

theorem multiChild_root (hroot : (rootPattern, h) ∈ routes) :
    ∃ c, (methodChild routes []).multiChild = some c := by
  have hmem : ([.multi []], rootPattern, h) ∈ methodChild routes [] :=
    List.mem_filterMap.mpr ⟨(rootPattern, h), hroot, if_pos rfl⟩
  apply Option.isSome_iff_exists.mp
  exact List.findSome?_isSome_iff.mpr ⟨_, hmem, rfl⟩

theorem exists_match (hroot : (rootPattern, h) ∈ routes) (method : Str) {path : Str}
    (hpath : path ≠ []) : ∃ m, matchMethodAndPath routes method path = some m := by
  have hfallback : ∃ m, matchPath (methodChild routes []) [] (rawSegments path) = some m := by
    obtain ⟨seg, rest, hsegs⟩ : ∃ seg rest, rawSegments path = seg :: rest := by
      rw [rawSegments, if_neg hpath]
      exact List.exists_cons_of_ne_nil (split_ne_nil slash _)
    obtain ⟨c, hc⟩ := multiChild_root hroot
    rw [hsegs]
    simp only [matchPath, hc, Option.map_some]
    split
    · exact ⟨_, rfl⟩
    · split
      · exact ⟨_, rfl⟩
      · exact ⟨_, rfl⟩
  unfold matchMethodAndPath
  split
  · exact ⟨_, rfl⟩
  · split
    · exact ⟨_, rfl⟩
    · exact hfallback

theorem values_of_root {method path : Str} {m : Match H}
    (hm : matchMethodAndPath routes method path = some m) (hp : m.pattern = rootPattern) :
    m.values = [] ∧ path ≠ [] := by
  have hfits := (matchMethodAndPath_fits hm).2
  rw [hp] at hfits
  have hpath : rawSegments path ≠ [] → path ≠ [] := by
    rintro hsegs rfl
    exact hsegs rfl
  generalize rawSegments path = segs at hfits hpath
  generalize hvalues : m.values = values at hfits
  cases hfits with
  | multi hne => exact absurd rfl hne
  | trailing => exact ⟨rfl, hpath (List.cons_ne_nil _ _)⟩

theorem exactMatch_slash {m : Match H} (hp : m.pattern = rootPattern) (path : Str) :
    exactMatch (some m) (path ++ [slash]) = decide (slash ∉ path) := by
  have hmulti : m.pattern.endsMulti = true := by
    rw [hp]
    rfl
  have hlength : m.pattern.segments.length = 1 := by
    rw [hp]
    rfl
  unfold exactMatch
  dsimp only
  rw [hmulti, hlength]
  simp [List.count_eq_zero]

theorem exactMatch_of_not_mem {m : Match H} (hp : m.pattern = rootPattern) {path : Str}
    (hne : path ≠ []) (hslash : slash ∉ path) : exactMatch (some m) path = false := by
  have hmulti : m.pattern.endsMulti = true := by
    rw [hp]
    rfl
  have hlast : path.getLast? ≠ some slash := fun h => hslash (List.mem_of_getLast? h)
  unfold exactMatch
  dsimp only
  rw [hmulti, if_neg (by decide), if_pos ⟨hne, hlast⟩]

end

/-! ### What is handed on -/

/-- The path is one that the multiplexer leaves as it is. -/
def Canonical (r : Request) : Prop :=
  if r.method = str "CONNECT" then slash ∈ r.url.escapedPath
  else r.url.escapedPath.head? = some slash ∧ Clean (segments r.url.escapedPath)

/-- Where a request is redirected that only the pattern of everything matches. -/
def canonicalURL (r : Request) : Str :=
  withQuery (escape .path (if r.method = str "CONNECT" then cleanPath r.url.path ++ [slash]
    else cleanPath r.url.escapedPath)) r.url.rawQuery

theorem rooted_of_head? {p : Str} (h : p.head? = some slash) : ∃ t, p = slash :: t := by
  cases p with
  | nil => cases h
  | cons c t =>
      obtain rfl : c = slash := by simpa using h
      exact ⟨t, rfl⟩

theorem cleanPath_eq_iff (p : Str) :
    cleanPath p = p ↔ p.head? = some slash ∧ Clean (segments p) := by
  have hrooted : ∀ t, cleanPath (slash :: t) = slash :: t ↔ Clean (segments (slash :: t)) := by
    intro t
    have hform : slash :: t = ofSegments (split slash t) := by rw [ofSegments, join_split]
    rw [segments_cons_slash, hform]
    exact cleanPath_eq_self_iff (split_ne_nil slash t) fun s hs => not_mem_of_mem_split hs
  constructor
  · intro h
    obtain ⟨t, ht⟩ := exists_cleanPath p
    rw [h] at ht
    rw [ht] at h ⊢
    exact ⟨rfl, (hrooted t).mp h⟩
  · rintro ⟨hhead, hclean⟩
    obtain ⟨t, rfl⟩ := rooted_of_head? hhead
    exact (hrooted t).mpr hclean

theorem canonical_iff (r : Request) :
    Canonical r ↔ matchedPath r = r.url.escapedPath ∧ slash ∈ r.url.escapedPath := by
  unfold Canonical matchedPath
  split_ifs with hmethod
  · simp
  · rw [cleanPath_eq_iff]
    constructor
    · rintro ⟨hhead, hclean⟩
      exact ⟨⟨hhead, hclean⟩, List.mem_of_head? hhead⟩
    · exact And.left

instance : DecidablePred Canonical := fun r => decidable_of_iff _ (canonical_iff r).symm

/-- Only a path that is not clean is matched as another one, and that one is rooted. -/
theorem matchedPath_ne {r : Request} (h : matchedPath r ≠ r.url.escapedPath) :
    matchedPath r = cleanPath r.url.escapedPath ∧ r.method ≠ str "CONNECT" := by
  unfold matchedPath at h ⊢
  split_ifs at h ⊢ with hmethod
  · exact absurd rfl h
  · exact ⟨rfl, hmethod⟩

/-- A cleaned path has a slash. -/
theorem connect_of_not_mem {r : Request} (h : slash ∉ matchedPath r) :
    r.method = str "CONNECT" := by
  by_contra hne
  obtain ⟨p, hp⟩ := exists_cleanPath r.url.escapedPath
  rw [matchedPath, if_neg hne, hp] at h
  exact h List.mem_cons_self

section
variable {H : Type} {routes : List (Pattern × H)} {h : H} {r : Request}

/-- Only the pattern of everything matches a request. -/
structure OnlyRoot (routes : List (Pattern × H)) (h : H) (r : Request) : Prop where
  root : (rootPattern, h) ∈ routes
  only : ∀ path ∈ [matchedPath r, matchedPath r ++ [slash]], ∀ m,
    matchMethodAndPath routes r.method path = some m → m.pattern = rootPattern ∧ m.handler = h

namespace OnlyRoot

theorem matched (ho : OnlyRoot routes h r) {path : Str}
    (hpath : path ∈ [matchedPath r, matchedPath r ++ [slash]]) (hne : path ≠ []) :
    matchMethodAndPath routes r.method path = some ⟨rootPattern, h, []⟩ := by
  obtain ⟨m, hm⟩ := exists_match ho.root r.method hne
  obtain ⟨hpattern, hhandler⟩ := ho.only path hpath m hm
  have hvalues := (values_of_root hm hpattern).1
  obtain ⟨pattern, handler, values⟩ := m
  dsimp only at hpattern hhandler hvalues
  rw [hm, hpattern, hhandler, hvalues]

theorem exactMatch_ended (ho : OnlyRoot routes h r) :
    exactMatch (matchMethodAndPath routes r.method (matchedPath r ++ [slash]))
      (matchedPath r ++ [slash]) = decide (slash ∉ matchedPath r) := by
  rw [ho.matched (by simp) (by simp)]
  exact exactMatch_slash rfl _

theorem exactMatch_bare (ho : OnlyRoot routes h r) (hslash : slash ∉ matchedPath r) :
    exactMatch (matchMethodAndPath routes r.method (matchedPath r)) (matchedPath r) = false := by
  by_cases hne : matchedPath r = []
  · cases hm : matchMethodAndPath routes r.method (matchedPath r) with
    | none => rfl
    | some m => exact absurd hne (values_of_root hm (ho.only _ (by simp) m hm).1).2
  · rw [ho.matched (by simp) hne]
    exact exactMatch_of_not_mem rfl hne hslash

/-- Only a path without a slash is redirected to one with a slash at its end. -/
theorem slashRedirect_eq (ho : OnlyRoot routes h r) :
    slashRedirect routes r.method (matchedPath r) r.url =
      if slash ∈ matchedPath r then none else some (canonicalURL r) := by
  unfold slashRedirect
  rw [ho.exactMatch_ended]
  split_ifs with hredirect hslash hslash
  · exact absurd hslash (of_decide_eq_true hredirect.2.2)
  · rw [canonicalURL, if_pos (connect_of_not_mem hslash)]
  · rfl
  · have hlast : (matchedPath r).getLast? ≠ some slash :=
      fun hl => hslash (List.mem_of_getLast? hl)
    refine absurd ⟨?_, hlast, decide_eq_true hslash⟩ hredirect
    rw [ho.exactMatch_bare hslash]
    rfl

/-- The request is served or redirected, as its path is. -/
theorem handed (ho : OnlyRoot routes h r) :
    Canonical r ∧ findHandler routes r = .serve ⟨rootPattern, h, []⟩ ∨
      ¬Canonical r ∧ findHandler routes r = .redirect (canonicalURL r) := by
  rw [canonical_iff]
  unfold findHandler
  rw [ho.slashRedirect_eq]
  by_cases hslash : slash ∈ matchedPath r
  · have hhere : matchMethodAndPath routes r.method (matchedPath r) = some ⟨rootPattern, h, []⟩ :=
      ho.matched (by simp) (List.ne_nil_of_mem hslash)
    rw [if_pos hslash, hhere]
    dsimp only [ofMatch]
    by_cases hclean : matchedPath r = r.url.escapedPath
    · rw [if_neg (not_not.mpr hclean)]
      exact .inl ⟨⟨hclean, hclean ▸ hslash⟩, rfl⟩
    · obtain ⟨hcleaned, hmethod⟩ := matchedPath_ne hclean
      rw [if_pos hclean, canonicalURL, if_neg hmethod, ← hcleaned]
      exact .inr ⟨fun hcanonical => hclean hcanonical.1, rfl⟩
  · rw [if_neg hslash]
    refine .inr ⟨fun hcanonical => hslash ?_, rfl⟩
    rw [hcanonical.1]
    exact hcanonical.2

end OnlyRoot

end

/-! ### The S3 listener -/

theorem serveS3_eq (h : S3Handler) (r : Request) :
    serveS3 h r = if r.url.path = str "*" then .refused 400
      else if Canonical r then .served (serveHTTP h r) else .redirect (canonicalURL r) := by
  have honly : OnlyRoot s3Routes () r := by
    rw [s3Routes_eq]
    exact ⟨List.mem_singleton.mpr rfl, fun path _ m hm =>
      Prod.mk.inj (List.mem_singleton.mp (matchMethodAndPath_fits hm).1)⟩
  unfold serveS3 hand
  rcases honly.handed with ⟨hcanonical, hfound⟩ | ⟨hcanonical, hfound⟩
  · rw [hfound, if_pos hcanonical]
  · rw [hfound, if_neg hcanonical]

theorem removeDotSegments_of_clean {p : Str} (hhead : p.head? = some slash)
    (h : Clean (segments p)) : removeDotSegments p = p := by
  have hnames := h.dotKind_eq
  have htrailing : trailing (segments p) = [] := by
    unfold trailing
    rw [if_neg]
    rintro ⟨s, hs, hkind⟩
    exact hkind (hnames s (List.mem_of_getLast? hs))
  unfold removeDotSegments
  rw [if_pos hhead, resolve_of_names hnames, htrailing, List.append_nil, segments, join_split]
  obtain ⟨t, rfl⟩ := rooted_of_head? hhead
  simp [trimPrefix]

/-- No group grants the method whose paths are not cleaned. -/
theorem not_forward_connect {h : S3Handler} {r : Request} (hmethod : r.method = str "CONNECT")
    (e : Exchange SignCall) : serveHTTP h r ≠ .forward e := by
  intro hforward
  obtain ⟨claims, hadmitted⟩ := Forwards.admitted ⟨e, hforward⟩
  obtain ⟨group, -, bucket, policy, -, -, hgranted⟩ :=
    (checkAccess_iff _ _ _).mp hadmitted.access
  rw [hmethod] at hgranted
  cases hgranted

/-- The S3 listener forwards what its handler would forward, but only under a path that is clean
as it was sent: no empty segment but the last, no dot segment. Every other request is refused, or
redirected, before the handler sees it; only a `CONNECT` request is handed on with any path that has
a slash, and none of them is forwarded. So normalising a forwarded path before decoding it changes
nothing. -/
theorem s3Listener_forwards (h : S3Handler) (r : Request) :
    (∀ e, serveS3 h r = .served (.forward e) ↔ serveHTTP h r = .forward e ∧ r.url.path ≠ str "*" ∧
      r.url.escapedPath.head? = some slash ∧ Clean (segments r.url.escapedPath)) ∧
    (serveS3 h r = if r.url.path = str "*" then .refused 400
      else if Canonical r then .served (serveHTTP h r) else .redirect (canonicalURL r)) ∧
    (r.method = str "CONNECT" → ∀ e, serveHTTP h r ≠ .forward e) ∧
    (∀ e, serveS3 h r = .served (.forward e) →
      removeDotSegments r.url.escapedPath = r.url.escapedPath) := by
  have hforwards : ∀ e, serveS3 h r = .served (.forward e) ↔ serveHTTP h r = .forward e ∧
      r.url.path ≠ str "*" ∧ r.url.escapedPath.head? = some slash ∧
        Clean (segments r.url.escapedPath) := by
    intro e
    by_cases hmethod : r.method = str "CONNECT"
    · have hnot := not_forward_connect (h := h) hmethod e
      rw [serveS3_eq]
      split_ifs with hstar hcanonical
      · simp [hstar]
      · simp [hnot]
      · simp [hnot]
    · have hclean : Canonical r ↔ r.url.escapedPath.head? = some slash ∧
          Clean (segments r.url.escapedPath) := by
        unfold Canonical
        rw [if_neg hmethod]
      rw [serveS3_eq, ← hclean]
      split_ifs with hstar hcanonical
      · simp [hstar]
      · simp [hstar, hcanonical]
      · simp [hcanonical]
  refine ⟨hforwards, serveS3_eq h r, not_forward_connect, ?_⟩
  intro e he
  obtain ⟨-, -, hhead, hsegs⟩ := (hforwards e).mp he
  exact removeDotSegments_of_clean hhead hsegs

def doubledSlash : Request where
  method := str "GET"
  url := { path := str "/b//k" }
  header := Header.empty

def closedGate : S3Handler where
  verifier := verifierFor []
  backend := none
  forwarder := none

/-- A key with a doubled slash is not forwarded. -/
theorem s3Listener_forwards_doubledSlash :
    ¬∃ e, serveS3 closedGate doubledSlash = .served (.forward e) := by
  have hsegs : segments doubledSlash.url.escapedPath = [str "b", []] ++ [str "k"] := by decide
  rintro ⟨e, h⟩
  obtain ⟨-, -, -, hclean⟩ :=
    ((s3Listener_forwards closedGate doubledSlash).1 e).mp h
  rw [hsegs] at hclean
  have hname := (clean_append_singleton.mp hclean).1 [] (by simp)
  rw [cleanKind_nil] at hname
  cases hname

/-! ### The listener of the web interface -/

/-- The routes of the interface are below its version, and none is for `CONNECT`. -/
theorem uiRoutes_cases {p : Pattern × Option Endpoint} (h : p ∈ uiRoutes) :
    p = (rootPattern, none) ∨ (∃ e, p.2 = some e) ∧ p.1.method ≠ [] ∧ p.1.method ≠ str "CONNECT" ∧
      ∃ s segs, p.1.segments = .literal (str "api") :: .literal (str "v1") :: s :: segs := by
  rw [uiRoutes_eq] at h
  simp only [List.mem_cons, List.not_mem_nil, or_false] at h
  rcases h with rfl | rfl | rfl | rfl | rfl | rfl | rfl | rfl | rfl | rfl | rfl | rfl
  any_goals exact .inr ⟨⟨_, rfl⟩, by simp, by simp, _, _, rfl⟩
  exact .inl rfl

/-- No pattern of the interface takes the path, as it is matched or with a slash at its end. -/
def Untaken (r : Request) : Prop :=
  ∀ path ∈ [matchedPath r, matchedPath r ++ [slash]], ∀ m,
    matchMethodAndPath uiRoutes r.method path = some m → m.handler = none

theorem Untaken.findHandler {r : Request} (h : Untaken r) :
    Canonical r ∧ findHandler uiRoutes r = .serve ⟨rootPattern, none, []⟩ ∨
      ¬Canonical r ∧ findHandler uiRoutes r = .redirect (canonicalURL r) := by
  refine OnlyRoot.handed ⟨root_mem_uiRoutes, ?_⟩
  intro path hpath m hm
  have hnone := h path hpath m hm
  rcases uiRoutes_cases (matchMethodAndPath_fits hm).1 with hroot | ⟨⟨e, he⟩, -⟩
  · exact Prod.mk.inj hroot
  · rw [hnone] at he
    cases he

section
variable {keycloakURL : Str} {a : Assets} {r : UIRequest}

end

end PierGateway.Servers
