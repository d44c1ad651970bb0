import PierGateway.DotSegments
import PierGateway.HttpMessages

/-!
# Request multiplexing by pattern

The routing of `http.ServeMux`: patterns with a method, literal segments and
wildcards are kept as a tree and a request path is followed down the tree one
segment at a time, a literal first, then a single wildcard, then the multi wildcard.
A node of the tree is the list of the patterns that can still match, each with what
is left of its segments. A path is matched in its escaped spelling and every segment
is unescaped on its own; a path that is not clean is redirected to one that is.
-/
namespace PierGateway.ServeMux
open GoStrings NetUrl HttpMessages DotSegments

inductive Segment where
  | literal (s : Str)
  | single (name : Str)
  | multi (name : Str)
deriving DecidableEq

structure Pattern where
  method : Str
  segments : List Segment
deriving DecidableEq

def openBrace : UInt8 := 0x7B
def closeBrace : UInt8 := 0x7D

/-- `pathUnescape` of the matcher: a segment that cannot be unescaped stands for itself. -/
def unescapeSegment (s : Str) : Str := (pathUnescape s).getD s

/-- One segment of a pattern; `last` says that nothing follows it. -/
def parseSegment (last : Bool) (seg : Str) : Option Segment :=
  if seg = [] then (if last then some (.multi []) else some (.literal []))
  else if openBrace ∉ seg then some (.literal (unescapeSegment seg))
  else if seg.head? ≠ some openBrace ∨ seg.getLast? ≠ some closeBrace then none
  else
    let name := (seg.drop 1).dropLast
    if name = str "$" then (if last then some (.literal [slash]) else none)
    else if hasSuffix name (str "...") then
      if last ∧ name ≠ str "..." then some (.multi (name.take (name.length - 3))) else none
    else if name = [] then none
    else some (.single name)

def parseSegments : List Str → Option (List Segment)
  | [] => some []
  | seg :: rest => do
      let s ← parseSegment rest.isEmpty seg
      let ss ← parseSegments rest
      pure (s :: ss)

/-- A pattern without a host. -/
def parsePattern (s : Str) : Option Pattern :=
  let (method, path) :=
    match cut space s with
    | (method, some path) => (method, path)
    | (_, none) => ([], s)
  if path.head? = some slash then
    (parseSegments (split slash (path.drop 1))).map fun segments => ⟨method, segments⟩
  else none

section
variable {H : Type}

/-- The patterns that can still match below a node of the tree. -/
abbrev Node (H : Type) := List (List Segment × Pattern × H)

namespace Node

def literalChild (n : Node H) (s : Str) : Node H :=
  n.filterMap fun b =>
    match b.1 with
    | .literal t :: rest => if t = s then some (rest, b.2) else none
    | _ => none

def emptyChild (n : Node H) : Node H :=
  n.filterMap fun b =>
    match b.1 with
    | .single _ :: rest => some (rest, b.2)
    | _ => none

/-- Single wildcards are filed under the empty string. -/
def findChild (n : Node H) (s : Str) : Node H := if s = [] then n.emptyChild else n.literalChild s

def multiChild (n : Node H) : Option (Str × Pattern × H) :=
  n.findSome? fun b =>
    match b.1 with
    | [.multi name] => some (name, b.2)
    | _ => none

def leaf (n : Node H) : Option (Pattern × H) :=
  n.findSome? fun b => if b.1 = [] then some b.2 else none

end Node

structure Match (H : Type) where
  pattern : Pattern
  handler : H
  values : List Str
deriving DecidableEq

/-- The segments of an escaped path. -/
def rawSegments (path : Str) : List Str := if path = [] then [] else split slash (path.drop 1)

/-- The text of the first segment; a path that is only a slash stands for itself. -/
def firstSegment (seg : Str) (rest : List Str) : Str :=
  if seg = [] ∧ rest = [] then [slash] else unescapeSegment seg

def matchPath (n : Node H) (values : List Str) : List Str → Option (Match H)
  | [] => n.leaf.map fun p => ⟨p.1, p.2, values⟩
  | seg :: rest =>
      let s := firstSegment seg rest
      match matchPath (n.findChild s) values rest with
      | some m => some m
      | none =>
          match if s = [slash] then none else matchPath n.emptyChild (values ++ [s]) rest with
          | some m => some m
          | none =>
              n.multiChild.map fun c =>
                ⟨c.2.1, c.2.2,
                  if c.1 = [] then values else values ++
                    [unescapeSegment (join slash (seg :: rest))]⟩

/-- The tree of the patterns for one method, or for none. -/
def methodChild (routes : List (Pattern × H)) (method : Str) : Node H :=
  routes.filterMap fun p => if p.1.method = method then some (p.1.segments, p) else none

/-- The method itself, then `GET` for `HEAD`, then the patterns without a method. -/
def matchMethodAndPath (routes : List (Pattern × H)) (method path : Str) : Option (Match H) :=
  match matchPath (methodChild routes method) [] (rawSegments path) with
  | some m => some m
  | none =>
      match if method = str "HEAD" then
          matchPath (methodChild routes (str "GET")) [] (rawSegments path) else none with
      | some m => some m
      | none => matchPath (methodChild routes []) [] (rawSegments path)

def Pattern.endsMulti (p : Pattern) : Bool :=
  match p.segments.getLast? with
  | some (.multi _) => true
  | _ => false

/-- The multi wildcard of the pattern, if it has one, matched the empty string. -/
def exactMatch (m : Option (Match H)) (path : Str) : Bool :=
  match m with
  | none => false
  | some m =>
      if !m.pattern.endsMulti then true
      else if path ≠ [] ∧ path.getLast? ≠ some slash then false
      else m.pattern.segments.length = path.count slash

/-- A redirect is to the URL that `RedirectHandler` is given. -/
inductive Dispatch (H : Type) where
  | serve (m : Match H)
  | redirect (location : Str)
  | methodNotAllowed (allow : List Str)
  | notFound
deriving DecidableEq

def withQuery (path rawQuery : Str) : Str :=
  if rawQuery = [] then path else path ++ question :: rawQuery

/-- The redirect to the same path with a slash at its end, when only that has an exact match. -/
def slashRedirect (routes : List (Pattern × H)) (method path : Str) (u : URL) : Option Str :=
  if !exactMatch (matchMethodAndPath routes method path) path ∧ path.getLast? ≠ some slash ∧
      exactMatch (matchMethodAndPath routes method (path ++ [slash])) (path ++ [slash]) then
    some (withQuery (escape .path (cleanPath u.path ++ [slash])) u.rawQuery)
  else none

def matchingMethods (routes : List (Pattern × H)) (path : Str) : List Str :=
  let matching := ((routes.map fun p => p.1.method).dedup).filter fun method =>
    method ≠ [] && ((matchPath (methodChild routes method) [] (rawSegments path)).isSome ||
      (path.getLast? ≠ some slash &&
        (matchPath (methodChild routes method) [] (rawSegments (path ++ [slash]))).isSome))
  sortStrings (if str "GET" ∈ matching ∧ str "HEAD" ∉ matching then str "HEAD" :: matching
    else matching)

def ofMatch (routes : List (Pattern × H)) (path : Str) : Option (Match H) → Dispatch H
  | some m => .serve m
  | none =>
      if matchingMethods routes path = [] then .notFound
      else .methodNotAllowed (matchingMethods routes path)

/-- The path that is matched; only `CONNECT` requests are not cleaned. -/
def matchedPath (r : Request) : Str :=
  if r.method = str "CONNECT" then r.url.escapedPath else cleanPath r.url.escapedPath

/-- `mux.findHandler`, for patterns without hosts. The cleaned path is escaped already and, as the
path of a new URL, is escaped again. -/
def findHandler (routes : List (Pattern × H)) (r : Request) : Dispatch H :=
  match slashRedirect routes r.method (matchedPath r) r.url with
  | some location => .redirect location
  | none =>
      if matchedPath r ≠ r.url.escapedPath then
        .redirect (withQuery (escape .path (matchedPath r)) r.url.rawQuery)
      else ofMatch routes (matchedPath r) (matchMethodAndPath routes r.method (matchedPath r))

/-- The wildcards of a pattern that have a name, in order. -/
def Pattern.wildcards (p : Pattern) : List Str :=
  p.segments.filterMap fun s =>
    match s with
    | .single name => some name
    | .multi name => if name = [] then none else some name
    | .literal _ => none

/-- What `r.PathValue` reads after a match. -/
def Match.pathValues (m : Match H) : List (Str × Str) := m.pattern.wildcards.zip m.values

/-! ### What a match means -/

/-- The segments of a path match segments of a pattern, leaving these values. An empty
segment before others is looked up under the wildcard and leaves none. -/
inductive Fits : List Segment → List Str → List Str → Prop
  | nil : Fits [] [] []
  | literal {ps : List Segment} {s seg : Str} {rest values : List Str}
      (hs : firstSegment seg rest = s) (h : Fits ps rest values) :
      Fits (.literal s :: ps) (seg :: rest) values
  | single {ps : List Segment} {s seg name : Str} {rest values : List Str}
      (hs : firstSegment seg rest = s) (h : Fits ps rest values) :
      Fits (.single name :: ps) (seg :: rest) (s :: values)
  | blank {ps : List Segment} {seg name : Str} {rest values : List Str}
      (hs : firstSegment seg rest = []) (h : Fits ps rest values) :
      Fits (.single name :: ps) (seg :: rest) values
  | multi {name seg : Str} {rest : List Str} (h : name ≠ []) :
      Fits [.multi name] (seg :: rest) [unescapeSegment (join slash (seg :: rest))]
  | trailing {seg : Str} {rest : List Str} : Fits [.multi []] (seg :: rest) []

theorem Node.mem_literalChild {n : Node H} {s : Str} {b : List Segment × Pattern × H} :
    b ∈ n.literalChild s ↔ (.literal s :: b.1, b.2) ∈ n := by
  unfold Node.literalChild
  rw [List.mem_filterMap]
  constructor
  · intro h
    obtain ⟨⟨segs, q⟩, hmem, hb⟩ := h
    match segs, hb with
    | .literal t :: rest, hb =>
        dsimp only at hb
        split_ifs at hb with ht
        obtain rfl := Option.some.inj hb
        exact ht ▸ hmem
  · intro h
    exact ⟨_, h, by simp⟩

theorem Node.mem_emptyChild {n : Node H} {b : List Segment × Pattern × H} :
    b ∈ n.emptyChild ↔ ∃ name, (.single name :: b.1, b.2) ∈ n := by
  unfold Node.emptyChild
  rw [List.mem_filterMap]
  constructor
  · intro h
    obtain ⟨⟨segs, q⟩, hmem, hb⟩ := h
    match segs, hb with
    | .single name :: rest, hb =>
        obtain rfl := Option.some.inj hb
        exact ⟨name, hmem⟩
  · intro h
    obtain ⟨name, hmem⟩ := h
    exact ⟨_, hmem, rfl⟩

theorem Node.mem_findChild {n : Node H} {s : Str} {b : List Segment × Pattern × H}
    (h : b ∈ n.findChild s) :
    (.literal s :: b.1, b.2) ∈ n ∨ s = [] ∧ ∃ name, (.single name :: b.1, b.2) ∈ n := by
  unfold Node.findChild at h
  split_ifs at h with hs
  · exact .inr ⟨hs, Node.mem_emptyChild.mp h⟩
  · exact .inl (Node.mem_literalChild.mp h)

theorem Node.multiChild_mem {n : Node H} {c : Str × Pattern × H} (h : n.multiChild = some c) :
    ([.multi c.1], c.2) ∈ n := by
  obtain ⟨⟨segs, q⟩, hmem, hb⟩ := List.exists_of_findSome?_eq_some h
  match segs, hb with
  | [.multi name], hb =>
      obtain rfl := Option.some.inj hb
      exact hmem

theorem Node.leaf_mem {n : Node H} {p : Pattern × H} (h : n.leaf = some p) : ([], p) ∈ n := by
  obtain ⟨⟨segs, q⟩, hmem, hb⟩ := List.exists_of_findSome?_eq_some h
  dsimp only at hb
  split_ifs at hb with hs
  obtain rfl := Option.some.inj hb
  exact hs ▸ hmem

/-- A match comes from one of the patterns of the node, whose segments fit the path. -/
theorem matchPath_fits {n : Node H} {values segs : List Str} {m : Match H}
    (h : matchPath n values segs = some m) :
    ∃ ps values', (ps, m.pattern, m.handler) ∈ n ∧ Fits ps segs values' ∧
      m.values = values ++ values' := by
  induction segs generalizing n values with
  | nil =>
      obtain ⟨p, hp, rfl⟩ := Option.map_eq_some_iff.mp h
      exact ⟨[], [], Node.leaf_mem hp, .nil, by simp⟩
  | cons seg rest ih =>
      simp only [matchPath] at h
      split at h
      · next m' hchild =>
          obtain rfl := Option.some.inj h
          obtain ⟨ps, values', hmem, hfits, hvalues⟩ := ih hchild
          rcases Node.mem_findChild hmem with hlit | ⟨hs, name, hsingle⟩
          · exact ⟨_, values', hlit, .literal rfl hfits, hvalues⟩
          · exact ⟨_, values', hsingle, .blank hs hfits, hvalues⟩
      · split at h
        · next m' hempty =>
            obtain rfl := Option.some.inj h
            split_ifs at hempty
            obtain ⟨ps, values', hmem, hfits, hvalues⟩ := ih hempty
            obtain ⟨name, hsingle⟩ := Node.mem_emptyChild.mp hmem
            exact ⟨_, _ :: values', hsingle, .single rfl hfits, by simp [hvalues]⟩
        · obtain ⟨c, hc, rfl⟩ := Option.map_eq_some_iff.mp h
          obtain ⟨name, p⟩ := c
          have hmem := Node.multiChild_mem hc
          by_cases hname : name = []
          · subst hname
            exact ⟨_, [], hmem, .trailing, by simp⟩
          · exact ⟨_, _, hmem, .multi hname, by simp [hname]⟩

theorem mem_methodChild {routes : List (Pattern × H)} {method : Str}
    {b : List Segment × Pattern × H} (h : b ∈ methodChild routes method) :
    b.2 ∈ routes ∧ b.1 = b.2.1.segments ∧ b.2.1.method = method := by
  obtain ⟨p, hp, hb⟩ := List.mem_filterMap.mp h
  split_ifs at hb with hm
  obtain rfl := Option.some.inj hb
  exact ⟨hp, rfl, hm⟩

theorem matchMethodAndPath_fits {routes : List (Pattern × H)} {method path : Str} {m : Match H}
    (h : matchMethodAndPath routes method path = some m) :
    (m.pattern, m.handler) ∈ routes ∧ Fits m.pattern.segments (rawSegments path) m.values := by
  have hroute : ∀ method', matchPath (methodChild routes method') [] (rawSegments path) = some m →
      (m.pattern, m.handler) ∈ routes ∧ Fits m.pattern.segments (rawSegments path) m.values := by
    intro method' hm
    obtain ⟨ps, values, hmem, hfits, hvalues⟩ := matchPath_fits hm
    obtain ⟨hr, hps, -⟩ := mem_methodChild hmem
    dsimp only at hps
    rw [List.nil_append] at hvalues
    exact ⟨hr, hps ▸ hvalues ▸ hfits⟩
  unfold matchMethodAndPath at h
  split at h
  · next m' hm => exact hroute method (h ▸ hm)
  · split at h
    · next m' hm =>
        split_ifs at hm
        exact hroute _ (h ▸ hm)
    · exact hroute [] h

theorem ofMatch_serve {routes : List (Pattern × H)} {path : Str} {o : Option (Match H)}
    {m : Match H}
    (h : ofMatch routes path o = .serve m) : o = some m := by
  cases o with
  | none =>
      unfold ofMatch at h
      dsimp only at h
      split_ifs at h
  | some m' => exact congrArg some (by simpa [ofMatch] using h)

/-- A request is served from a path that needs no redirect. -/
theorem findHandler_serve {routes : List (Pattern × H)} {r : Request} {m : Match H}
    (h : findHandler routes r = .serve m) :
    (m.pattern, m.handler) ∈ routes ∧
      Fits m.pattern.segments (rawSegments r.url.escapedPath) m.values ∧
      matchedPath r = r.url.escapedPath := by
  unfold findHandler at h
  split at h
  · cases h
  · split_ifs at h with hclean
    rw [ne_eq, not_not] at hclean
    rw [hclean] at h
    have hmatch := matchMethodAndPath_fits (ofMatch_serve h)
    exact ⟨hmatch.1, hmatch.2, hclean⟩

theorem findHandler_redirect {routes : List (Pattern × H)} {r : Request} {location : Str}
    (h : findHandler routes r = .redirect location) :
    location = withQuery (escape .path (cleanPath r.url.path ++ [slash])) r.url.rawQuery ∨
      (location = withQuery (escape .path (matchedPath r)) r.url.rawQuery ∧
        matchedPath r ≠ r.url.escapedPath) := by
  unfold findHandler at h
  split at h
  · next location' hslash =>
      obtain rfl := Dispatch.redirect.inj h
      unfold slashRedirect at hslash
      split_ifs at hslash
      exact .inl (Option.some.inj hslash).symm
  · split_ifs at h with hclean
    · exact .inr ⟨(Dispatch.redirect.inj h).symm, hclean⟩
    · cases hm : matchMethodAndPath routes r.method (matchedPath r) with
      | some m =>
          rw [hm] at h
          cases h
      | none =>
          rw [hm] at h
          unfold ofMatch at h
          dsimp only at h
          split_ifs at h

/-- A clean path with a match and no redirect to a slash is served. -/
theorem findHandler_of_match {routes : List (Pattern × H)} {r : Request} {m : Match H}
    (hpath : matchedPath r = r.url.escapedPath)
    (hm : matchMethodAndPath routes r.method r.url.escapedPath = some m)
    (hslash : slashRedirect routes r.method r.url.escapedPath r.url = none) :
    findHandler routes r = .serve m := by
  unfold findHandler
  rw [hpath, hslash, hm, if_neg (by simp)]
  rfl

/-! ### Following one path down the tree -/

theorem firstSegment_of_ne_nil {seg : Str} {rest : List Str} (h : rest ≠ []) :
    firstSegment seg rest = unescapeSegment seg := if_neg fun hc => h hc.2

theorem matchPath_nil (values segs : List Str) : matchPath ([] : Node H) values segs = none := by
  induction segs generalizing values with
  | nil => rfl
  | cons seg rest ih =>
      have hchild : ∀ s, Node.findChild ([] : Node H) s = [] := by
        intro s
        unfold Node.findChild
        split_ifs <;> rfl
      have hempty : Node.emptyChild ([] : Node H) = [] := rfl
      simp only [matchPath, hchild, hempty, ih, ite_self]
      rfl

section
variable {n : Node H} {values rest : List Str} {seg s : Str}

theorem matchPath_child {m : Match H} (hs : firstSegment seg rest = s)
    (h : matchPath (n.findChild s) values rest = some m) :
    matchPath n values (seg :: rest) = some m := by
  simp only [matchPath, hs, h]

theorem matchPath_single {m : Match H} (hs : firstSegment seg rest = s)
    (hchild : n.findChild s = [])
    (hslash : s ≠ [slash]) (h : matchPath n.emptyChild (values ++ [s]) rest = some m) :
    matchPath n values (seg :: rest) = some m := by
  simp only [matchPath, hs, hchild, matchPath_nil, if_neg hslash, h]

theorem matchPath_multi {name : Str} {p : Pattern × H} (hname : name ≠ [])
    (hchild : ∀ s, n.findChild s = []) (hempty : n.emptyChild = [])
    (h : n.multiChild = some (name, p)) :
    matchPath n values (seg :: rest) =
      some ⟨p.1, p.2, values ++ [unescapeSegment (join slash (seg :: rest))]⟩ := by
  simp only [matchPath, hchild, hempty, matchPath_nil, ite_self, h, Option.map_some, if_neg hname]

end

/-- No pattern of the node goes on with a literal. -/
def Node.noLiteral (n : Node H) : Bool :=
  n.all fun b =>
    match b.1 with
    | .literal _ :: _ => false
    | _ => true

theorem Node.literalChild_eq_nil {n : Node H} (h : n.noLiteral = true) (s : Str) :
    n.literalChild s = [] := by
  rw [List.eq_nil_iff_forall_not_mem]
  intro b hb
  have hall := List.all_eq_true.mp h _ (Node.mem_literalChild.mp hb)
  cases hall

end

end PierGateway.ServeMux
