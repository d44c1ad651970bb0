import PierGateway.CallTargets
import PierGateway.KeyTransport

/-!
# The values of a dispatched route

The router matches the escaped path and hands on the unescaped wildcards. A handler on
keys takes them unless one is empty, and then splits the decoded path on its own, at
the first separator. A bucket is never empty behind the router, a key may be: there the
decoded path ends in the separator, and a bucket name with an encoded separator in it
is split in its middle.
-/
namespace PierGateway.WebUI
open GoStrings NetUrl UrlLaws HttpMessages Proxy Acl Interaction ServeMux DotSegments CleanPaths
  VisiblePaths

/-! ### Texts around a separator -/

theorem cutStr_cases {sep : Str} (hne : sep ≠ []) (s : Str) :
    (cutStr sep s = none ∧ ∀ p q, s ≠ p ++ (sep ++ q)) ∨
      ∃ p q, cutStr sep s = some (p, q) ∧ s = p ++ (sep ++ q) ∧
        ∀ p' q', s = p' ++ (sep ++ q') → p.length ≤ p'.length := by
  induction s with
  | nil =>
      refine Or.inl ⟨by rw [cutStr, if_neg hne], ?_⟩
      intro p q h
      have hnil := List.append_eq_nil_iff.mp h.symm
      exact hne (List.append_eq_nil_iff.mp hnil.2).1
  | cons c s ih =>
      by_cases hprefix : sep.isPrefixOf (c :: s) = true
      · obtain ⟨q, hq⟩ := List.isPrefixOf_iff_prefix.mp hprefix
        refine Or.inr ⟨[], q, ?_, hq.symm, fun p' q' _ => Nat.zero_le _⟩
        rw [cutStr, if_pos hprefix, ← hq, List.drop_left]
      · have hcut : cutStr sep (c :: s) = (cutStr sep s).map fun r => (c :: r.1, r.2) := by
          rw [cutStr, if_neg hprefix]
        have htail : ∀ p q, c :: s = p ++ (sep ++ q) →
            ∃ p', p = c :: p' ∧ s = p' ++ (sep ++ q) := by
          intro p q h
          cases p with
          | nil => exact absurd (List.isPrefixOf_iff_prefix.mpr ⟨q, h.symm⟩) hprefix
          | cons d p =>
              obtain ⟨rfl, hs⟩ := List.cons.inj h
              exact ⟨p, rfl, hs⟩
        rcases ih with ⟨hnone, hall⟩ | ⟨p, q, hsome, hs, hfirst⟩
        · refine Or.inl ⟨by rw [hcut, hnone]; rfl, ?_⟩
          intro p q h
          obtain ⟨p', _, hs⟩ := htail p q h
          exact hall p' q hs
        · refine Or.inr ⟨c :: p, q, by rw [hcut, hsome]; rfl, by rw [hs]; rfl, ?_⟩
          intro p' q' h
          obtain ⟨p'', rfl, hs'⟩ := htail p' q' h
          exact Nat.succ_le_succ (hfirst p'' q' hs')

/-- In the name followed by the separator, the separator is at the start, or it is found
first at the end. -/
def ReadsBack (sep bucket : Str) : Prop :=
  sep <+: bucket ++ sep ∨ ∀ p q, bucket ++ sep = p ++ (sep ++ q) → q = []

/-- What a cut of the name followed by the separator leaves empty. -/
theorem readsBack_iff {sep : Str} (hne : sep ≠ []) (bucket : Str) :
    ReadsBack sep bucket ↔ ((cutStr sep (bucket ++ sep)).getD ([], [])).1 = [] ∨
      ((cutStr sep (bucket ++ sep)).getD ([], [])).2 = [] := by
  rcases cutStr_cases hne (bucket ++ sep) with ⟨_, hall⟩ | ⟨p, q, hcut, hs, hfirst⟩
  · exact absurd (by rw [List.append_nil]) (hall bucket [])
  · rw [hcut, Option.getD_some]
    constructor
    · intro h
      rcases h with ⟨t, ht⟩ | hend
      · have hle := hfirst [] t ht.symm
        exact Or.inl (List.length_eq_zero_iff.mp (Nat.le_zero.mp hle))
      · exact Or.inr (hend p q hs)
    · intro h
      rcases h with hp | hq
      · refine Or.inl ⟨q, ?_⟩
        have hp' : p = [] := hp
        rw [hs, hp', List.nil_append]
      · refine Or.inr ?_
        intro p' q' hs'
        have hq' : q = [] := hq
        have hle := hfirst p' q' hs'
        have hlen := congrArg List.length (hs.symm.trans hs')
        simp only [hq', List.length_append, List.length_nil] at hlen
        exact List.length_eq_zero_iff.mp (by omega)

/-! ### The path of a dispatched request -/

/-- Text that unescapes does so on both sides of a slash. -/
theorem unescape_around_slash {x y t : Str} (h : unescape .path (x ++ slash :: y) = some t) :
    ∃ t₁ t₂, unescape .path x = some t₁ ∧ unescape .path y = some t₂ ∧ t = t₁ ++ slash :: t₂ := by
  have hhex : isHex slash = false := by decide
  induction x using unescape.induct .path generalizing t with
  | case1 =>
      rw [List.nil_append, unescape_cons_slash, Option.map_eq_some_iff] at h
      obtain ⟨t₂, ht₂, rfl⟩ := h
      exact ⟨[], t₂, rfl, ht₂, rfl⟩
  | case2 a b x hab ih =>
      have hab' := by simpa using hab
      have hstep := fun s => unescape_cons_percent plain_path hab'.1.1 hab'.1.2 s
      rw [List.cons_append, List.cons_append, List.cons_append, hstep,
        Option.map_eq_some_iff] at h
      obtain ⟨t', ht', rfl⟩ := h
      obtain ⟨t₁, t₂, h₁, h₂, rfl⟩ := ih ht'
      exact ⟨_ :: t₁, t₂, by rw [hstep, h₁]; rfl, h₂, rfl⟩
  | case3 a b x hab =>
      rw [List.cons_append, List.cons_append, List.cons_append, unescape.eq_def] at h
      simp [hab] at h
  | case4 x hx =>
      rcases x with _ | ⟨a, _ | ⟨b, x⟩⟩
      · rw [unescape.eq_def] at h
        cases y with
        | nil => simp at h
        | cons c y => simp [hhex] at h
      · rw [unescape.eq_def] at h
        simp [hhex] at h
      · exact absurd rfl (hx a b x)
  | case5 c x hc hplus ih => simp at hplus
  | case6 c x hc hplus hbad => simp at hbad
  | case7 c x hc hplus hbad ih =>
      have hstep := fun s => unescape_cons_self plain_path hc (by simp) s
      rw [List.cons_append, hstep, Option.map_eq_some_iff] at h
      obtain ⟨t', ht', rfl⟩ := h
      obtain ⟨t₁, t₂, h₁, h₂, rfl⟩ := ih ht'
      exact ⟨c :: t₁, t₂, by rw [hstep, h₁]; rfl, h₂, rfl⟩

theorem unescape_join_cons {s s' t : Str} {segs : List Str}
    (h : unescape .path (join slash (s :: s' :: segs)) = some t) :
    ∃ t', unescape .path s = some (unescapeSegment s) ∧
      unescape .path (join slash (s' :: segs)) = some t' ∧
        t = unescapeSegment s ++ slash :: t' := by
  rw [join_cons_cons] at h
  obtain ⟨t₁, t₂, h₁, h₂, rfl⟩ := unescape_around_slash h
  rw [unescapeSegment_eq h₁]
  exact ⟨t₂, h₁, h₂, rfl⟩

theorem matchMethodAndPath_method {H : Type} {routes : List (Pattern × H)} {method path : Str}
    {m : Match H} (h : matchMethodAndPath routes method path = some m) :
    m.pattern.method = method ∨ (method = str "HEAD" ∧ m.pattern.method = str "GET") ∨
      m.pattern.method = [] := by
  have hmethod : ∀ {method' : Str} {m' : Match H},
      matchPath (methodChild routes method') [] (rawSegments path) = some m' →
        m'.pattern.method = method' := by
    intro method' m' hm
    obtain ⟨ps, values, hmem, _⟩ := matchPath_fits hm
    exact (mem_methodChild hmem).2.2
  unfold matchMethodAndPath at h
  cases hown : matchPath (methodChild routes method) [] (rawSegments path) with
  | some m' =>
      rw [hown] at h
      obtain rfl := Option.some.inj h
      exact Or.inl (hmethod hown)
  | none =>
      rw [hown] at h
      by_cases hhead : method = str "HEAD"
      · rw [if_pos hhead] at h
        cases hget : matchPath (methodChild routes (str "GET")) [] (rawSegments path) with
        | some m' =>
            rw [hget] at h
            obtain rfl := Option.some.inj h
            exact Or.inr (Or.inl ⟨hhead, hmethod hget⟩)
        | none =>
            rw [hget] at h
            exact Or.inr (Or.inr (hmethod h))
      · rw [if_neg hhead] at h
        exact Or.inr (Or.inr (hmethod h))

theorem findHandler_match {H : Type} {routes : List (Pattern × H)} {r : Request} {m : Match H}
    (h : findHandler routes r = .serve m) :
    matchMethodAndPath routes r.method (matchedPath r) = some m := by
  unfold findHandler at h
  cases hs : slashRedirect routes r.method (matchedPath r) r.url with
  | some location =>
      rw [hs] at h
      cases h
  | none =>
      rw [hs] at h
      dsimp only at h
      split_ifs at h with hpath
      exact ofMatch_serve h

/-- A request behind a route on keys, with its wildcards. -/
structure Keyed (use : KeyUse) (r : UIRequest) (m : Match (Option Endpoint)) (bucket key : Str) :
    Prop where
  pattern : m.pattern.segments = keyedSegments use.directory
  values : m.values = [bucket, key]
  bucket_ne : bucket ≠ []
  path : r.url.path = str "/api/v1/buckets/" ++ (bucket ++ slash :: (use.directory ++ slash :: key))

theorem exists_cleanPath (path : Str) : ∃ p, cleanPath path = slash :: p := by
  unfold cleanPath
  dsimp only
  split_ifs
  · exact ⟨_, rfl⟩
  · exact ⟨_, rfl⟩
  · exact ⟨_, rfl⟩
  · exact ⟨_, rfl⟩
  · exact ⟨_, rfl⟩

theorem clean_of_serve {use : KeyUse} {r : UIRequest} {m : Match (Option Endpoint)}
    (h : findHandler uiRoutes r.toRequest = .serve m) (hhandler : m.handler = some use.endpoint) :
    ∃ p, r.url.escapedPath = slash :: p ∧ Clean (split slash p) := by
  obtain ⟨hroute, -, hmatched⟩ := findHandler_serve h
  have hp := use.route_facts.1 _ hroute hhandler
  have hmethod : r.method ≠ str "CONNECT" := by
    intro hconnect
    have hfound := matchMethodAndPath_method (findHandler_match h)
    rw [congrArg Pattern.method hp, hconnect] at hfound
    rcases hfound with he | ⟨he, _⟩ | he
    · exact use.fixed_names.1 he
    · simp at he
    · cases use <;> simp [KeyUse.method] at he
  have hcleaned : cleanPath r.url.escapedPath = r.url.escapedPath := by
    unfold matchedPath at hmatched
    rwa [if_neg hmethod] at hmatched
  obtain ⟨p, hp⟩ := exists_cleanPath r.url.escapedPath
  have hescaped : r.url.escapedPath = slash :: p := hcleaned.symm.trans hp
  have hsegs : r.url.escapedPath = ofSegments (split slash p) := by
    rw [hescaped, ofSegments, join_split]
  rw [hsegs] at hcleaned
  refine ⟨p, hescaped, ?_⟩
  exact (cleanPath_eq_self_iff (split_ne_nil slash p) fun s hs =>
    not_mem_of_mem_split hs).mp hcleaned

theorem keyed_of_serve {use : KeyUse} {r : UIRequest} {m : Match (Option Endpoint)}
    (h : findHandler uiRoutes r.toRequest = .serve m) (hhandler : m.handler = some use.endpoint) :
    ∃ bucket key, Keyed use r m bucket key := by
  obtain ⟨hroute, hfits, -⟩ := findHandler_serve h
  have hpattern : m.pattern.segments = keyedSegments use.directory :=
    congrArg Pattern.segments (use.route_facts.1 _ hroute hhandler)
  obtain ⟨p, hescaped, hclean⟩ := clean_of_serve h hhandler
  have hsegs : r.url.escapedPath = ofSegments (split slash p) := by
    rw [hescaped, ofSegments, join_split]
  have hraw : rawSegments r.url.escapedPath = split slash p := by
    rw [hescaped]
    rfl
  rw [hraw, hpattern] at hfits
  obtain ⟨s₁, s₂, s₃, s₄, s₅, s₆, rest, hsplit, h₁, h₂, h₃, h₅, hvalues⟩ :=
    fits_keyed (by simp) hfits
  have hpath := unescape_escapedPath r.url
  rw [hsegs, hsplit, ofSegments, unescape_cons_slash, Option.map_eq_some_iff] at hpath
  obtain ⟨t, ht, hpath⟩ := hpath
  obtain ⟨t₁, _, ht₁, rfl⟩ := unescape_join_cons ht
  obtain ⟨t₂, _, ht₂, rfl⟩ := unescape_join_cons ht₁
  obtain ⟨t₃, _, ht₃, rfl⟩ := unescape_join_cons ht₂
  obtain ⟨t₄, hs₄, ht₄, rfl⟩ := unescape_join_cons ht₃
  obtain ⟨key, _, hkey, rfl⟩ := unescape_join_cons ht₄
  have hbucket : unescapeSegment s₄ ≠ [] := by
    intro hnil
    rw [hnil] at hs₄
    rw [hsplit, clean_append (by simp)] at hclean
    have hname := hclean.1 s₄ (by simp)
    rw [eq_nil_of_unescape hs₄, cleanKind_nil] at hname
    cases hname
  refine ⟨unescapeSegment s₄, key, hpattern, ?_, hbucket, ?_⟩
  · rw [hvalues.resolve_left hbucket, unescapeSegment_eq hkey]
  · rw [← hpath, h₁, h₂, h₃, h₅, fixed_paths.1]
    simp

/-! ### What the handlers do with the values -/

section
variable {use : KeyUse} {r : UIRequest} {m : Match (Option Endpoint)} {bucket key : Str}

theorem Keyed.target (h : Keyed use r m bucket key) : use.endpoint.target (routed r m) =
    if key ≠ [] then (bucket, some key)
    else (((cutStr use.separator (bucket ++ use.separator)).getD ([], [])).1,
      some ((cutStr use.separator (bucket ++ use.separator)).getD ([], [])).2) := by
  obtain ⟨hbucket, hkey⟩ := pathValue_keyed (r := r) h.pattern h.values
  rw [use.target_eq, routeOr, hbucket, hkey]
  by_cases hempty : key = []
  · have hurl : (routed r m).url.path = str "/api/v1/buckets/" ++ (bucket ++ use.separator) := by
      have hpath := h.path
      rw [hempty] at hpath
      exact hpath
    have hbelow : hasPrefix (str "/api/v1/buckets/" ++ (bucket ++ use.separator))
        (str "/api/v1/buckets/") = true :=
      List.isPrefixOf_iff_prefix.mpr (List.prefix_append _ _)
    rw [if_neg (fun hc => hc.2 hempty), if_neg (fun hc => hc hempty), extractAround, hurl,
      if_pos hbelow, List.drop_left]
  · rw [if_pos ⟨h.bucket_ne, hempty⟩, if_pos hempty]

def badRequest : Answer := writeError 400 (str "bad_request") (str "bucket and key required")

/-- What a program on a bucket and a key may be: it refuses an empty one, or makes at most
one call, on the two. -/
structure OnKey (bucket key : Str) (p : Prog Op Reply Answer) : Prop where
  refuses : p = .done badRequest ↔ bucket = [] ∨ key = []
  calls : ∀ op, p.Issues op → op.address = some (bucket, some key)

theorem onKey_guarded {groups : List Str} {bucket key method code message : Str} {ready : Bool}
    {op : Op} {next : Reply op → Prog Op Reply Answer} (ha : op.address = some (bucket, some key))
    (hnext : ∀ x, ∃ answer, next x = .done answer) :
    OnKey bucket key (if bucket = [] ∨ key = [] then .done badRequest
      else if !checkAccess groups bucket method then .done (writeError 403 code message)
      else if !ready then .done backendUnavailable
      else .call op next) := by
  have hdone : ∀ answer : Answer, answer.status ≠ 400 →
      (Prog.done answer : Prog Op Reply Answer) ≠ .done badRequest := by
    intro answer hstatus he
    rw [Prog.done.inj he] at hstatus
    exact hstatus rfl
  split_ifs with hempty hdenied hmissing
  · exact ⟨by simp [hempty], fun op hop => by cases hop⟩
  · have hstatus : (403 : ℕ) ≠ 400 := by decide
    exact ⟨iff_of_false (hdone _ hstatus) hempty, fun op hop => by cases hop⟩
  · have hstatus : (503 : ℕ) ≠ 400 := by decide
    exact ⟨iff_of_false (hdone _ hstatus) hempty, fun op hop => by cases hop⟩
  · refine ⟨iff_of_false (by simp) hempty, ?_⟩
    intro op' hop
    cases hop with
    | here => exact ha
    | later x hlater =>
        obtain ⟨answer, hanswer⟩ := hnext x
        rw [hanswer] at hlater
        cases hlater

theorem onKey_inner (cfg : UIConfig) (use : KeyUse) (r : UIRequest) :
    ∃ bucket key, use.endpoint.target r = (bucket, some key) ∧
      OnKey bucket key (cfg.inner use.endpoint r) := by
  cases use with
  | download =>
      refine ⟨_, _, rfl, onKey_guarded rfl fun out => ?_⟩
      cases out <;> exact ⟨_, rfl⟩
  | upload =>
      refine ⟨_, _, rfl, onKey_guarded rfl fun out => ?_⟩
      cases out <;> exact ⟨_, rfl⟩
  | remove =>
      refine ⟨_, _, rfl, onKey_guarded rfl fun out => ?_⟩
      cases out <;> exact ⟨_, rfl⟩
  | inspect =>
      refine ⟨_, _, rfl, onKey_guarded rfl fun out => ?_⟩
      cases out <;> exact ⟨_, rfl⟩

end

/-- A handler acts on its own route values: it takes them for bucket and key, calls the
backend on them alone, and refuses an empty key. -/
structure ActsOnRoute (cfg : UIConfig) (use : KeyUse) (r : UIRequest) (m : Match (Option Endpoint))
    (bucket key : Str) : Prop where
  target : key ≠ [] → use.endpoint.target (routed r m) = (bucket, some key)
  calls : ∀ op, (cfg.inner use.endpoint (routed r m)).Issues op →
    op.address = some (bucket, some key)
  empty : key = [] → cfg.inner use.endpoint (routed r m) = .done badRequest

/-- A dispatched request acts on its own route values exactly when its key is not empty or
the separator behind its bucket is not found too early. -/
theorem acts_on_route_iff (cfg : UIConfig) (use : KeyUse) (r : UIRequest)
    (m : Match (Option Endpoint)) (h : findHandler uiRoutes r.toRequest = .serve m)
    (hhandler : m.handler = some use.endpoint) :
    ∃ bucket key, m.values = [bucket, key] ∧
      (ActsOnRoute cfg use r m bucket key ↔ key ≠ [] ∨ ReadsBack use.separator bucket) := by
  obtain ⟨bucket, key, hkeyed⟩ := keyed_of_serve h hhandler
  obtain ⟨bucket', key', htarget, honkey⟩ := onKey_inner cfg use (routed r m)
  have hsep : use.separator ≠ [] := by simp [KeyUse.separator]
  have hroute := hkeyed.target
  rw [htarget] at hroute
  refine ⟨bucket, key, hkeyed.values, ?_⟩
  by_cases hempty : key = []
  · rw [if_neg (fun hc => hc hempty)] at hroute
    obtain ⟨rfl, hk⟩ := Prod.mk.inj hroute
    obtain rfl := Option.some.inj hk
    rw [or_iff_right (fun hc => hc hempty), readsBack_iff hsep, ← honkey.refuses]
    constructor
    · intro hacts
      exact hacts.empty hempty
    · intro hdone
      refine ⟨fun hc => absurd hempty hc, ?_, fun _ => hdone⟩
      intro op hop
      rw [hdone] at hop
      cases hop
  · rw [if_pos hempty] at hroute
    obtain ⟨rfl, hk⟩ := Prod.mk.inj hroute
    obtain rfl := Option.some.inj hk
    exact ⟨fun _ => Or.inl hempty,
      fun _ => ⟨fun _ => htarget, honkey.calls, fun hc => absurd hc hempty⟩⟩

/-- A delete as the router hands it on acts on its values. -/
theorem acts_on_route_removeArrival :
    ∃ m bucket key, findHandler uiRoutes removeArrival.request.toRequest = .serve m ∧
      m.values = [bucket, key] ∧
      (ActsOnRoute openAPI .remove removeArrival.request m bucket key ↔
        key ≠ [] ∨ ReadsBack KeyUse.remove.separator bucket) := by
  obtain ⟨m, hserve, hhandler, _⟩ := removeArrival_dispatched
  obtain ⟨bucket, key, hvalues, hiff⟩ :=
    acts_on_route_iff openAPI .remove removeArrival.request m hserve hhandler
  exact ⟨m, bucket, key, hserve, hvalues, hiff⟩

/-- A download without a key from a bucket with an encoded separator in its name. -/
def foldedGet : UIRequest :=
  { requestOf (str "GET") (str "/api/v1/buckets/a%2Fobjects%2Fb/objects/") [] with
    identity := some { claims := [], username := [], groups := [str "a-ro"] } }

theorem foldedGet_acts_elsewhere :
    ∃ m, findHandler uiRoutes foldedGet.toRequest = .serve m ∧ m.handler = some .getObject ∧
      m.values = [str "a/objects/b", []] ∧
      (openAPI.inner .getObject (routed foldedGet m)).nextCall =
        some (.getObject (str "a") (str "b/objects/")) ∧
      ¬∀ (cfg : UIConfig) (use : KeyUse) (r : UIRequest) (m : Match (Option Endpoint)),
        findHandler uiRoutes r.toRequest = .serve m → m.handler = some use.endpoint →
          ∃ bucket key, m.values = [bucket, key] ∧ ActsOnRoute cfg use r m bucket key := by
  have hserve : findHandler uiRoutes foldedGet.toRequest =
      .serve ⟨⟨str "GET", keyedSegments (str "objects")⟩, some .getObject,
        [str "a/objects/b", []]⟩ := by
    rw [uiRoutes_eq]
    decide +kernel
  have hcall : (openAPI.inner .getObject (routed foldedGet
      ⟨⟨str "GET", keyedSegments (str "objects")⟩, some .getObject,
        [str "a/objects/b", []]⟩)).nextCall = some (.getObject (str "a") (str "b/objects/")) := by
    decide +kernel
  refine ⟨_, hserve, rfl, rfl, hcall, ?_⟩
  intro h
  obtain ⟨bucket, key, hvalues, hacts⟩ := h openAPI .download foldedGet _ hserve rfl
  obtain ⟨_, hkey⟩ := List.cons.inj hvalues
  have hdone := hacts.empty (List.cons.inj hkey).1.symm
  have hnone : some (Op.getObject (str "a") (str "b/objects/")) = none :=
    hcall.symm.trans (congrArg Prog.nextCall hdone)
  cases hnone

end PierGateway.WebUI
