import PierGateway.SpaClient
import PierGateway.VisiblePaths

/-!
# Object keys from the application to the handler

Bucket and key travel as segments of a path that is escaped by the application,
rewritten by the browser, cleaned and redirected by the router, and unescaped when it
is matched. A key arrives as it was exactly when the browser and the router find
nothing in it to remove: the bucket is a name, no segment of the key is a dot segment
and none but the last is empty. Otherwise the request may still end at a handler, but
with another bucket or key.
-/
namespace PierGateway.WebUI
open GoStrings NetUrl UrlLaws HttpMessages Interaction DotSegments ServeMux PercentEncoding
  CleanPaths VisiblePaths

/-! ### Encoded segments -/

theorem component_marks : componentByte percent = false ∧ componentByte dot = true ∧
    validEncodedByte percent = true ∧ ∀ d ∈ str "-_.!~*'()", validEncodedByte d = true := by
  decide +kernel

theorem componentByte_percent : componentByte percent = false := component_marks.1

/-- What the encoding leaves alone may stand in a path. -/
theorem validEncodedByte_of_componentByte {c : UInt8} (h : componentByte c = true) :
    validEncodedByte c = true := by
  unfold componentByte at h
  rw [Bool.or_eq_true, decide_eq_true_eq] at h
  exact h.elim validEncodedByte_of_isAlnum (component_marks.2.2.2 c)

theorem validEncoded_encode (t : Str) : validEncoded (encodeURIComponent t) = true := by
  have hkeep : ∀ c, componentByte c = true → validEncodedByte c = true :=
    fun _ => validEncodedByte_of_componentByte
  have hhex : ∀ n, validEncodedByte (upperHex (n / 16)) = true ∧
      validEncodedByte (upperHex (n % 16)) = true := by
    intro n
    obtain ⟨h₁, h₂⟩ := isAlnum_upperHex n
    exact ⟨validEncodedByte_of_isAlnum h₁, validEncodedByte_of_isAlnum h₂⟩
  rw [validEncoded, List.all_eq_true]
  intro c hc
  exact forall_percentEncode hkeep component_marks.2.2.1 hhex hc

theorem encode_dots :
    encodeURIComponent [dot] = [dot] ∧ encodeURIComponent [dot, dot] = [dot, dot] := by
  simp [encodeURIComponent, percentEncode, percentEncodeByte, component_marks.2.1]

theorem visible_encode {t : Str} (ht : slash ∉ t) :
    Visible (encodeURIComponent t) ∧ unescapeSegment (encodeURIComponent t) = t :=
  visible_of_encoder (unescape_percentEncode componentByte_percent) validEncoded_encode
    encode_dots.1 encode_dots.2 ht

/-- Dots are not escaped: a byte written as `%2e` would be one. -/
theorem ne_escapedDot {c : UInt8} (hc : componentByte c = false) :
    ¬(upperHex (c / 16) = 0x32 ∧ (upperHex (c % 16) = 0x65 ∨ upperHex (c % 16) = 0x45)) := by
  intro ⟨hhigh, hlow⟩
  have hbyte := (unhex_upperHex c).2.2
  have hc' : c = dot := by
    rw [← hbyte, hhigh]
    cases hlow with
    | inl h => rw [h]; rfl
    | inr h => rw [h]; rfl
  rw [hc', component_marks.2.1] at hc
  cases hc

theorem writeDots_cons {c : UInt8} (hc : c ≠ percent) (s : Str) :
    writeDots (c :: s) = c :: writeDots s := by
  rcases s with _ | ⟨a, _ | ⟨b, s⟩⟩
  · rfl
  · rfl
  · rw [writeDots, if_neg fun h => hc h.1]

theorem writeDots_encode (t : Str) : writeDots (encodeURIComponent t) = encodeURIComponent t := by
  have hhex : ∀ c, upperHex (c / 16) ≠ percent ∧ upperHex (c % 16) ≠ percent := by
    intro c
    obtain ⟨h₁, h₂⟩ := isAlnum_upperHex c
    exact ⟨ne_of_isAlnum h₁ (by decide), ne_of_isAlnum h₂ (by decide)⟩
  have hcons : ∀ c t, encodeURIComponent (c :: t) =
      percentEncodeByte componentByte c ++ encodeURIComponent t := percentEncode_cons componentByte
  induction t with
  | nil => rfl
  | cons c t ih =>
      rw [hcons]
      cases hc : componentByte c with
      | true =>
          have hp : c ≠ percent := by
            intro he
            rw [he, componentByte_percent] at hc
            cases hc
          have hbyte : percentEncodeByte componentByte c = [c] := if_pos hc
          rw [hbyte, List.singleton_append, writeDots_cons hp, ih]
      | false =>
          have hbyte : percentEncodeByte componentByte c =
              [percent, upperHex (c / 16), upperHex (c % 16)] := if_neg (by simp [hc])
          rw [hbyte]
          simp only [List.cons_append, List.nil_append]
          rw [writeDots, if_neg fun h => ne_escapedDot hc h.2, writeDots_cons (hhex c).1,
            writeDots_cons (hhex c).2, ih]

theorem browserKind_encode (t : Str) : browserKind (encodeURIComponent t) = dotKind t := by
  unfold browserKind
  rw [writeDots_encode]
  exact dotKind_comp (percentEncode_injective componentByte_percent) encode_dots.1 encode_dots.2 t

/-! ### The path of the application -/

/-- The segments of a request for a key, before they are encoded. -/
def KeyUse.segments (use : KeyUse) (bucket key : Str) : List Str :=
  [str "api", str "v1", str "buckets", bucket, use.directory] ++ split slash key

theorem KeyUse.segments_ne_nil (use : KeyUse) (bucket key : Str) :
    use.segments bucket key ≠ [] := by
  simp [KeyUse.segments]

theorem KeyUse.fixed_names (use : KeyUse) :
    use.method ≠ str "CONNECT" ∧
      ∀ s ∈ [str "api", str "v1", str "buckets", use.directory], slash ∉ s ∧
          cleanKind s = .name := by
  have hall : ∀ u ∈ [KeyUse.download, .upload, .remove, .inspect], u.method ≠ str "CONNECT" ∧
      ∀ s ∈ [str "api", str "v1", str "buckets", u.directory], slash ∉ s ∧ cleanKind s = .name := by
    decide +kernel
  exact hall use (by cases use <;> simp)

theorem KeyUse.mem_segments {use : KeyUse} {bucket key s : Str} (hs : s ∈ use.segments bucket key) :
    s ∈ [str "api", str "v1", str "buckets", use.directory] ∨ s = bucket ∨ s ∈ split slash key := by
  simp only [KeyUse.segments, List.mem_append, List.mem_cons, List.not_mem_nil, or_false] at hs ⊢
  tauto

theorem KeyUse.slash_not_mem_segments (use : KeyUse) {bucket key : Str} (hb : slash ∉ bucket) :
    ∀ s ∈ use.segments bucket key, slash ∉ s := by
  intro s hs
  obtain hfixed | rfl | hkey := KeyUse.mem_segments hs
  · exact (use.fixed_names.2 s hfixed).1
  · exact hb
  · exact not_mem_of_mem_split hkey

/-- The literals of the path builders and of the handlers are the fixed names between slashes. -/
theorem fixed_paths :
    str "/api/v1/buckets/" = slash :: (str "api" ++ slash ::
        (str "v1" ++ slash :: (str "buckets" ++ [slash]))) ∧
      str "/objects/" = slash :: (str "objects" ++ [slash]) ∧
      str "/meta/" = slash :: (str "meta" ++ [slash]) ∧
      ∀ s ∈ [str "api", str "v1", str "buckets", str "objects", str "meta"],
        encodeURIComponent s = s := by
  decide +kernel

theorem KeyUse.path_eq (use : KeyUse) (bucket key : Str) :
    use.path bucket key = ofSegments ((use.segments bucket key).map encodeURIComponent) := by
  obtain ⟨s, rest, hkey⟩ := List.exists_cons_of_ne_nil (split_ne_nil slash key)
  obtain ⟨hroot, hobjects, hmeta, hencode⟩ := fixed_paths
  have hdirectory : encodeURIComponent use.directory = use.directory :=
    hencode _ (by cases use <;> simp [KeyUse.directory])
  have hdir : use.path bucket key = str "/api/v1/buckets/" ++ encodeURIComponent bucket ++
      slash :: (use.directory ++ slash :: encodeKey key) := by
    cases use <;>
      simp [KeyUse.path, KeyUse.directory, buildObjectPath, buildMetaPath, hobjects, hmeta]
  rw [hdir, hroot]
  simp [KeyUse.segments, ofSegments, encodeKey, hkey, join_cons_cons, hdirectory, hencode]

/-! ### What the browser sends -/

theorem browserSegments_ne_nil {segs : List Str} (hne : segs ≠ []) : browserSegments segs ≠ [] := by
  rcases List.eq_nil_or_concat segs with rfl | ⟨init, last, rfl⟩
  · exact absurd rfl hne
  · rw [List.concat_eq_append]
    unfold browserSegments
    by_cases hl : browserKind last = .name
    · rw [resolve_append_name hl]
      simp
    · rw [List.getLast?_concat, if_pos ⟨last, rfl, hl⟩]
      simp

theorem visible_browserSegments {segs : List Str} (hv : ∀ s ∈ segs, Visible s) :
    ∀ s ∈ browserSegments segs, Visible s := by
  intro s hs
  unfold browserSegments at hs
  rcases List.mem_append.mp hs with hs | hs
  · exact hv s (mem_resolve hs).1
  · split_ifs at hs
    · rw [List.mem_singleton.mp hs]
      exact visible_nil
    · cases hs

theorem browserSegments_of_names {segs : List Str} (h : ∀ s ∈ segs, browserKind s = .name) :
    browserSegments segs = segs := by
  unfold browserSegments
  rw [resolve_of_names h, if_neg, List.append_nil]
  intro hlast
  obtain ⟨s, hs, hk⟩ := hlast
  exact hk (h s (List.mem_of_getLast? hs))

theorem requestTarget_ofSegments {segs : List Str} (hne : segs ≠ []) (hv : ∀ s ∈ segs, Visible s) :
    requestTarget (ofSegments segs) = ofSegments (browserSegments segs) := by
  have hbytes : ∀ c ∈ ofSegments segs, c ≠ sharp ∧ c ≠ question ∧ isCtl c = false := fun c hc =>
    validEncodedByte_ne (List.all_eq_true.mp (validEncoded_ofSegments hv) c hc)
  have hsharp : sharp ∉ ofSegments segs := fun h => (hbytes _ h).1 rfl
  have hquestion : question ∉ ofSegments segs := fun h => (hbytes _ h).2.1 rfl
  have hsegs : segments (ofSegments segs) = segs :=
    segments_join hne fun s hs => (hv s hs).slash_not_mem
  unfold requestTarget
  rw [cut_of_not_mem sharp hsharp, cut_of_not_mem question hquestion]
  dsimp only
  unfold browserPath
  rw [hsegs]

/-! ### One request and its redirects -/

/-- A request for a visible path, as the router sees it. -/
theorem exists_requestURL (method : Str) {segs : List Str} (hne : segs ≠ [])
    (hv : ∀ s ∈ segs, Visible s) :
    ∃ u, requestURL method (requestTarget (ofSegments segs)) = some u ∧
      u.path = ofSegments ((browserSegments segs).map unescapeSegment) ∧
      u.escapedPath = ofSegments (browserSegments segs) ∧ u.rawQuery = [] := by
  have hsent := visible_browserSegments hv
  rw [requestTarget_ofSegments hne hv]
  exact requestURL_path method rfl (validEncoded_ofSegments hsent) (unescape_ofSegments hsent)

theorem visible_cleanSegments {segs : List Str} (hv : ∀ s ∈ segs, Visible s) :
    ∀ s ∈ cleanSegments segs, Visible s := by
  intro s hs
  rcases mem_cleanSegments hs with rfl | hs
  · exact visible_nil
  · exact hv s hs.1

theorem redirect_visible {H : Type} {routes : List (Pattern × H)} {r : Request} {location : Str}
    {segs : List Str} (hne : segs ≠ []) (hv : ∀ s ∈ segs, Visible s)
    (hpath : r.url.path = ofSegments (segs.map unescapeSegment))
    (hescaped : r.url.escapedPath = ofSegments segs) (hquery : r.url.rawQuery = [])
    (h : findHandler routes r = .redirect location) :
    ∃ segs', segs' ≠ [] ∧ (∀ s ∈ segs', Visible s) ∧ location = ofSegments segs' := by
  have hslash : ∀ s ∈ segs, slash ∉ s := fun s hs => (hv s hs).slash_not_mem
  rcases findHandler_redirect h with rfl | ⟨rfl, hclean⟩
  · -- a slash is added to the cleaned decoded path, and the result is escaped again
    have hplain : ∀ s ∈ segs.map unescapeSegment, slash ∉ s := by
      intro s hs
      obtain ⟨t, ht, rfl⟩ := List.mem_map.mp hs
      exact (hv t ht).noSlash
    have hclean : cleanPath r.url.path = ofSegments (cleanSegments (segs.map unescapeSegment)) := by
      rw [hpath]
      exact cleanPath_ofSegments (by simpa using hne) hplain
    refine ⟨(cleanSegments (segs.map unescapeSegment) ++ [[]]).map (escape .path), by simp, ?_, ?_⟩
    · intro s hs
      obtain ⟨t, ht, rfl⟩ := List.mem_map.mp hs
      refine (visible_escape ?_).1
      rcases List.mem_append.mp ht with ht | ht
      · rcases mem_cleanSegments ht with rfl | ht
        · exact List.not_mem_nil
        · exact hplain t ht.1
      · rw [List.mem_singleton.mp ht]
        exact List.not_mem_nil
    · rw [hclean, hquery, withQuery, if_pos rfl, ← escape_ofSegments, ofSegments, ofSegments,
        join_append_singleton slash _ _ (cleanSegments_ne_nil _)]
      rfl
  · -- the cleaned path is escaped once more
    have hcleaned : matchedPath r = ofSegments (cleanSegments segs) := by
      unfold matchedPath at hclean ⊢
      split_ifs at hclean ⊢
      · exact absurd rfl hclean
      · rw [hescaped, cleanPath_ofSegments hne hslash]
    refine ⟨(cleanSegments segs).map (escape .path),
      by simpa using cleanSegments_ne_nil segs, ?_, ?_⟩
    · intro s hs
      obtain ⟨t, ht, rfl⟩ := List.mem_map.mp hs
      exact (visible_escape (visible_cleanSegments hv t ht).slash_not_mem).1
    · rw [hquery, withQuery, if_pos rfl, hcleaned, escape_ofSegments]

/-- The request that ends at a handler is for a visible path, after any number of redirects. -/
theorem follow_serve {method : Str} {header : Header} {requests : ℕ} {segs : List Str} {r : Request}
    {m : Match (Option Endpoint)} (hne : segs ≠ []) (hv : ∀ s ∈ segs, Visible s)
    (h : follow method header requests (ofSegments segs) = some (r, m)) :
    r.method = method ∧ findHandler uiRoutes r = .serve m ∧
      ∃ segs', segs' ≠ [] ∧ (∀ s ∈ segs', Visible s) ∧
        r.url.path = ofSegments (segs'.map unescapeSegment) ∧
        r.url.escapedPath = ofSegments segs' := by
  induction requests generalizing segs with
  | zero => cases h
  | succ requests ih =>
      obtain ⟨u, hu, hpath, hescaped, hquery⟩ := exists_requestURL method hne hv
      have hsent := visible_browserSegments hv
      have hsentne := browserSegments_ne_nil hne
      rw [follow, hu] at h
      dsimp only at h
      cases hfind : findHandler uiRoutes (sendTo method header u) with
      | serve m' =>
          rw [hfind] at h
          obtain ⟨rfl, rfl⟩ := Prod.mk.inj (Option.some.inj h)
          exact ⟨rfl, hfind, browserSegments segs, hsentne, hsent, hpath, hescaped⟩
      | redirect location =>
          rw [hfind] at h
          obtain ⟨segs', hne', hv', rfl⟩ := redirect_visible (r := sendTo method header u) hsentne
            hsent hpath hescaped hquery hfind
          exact ih hne' hv' h
      | methodNotAllowed allow =>
          rw [hfind] at h
          cases h
      | notFound =>
          rw [hfind] at h
          cases h

/-! ### What the handler finds -/

theorem extractAround_segments (use : KeyUse) {bucket : Str} (hb : slash ∉ bucket) (key : Str) :
    extractAround (slash :: (use.directory ++ [slash])) (ofSegments (use.segments bucket key)) =
      (bucket, key) := by
  obtain ⟨s, rest, hkey⟩ := List.exists_cons_of_ne_nil (split_ne_nil slash key)
  have hjoin : join slash (s :: rest) = key := by rw [← hkey, join_split]
  have hpath : ofSegments (use.segments bucket key) =
      str "/api/v1/buckets/" ++ (bucket ++ slash :: (use.directory ++ [slash] ++ key)) := by
    rw [fixed_paths.1]
    simp [KeyUse.segments, ofSegments, hkey, join_cons_cons, hjoin]
  have hbelow : ∀ s, hasPrefix (str "/api/v1/buckets/" ++ s) (str "/api/v1/buckets/") = true :=
    fun s => List.isPrefixOf_iff_prefix.mpr (List.prefix_append _ s)
  unfold extractAround
  dsimp only
  rw [hpath, if_pos (hbelow _), List.drop_left, cutStr_append slash _ hb]
  rfl

theorem pathValue_keyed {directory : Str} {r : UIRequest} {m : Match (Option Endpoint)}
    {bucket key : Str} (hpattern : m.pattern.segments = keyedSegments directory)
    (hvalues : m.values = [bucket, key]) :
    (routed r m).pathValue (str "bucket") = bucket ∧ (routed r m).pathValue (str "key") = key := by
  have hne : (str "key" == str "bucket") = false := by simp
  have hwild : m.pathValues = [(str "bucket", bucket), (str "key", key)] := by
    unfold Match.pathValues Pattern.wildcards
    rw [hpattern, hvalues]
    simp [keyedSegments, apiRoot]
  constructor
  · simp [UIRequest.pathValue, routed, hwild]
  · simp [UIRequest.pathValue, routed, hwild, List.lookup_cons, hne]

/-- The separator a use splits the path at. -/
def KeyUse.separator (use : KeyUse) : Str := slash :: (use.directory ++ [slash])

theorem KeyUse.target_eq (use : KeyUse) (r : UIRequest) :
    use.endpoint.target r = ((routeOr (extractAround use.separator) r).1,
      some (routeOr (extractAround use.separator) r).2) := by
  obtain ⟨_, hobjects, hmeta, _⟩ := fixed_paths
  cases use with
  | inspect =>
      unfold separator directory
      rw [← hmeta]
      rfl
  | _ =>
      unfold separator directory
      rw [← hobjects]
      rfl

theorem KeyUse.target_routed (use : KeyUse) {r : UIRequest} {m : Match (Option Endpoint)}
    {bucket key : Str} (hb : slash ∉ bucket)
    (hpattern : m.pattern.segments = keyedSegments use.directory)
    (hvalues : m.values = [bucket, key])
    (hpath : r.url.path = ofSegments (use.segments bucket key)) :
    use.endpoint.target (routed r m) = (bucket, some key) := by
  obtain ⟨hbucket, hkeyValue⟩ := pathValue_keyed (r := r) hpattern hvalues
  have hroute : routeOr (extractAround use.separator) (routed r m) = (bucket, key) := by
    unfold routeOr
    rw [hbucket, hkeyValue]
    split_ifs
    · rfl
    · have hurl : (routed r m).url.path = ofSegments (use.segments bucket key) := hpath
      rw [hurl]
      exact extractAround_segments use hb key
  rw [use.target_eq, hroute]

/-! ### Keys that arrive -/

/-- The bucket is a name, and the key has no segment that cleaning would remove. -/
def Transparent (bucket key : Str) : Prop := cleanKind bucket = .name ∧ Clean (split slash key)

/-- A path that fits a route on keys: three literals, the bucket, the directory and the rest. -/
theorem fits_keyed {a b c d bucketName keyName : Str} {segs values : List Str}
    (hname : keyName ≠ [])
    (h : Fits [.literal a, .literal b, .literal c, .single bucketName, .literal d,
      .multi keyName] segs
      values) :
    ∃ s₁ s₂ s₃ s₄ s₅ s₆ rest, segs = [s₁, s₂, s₃, s₄, s₅] ++ s₆ :: rest ∧
      unescapeSegment s₁ = a ∧ unescapeSegment s₂ = b ∧ unescapeSegment s₃ = c ∧
      unescapeSegment s₅ = d ∧
      (unescapeSegment s₄ = [] ∨
        values = [unescapeSegment s₄, unescapeSegment (join slash (s₆ :: rest))]) := by
  cases h with
  | literal h₁ h =>
      cases h with
      | literal h₂ h =>
          cases h with
          | literal h₃ h =>
              cases h with
              | single h₄ h =>
                  cases h with
                  | literal h₅ h =>
                      cases h with
                      | trailing => exact absurd rfl hname
                      | multi =>
                          rw [firstSegment_of_ne_nil (by simp)] at h₁ h₂ h₃ h₄ h₅
                          exact ⟨_, _, _, _, _, _, _, rfl, h₁, h₂, h₃, h₅, .inr (by rw [h₄])⟩
              | blank h₄ h =>
                  cases h with
                  | literal h₅ h =>
                      cases h with
                      | trailing => exact absurd rfl hname
                      | multi =>
                          rw [firstSegment_of_ne_nil (by simp)] at h₁ h₂ h₃ h₄ h₅
                          exact ⟨_, _, _, _, _, _, _, rfl, h₁, h₂, h₃, h₅, .inl h₄⟩

/-- The tree of a method, followed down the literals of a route on keys. -/
def KeyUse.bucketsNode (use : KeyUse) : Node (Option Endpoint) :=
  (((methodChild uiRoutes use.method).findChild (str "api")).findChild (str "v1")).findChild
    (str "buckets")

/-- The node below the bucket and the directory. -/
def KeyUse.keysNode (use : KeyUse) : Node (Option Endpoint) :=
  use.bucketsNode.emptyChild.findChild use.directory

/-- The route of a use is the only one to its handler, and the only way on at its nodes. -/
theorem KeyUse.route_facts (use : KeyUse) :
    (∀ p ∈ uiRoutes, p.2 = some use.endpoint → p.1 = ⟨use.method, keyedSegments use.directory⟩) ∧
      use.bucketsNode.noLiteral = true ∧ use.keysNode.noLiteral = true ∧
      use.keysNode.emptyChild = [] ∧
      use.keysNode.multiChild =
        some (str "key", ⟨use.method, keyedSegments use.directory⟩, some use.endpoint) := by
  have hall : ∀ u ∈ [KeyUse.download, .upload, .remove, .inspect],
      (∀ p ∈ uiRoutes, p.2 = some u.endpoint → p.1 = ⟨u.method, keyedSegments u.directory⟩) ∧
        u.bucketsNode.noLiteral = true ∧ u.keysNode.noLiteral = true ∧
        u.keysNode.emptyChild = [] ∧
        u.keysNode.multiChild =
          some (str "key", ⟨u.method, keyedSegments u.directory⟩, some u.endpoint) := by
    simp only [KeyUse.bucketsNode, KeyUse.keysNode, uiRoutes_eq]
    decide +kernel
  exact hall use (by cases use <;> simp)

/-- Whatever was requested, a handler only ever finds a transparent bucket and key. -/
theorem Reaches.transparent {use : KeyUse} {header : Header} {segs : List Str} {bucket key : Str}
    (hne : segs ≠ []) (hv : ∀ s ∈ segs, Visible s)
    (h : Reaches use header (ofSegments segs) bucket key) : Transparent bucket key := by
  obtain ⟨r, m, hfollow, hhandler, htarget⟩ := h
  obtain ⟨hmethod, hserve, segs', hne', hv', hpath, hescaped⟩ := follow_serve hne hv hfollow
  obtain ⟨hroute, hfits, hmatched⟩ := findHandler_serve hserve
  have hslash : ∀ s ∈ segs', slash ∉ s := fun s hs => (hv' s hs).slash_not_mem
  have hpattern : m.pattern.segments = keyedSegments use.directory :=
    congrArg Pattern.segments (use.route_facts.1 _ hroute hhandler)
  have hclean : Clean segs' := by
    unfold matchedPath at hmatched
    rw [if_neg (by rw [hmethod]; exact use.fixed_names.1), hescaped] at hmatched
    exact (cleanPath_eq_self_iff hne' hslash).mp hmatched
  rw [hescaped, rawSegments_ofSegments hne' hv', hpattern] at hfits
  obtain ⟨s₁, s₂, s₃, s₄, s₅, s₆, rest, rfl, h₁, h₂, h₃, h₅, hvalues⟩ := fits_keyed (by simp) hfits
  obtain ⟨hnames, hrest⟩ := (clean_append (by simp)).mp hclean
  have hv₄ := hv' s₄ (by simp)
  have hname : cleanKind (unescapeSegment s₄) = .name :=
    hv₄.cleanKind_eq.trans (hnames s₄ (by simp))
  have hvrest : ∀ s ∈ s₆ :: rest, Visible s := fun s hs => hv' s (List.mem_append_right _ hs)
  have hjoin := unescapeSegment_join hvrest
  have hsplit : split slash (unescapeSegment (join slash (s₆ :: rest))) =
      (s₆ :: rest).map unescapeSegment := by
    rw [hjoin]
    refine split_join slash (by simp) ?_
    intro s hs
    obtain ⟨t, ht, rfl⟩ := List.mem_map.mp hs
    exact (hvrest t ht).noSlash
  have hvalues' : m.values = [unescapeSegment s₄, unescapeSegment (join slash (s₆ :: rest))] := by
    refine hvalues.resolve_left fun hnil => ?_
    rw [hnil, cleanKind_nil] at hname
    cases hname
  have hurl : r.url.path = ofSegments
      (use.segments (unescapeSegment s₄) (unescapeSegment (join slash (s₆ :: rest)))) := by
    rw [hpath, KeyUse.segments, hsplit]
    simp [h₁, h₂, h₃, h₅]
  have hfound := use.target_routed (r := { toRequest := r }) hv₄.noSlash hpattern hvalues' hurl
  obtain ⟨rfl, hk⟩ := Prod.mk.inj (hfound.symm.trans htarget)
  obtain rfl := Option.some.inj hk
  constructor
  · exact hname
  · rw [hsplit]
    exact (clean_map hvrest).mpr hrest

/-! ### Transparent keys arrive -/

/-- What a path of a bucket and a key is matched to. -/
theorem KeyUse.matchMethodAndPath_eq (use : KeyUse) {path s₁ s₂ s₃ s₄ s₅ s₆ : Str} {rest : List Str}
    (hpath : rawSegments path = [s₁, s₂, s₃, s₄, s₅] ++ s₆ :: rest)
    (h₁ : unescapeSegment s₁ = str "api") (h₂ : unescapeSegment s₂ = str "v1")
    (h₃ : unescapeSegment s₃ = str "buckets") (h₄ : unescapeSegment s₄ ≠ [])
    (hslash : slash ∉ unescapeSegment s₄) (h₅ : unescapeSegment s₅ = use.directory) :
    matchMethodAndPath uiRoutes use.method path =
      some ⟨⟨use.method, keyedSegments use.directory⟩, some use.endpoint,
        [unescapeSegment s₄, unescapeSegment (join slash (s₆ :: rest))]⟩ := by
  obtain ⟨-, hbuckets, hliteral, hempty, hmulti⟩ := use.route_facts
  have hchildren : ∀ s, use.keysNode.findChild s = [] := by
    intro s
    unfold Node.findChild
    split_ifs
    · exact hempty
    · exact Node.literalChild_eq_nil hliteral s
  have hbucket : use.bucketsNode.findChild (unescapeSegment s₄) = [] := by
    unfold Node.findChild
    rw [if_neg h₄]
    exact Node.literalChild_eq_nil hbuckets _
  have hself : unescapeSegment s₄ ≠ [slash] :=
    fun he => hslash (by rw [he]; exact List.mem_cons_self)
  have hfirst : ∀ {seg s t : Str} {rest : List Str}, unescapeSegment seg = s →
      firstSegment seg (t :: rest) = s := fun h => (firstSegment_of_ne_nil (by simp)).trans h
  have hmatch : matchPath (methodChild uiRoutes use.method) []
      (s₁ :: s₂ :: s₃ :: s₄ :: s₅ :: s₆ :: rest) =
        some ⟨⟨use.method, keyedSegments use.directory⟩, some use.endpoint,
          [] ++ [unescapeSegment s₄] ++ [unescapeSegment (join slash (s₆ :: rest))]⟩ := by
    refine matchPath_child (hfirst h₁) ?_
    refine matchPath_child (hfirst h₂) ?_
    refine matchPath_child (hfirst h₃) ?_
    refine matchPath_single (hfirst rfl) hbucket hself ?_
    refine matchPath_child (hfirst h₅) ?_
    exact matchPath_multi (by simp) hchildren hempty hmulti
  unfold matchMethodAndPath
  rw [hpath]
  simp only [List.cons_append, List.nil_append]
  rw [hmatch]
  rfl

theorem Transparent.clean_segments (use : KeyUse) {bucket key : Str} (h : Transparent bucket key) :
    Clean (use.segments bucket key) := by
  refine (clean_append (split_ne_nil slash key)).mpr ⟨?_, h.2⟩
  intro s hs
  simp only [List.mem_cons, List.not_mem_nil, or_false] at hs
  obtain rfl | rfl | rfl | rfl | rfl := hs
  · exact (use.fixed_names.2 _ (by simp)).2
  · exact (use.fixed_names.2 _ (by simp)).2
  · exact (use.fixed_names.2 _ (by simp)).2
  · exact h.1
  · exact (use.fixed_names.2 _ (by simp)).2

section
variable (use : KeyUse) {bucket key : Str}

/-- The path of the application, segment by segment. -/
def KeyUse.encodedSegments (bucket key : Str) : List Str :=
  (use.segments bucket key).map encodeURIComponent

theorem KeyUse.encodedSegments_ne_nil : use.encodedSegments bucket key ≠ [] := by
  simpa [KeyUse.encodedSegments] using use.segments_ne_nil bucket key

theorem KeyUse.visible_encodedSegments (hb : slash ∉ bucket) :
    ∀ s ∈ use.encodedSegments bucket key, Visible s := by
  intro s hs
  obtain ⟨t, ht, rfl⟩ := List.mem_map.mp hs
  exact (visible_encode (use.slash_not_mem_segments hb t ht)).1

theorem map_unescape_encode {segs : List Str} (h : ∀ s ∈ segs, slash ∉ s) :
    (segs.map encodeURIComponent).map unescapeSegment = segs := by
  induction segs with
  | nil => rfl
  | cons s segs ih =>
      have hs := (visible_encode (h s List.mem_cons_self)).2
      have hsegs := ih fun t ht => h t (List.mem_cons_of_mem _ ht)
      rw [List.map_cons, List.map_cons, hs, hsegs]

/-- What the router makes of the path of the application, also with more segments after it. -/
theorem KeyUse.matchMethodAndPath_encoded (key : Str) (hb : slash ∉ bucket) (hne : bucket ≠ [])
    (more : List Str) (hmore : ∀ s ∈ more, Visible s) :
    ∃ values, matchMethodAndPath uiRoutes use.method
        (ofSegments (use.encodedSegments bucket key ++ more)) =
          some ⟨⟨use.method, keyedSegments use.directory⟩, some use.endpoint, values⟩ ∧
      (more = [] → values = [bucket, key]) := by
  obtain ⟨s, rest, hkey⟩ := List.exists_cons_of_ne_nil (split_ne_nil slash key)
  have hplain : ∀ s ∈ use.segments bucket key, slash ∉ s := use.slash_not_mem_segments hb
  have hdecode : ∀ t, slash ∉ t → unescapeSegment (encodeURIComponent t) = t :=
    fun t ht => (visible_encode ht).2
  have hfixed : ∀ t ∈ [str "api", str "v1", str "buckets", use.directory],
      unescapeSegment (encodeURIComponent t) = t := fun t ht => hdecode t (use.fixed_names.2 t ht).1
  have hbucket := hdecode bucket hb
  have hv : ∀ s ∈ use.encodedSegments bucket key ++ more, Visible s :=
    List.forall_mem_append.mpr ⟨use.visible_encodedSegments hb, hmore⟩
  have hraw : rawSegments (ofSegments (use.encodedSegments bucket key ++ more)) =
      [encodeURIComponent (str "api"), encodeURIComponent (str "v1"),
        encodeURIComponent (str "buckets"), encodeURIComponent bucket,
        encodeURIComponent use.directory] ++
        encodeURIComponent s :: (rest.map encodeURIComponent ++ more) := by
    rw [rawSegments_ofSegments (by simp [use.encodedSegments_ne_nil]) hv]
    simp [KeyUse.encodedSegments, KeyUse.segments, hkey]
  have hmatch := use.matchMethodAndPath_eq hraw (hfixed _ (by simp)) (hfixed _ (by simp))
    (hfixed _ (by simp)) (by rwa [hbucket]) (by rwa [hbucket]) (hfixed _ (by simp))
  refine ⟨_, hmatch, ?_⟩
  rintro rfl
  have hkeySegs : ∀ t ∈ s :: rest, slash ∉ t := fun t ht => not_mem_of_mem_split (hkey ▸ ht)
  have hvisible : ∀ t ∈ (s :: rest).map encodeURIComponent, Visible t := by
    intro t ht
    obtain ⟨t', ht', rfl⟩ := List.mem_map.mp ht
    exact (visible_encode (hkeySegs t' ht')).1
  have hvalue : unescapeSegment (join slash ((s :: rest).map encodeURIComponent)) = key := by
    rw [unescapeSegment_join hvisible, map_unescape_encode hkeySegs, ← hkey, join_split]
  rw [hbucket, List.append_nil, ← List.map_cons, hvalue]

/-- There is no redirect to the path with a slash added: its last wildcard is not empty. -/
theorem KeyUse.slashRedirect_encoded (hb : slash ∉ bucket) (hne : bucket ≠ []) (u : URL) :
    slashRedirect uiRoutes use.method (ofSegments (use.encodedSegments bucket key)) u = none := by
  have hv : ∀ s ∈ use.encodedSegments bucket key, Visible s := use.visible_encodedSegments hb
  obtain ⟨values, hmatch, -⟩ :=
    use.matchMethodAndPath_encoded key hb hne [[]] (by simp [visible_nil])
  have hslashed : ofSegments (use.encodedSegments bucket key) ++ [slash] =
      ofSegments (use.encodedSegments bucket key ++ [[]]) := by
    rw [ofSegments, ofSegments, join_append_singleton slash _ _ use.encodedSegments_ne_nil]
    rfl
  have hcount : (ofSegments (use.encodedSegments bucket key ++ [[]])).count slash =
      (use.encodedSegments bucket key).length + 1 := by
    rw [count_slash_ofSegments (by simp)]
    · simp
    · intro s hs
      rcases List.mem_append.mp hs with hs | hs
      · exact (hv s hs).slash_not_mem
      · rw [List.mem_singleton.mp hs]
        exact List.not_mem_nil
  have hlength : 6 ≤ (use.encodedSegments bucket key).length := by
    have hsplit := List.length_pos_of_ne_nil (split_ne_nil slash key)
    simp only [KeyUse.encodedSegments, KeyUse.segments, List.length_map, List.length_append,
      List.length_cons, List.length_nil]
    omega
  have hsegments : (keyedSegments use.directory).length = 6 := rfl
  have hmulti : Pattern.endsMulti ⟨use.method, keyedSegments use.directory⟩ = true := rfl
  unfold slashRedirect
  rw [if_neg]
  intro hc
  have hexact := hc.2.2
  rw [hslashed, hmatch] at hexact
  simp only [exactMatch, hmulti, hsegments, hcount] at hexact
  simp at hexact
  omega

theorem Transparent.reaches (header : Header) (hb : slash ∉ bucket) (h : Transparent bucket key) :
    Reaches use header (use.path bucket key) bucket key := by
  have hne : use.encodedSegments bucket key ≠ [] := use.encodedSegments_ne_nil
  have hv : ∀ s ∈ use.encodedSegments bucket key, Visible s := use.visible_encodedSegments hb
  have hslash : ∀ s ∈ use.encodedSegments bucket key, slash ∉ s :=
    fun s hs => (hv s hs).slash_not_mem
  have hdecoded : (use.encodedSegments bucket key).map unescapeSegment = use.segments bucket key :=
    map_unescape_encode (use.slash_not_mem_segments hb)
  have hclean : Clean (use.encodedSegments bucket key) :=
    (clean_map hv).mp (hdecoded ▸ h.clean_segments use)
  have hbne : bucket ≠ [] := by
    intro he
    have hname := h.1
    rw [he, cleanKind_nil] at hname
    cases hname
  -- the browser sends the path as it is
  have hbrowser : browserSegments (use.encodedSegments bucket key) =
      use.encodedSegments bucket key := by
    apply browserSegments_of_names
    intro s hs
    obtain ⟨t, ht, rfl⟩ := List.mem_map.mp hs
    rw [browserKind_encode]
    exact (h.clean_segments use).dotKind_eq t ht
  obtain ⟨u, hu, hpath, hescaped, -⟩ := exists_requestURL use.method hne hv
  rw [hbrowser] at hpath hescaped
  rw [hdecoded] at hpath
  -- and the router serves it as it is
  obtain ⟨values, hmatch, hvalues⟩ :=
    use.matchMethodAndPath_encoded key hb hbne [] (by simp)
  rw [hvalues rfl, List.append_nil] at hmatch
  let r : Request := sendTo use.method header u
  let m : Match (Option Endpoint) :=
    ⟨⟨use.method, keyedSegments use.directory⟩, some use.endpoint, [bucket, key]⟩
  have hmatched : matchedPath r = r.url.escapedPath := by
    have hconnect : r.method ≠ str "CONNECT" := use.fixed_names.1
    have hr : r.url.escapedPath = ofSegments (use.encodedSegments bucket key) := hescaped
    unfold matchedPath
    rw [if_neg hconnect, hr]
    exact (cleanPath_eq_self_iff hne hslash).mpr hclean
  have hserve : findHandler uiRoutes r = .serve m := by
    refine findHandler_of_match hmatched ?_ ?_
    · exact (congrArg (matchMethodAndPath uiRoutes use.method) hescaped).trans hmatch
    · exact (congrArg (slashRedirect uiRoutes use.method · u) hescaped).trans
        (use.slashRedirect_encoded hb hbne u)
  have htarget : use.endpoint.target (routed { toRequest := r } m) = (bucket, some key) :=
    use.target_routed hb rfl rfl hpath
  refine ⟨r, m, ?_, rfl, htarget⟩
  have href : use.path bucket key = ofSegments (use.encodedSegments bucket key) :=
    use.path_eq bucket key
  rw [href, maxRequests, follow, hu]
  dsimp only
  rw [hserve]

end

/-- A request of the application for a key ends at the handler with this bucket and key
exactly when they are transparent. -/
theorem reaches_iff (use : KeyUse) (header : Header) {bucket : Str} (hb : slash ∉ bucket)
    (key : Str) :
    Reaches use header (use.path bucket key) bucket key ↔ Transparent bucket key := by
  constructor
  · intro h
    have hv : ∀ s ∈ use.encodedSegments bucket key, Visible s := use.visible_encodedSegments hb
    have href : use.path bucket key = ofSegments (use.encodedSegments bucket key) :=
      use.path_eq bucket key
    exact Reaches.transparent use.encodedSegments_ne_nil hv (href ▸ h)
  · intro h
    exact h.reaches use header hb

theorem reaches_iff_weirdKey :
    Reaches .download .empty (KeyUse.path .download (str "b") (str "dir name/weird #?%.txt"))
      (str "b")
        (str "dir name/weird #?%.txt") ↔
      Transparent (str "b") (str "dir name/weird #?%.txt") :=
  reaches_iff .download .empty (by decide +kernel) _

/-- What becomes of a reference depends on what is sent for it. -/
theorem Reaches.of_requestTarget_eq {use : KeyUse} {header : Header} {ref₁ ref₂ bucket key : Str}
    (hsent : requestTarget ref₁ = requestTarget ref₂) (h : Reaches use header ref₂ bucket key) :
    Reaches use header ref₁ bucket key := by
  unfold Reaches maxRequests follow at h ⊢
  rw [hsent]
  exact h

theorem climbingKey_facts :
    requestTarget (KeyUse.path .remove (str "b") (str "../../c/objects/y")) =
        requestTarget (KeyUse.path .remove (str "c") (str "y")) ∧
      split slash (str "../../c/objects/y") =
        [str "..", str "..", str "c", str "objects"] ++ [str "y"] ∧
      cleanKind (str "..") ≠ .name ∧ cleanKind (str "c") = .name ∧ dotKind (str "y") = .name ∧
      slash ∉ str "b" ∧ slash ∉ str "c" ∧ split slash (str "y") = [str "y"] := by
  decide +kernel

/-- A delete in one bucket that arrives as a delete in another. -/
theorem keys_do_not_all_arrive :
    (¬∀ (use : KeyUse) (header : Header) (bucket key : Str), slash ∉ bucket → key ≠ [] →
      Reaches use header (use.path bucket key) bucket key) ∧
    Reaches .remove .empty (KeyUse.path .remove (str "b") (str "../../c/objects/y")) (str "c")
      (str "y") := by
  obtain ⟨hsent, hkey, hup, hc, hy, hb, hc', hy'⟩ := climbingKey_facts
  constructor
  · intro hall
    have hreach := hall .remove .empty (str "b") (str "../../c/objects/y") hb (by simp)
    rw [KeyUse.path_eq] at hreach
    have hclean := (Reaches.transparent (KeyUse.encodedSegments_ne_nil .remove)
      (KeyUse.visible_encodedSegments .remove hb) hreach).2
    rw [hkey] at hclean
    exact hup ((clean_append_singleton.mp hclean).1 (str "..") (by simp))
  · have hclean : Transparent (str "c") (str "y") :=
      ⟨hc, [], str "y", hy', by simp, hy⟩
    exact (hclean.reaches .remove .empty hc').of_requestTarget_eq hsent

end PierGateway.WebUI
