import PierGateway.S3Handler

/-!
# What the administration check lets through

The check reads the query a second time, from the text `RequestURI` prints, with a
parser that takes a `#` for the start of a fragment. What it has looked at is the
query up to the first `#`; the pass-through forwards all of it. The second part adds
the request headers that administer, which the check does not look at, and the last
says what the check settles: no bucket is changed as a whole.
-/
namespace PierGateway.Proxy
open GoStrings GoUnicode NetUrl UrlLaws QueryLaws HttpMessages ReverseProxy SigV4 Auth Acl

/-- The fields of a query after the one its first `#` stands in. -/
def afterSharp (q : Str) : Str := (cut ampersand ((cut sharp q).2.getD [])).2.getD []

theorem not_admin_of_sharp {n : Str} (hn : sharp ∈ n) : toLower n ∉ adminSubResources := by
  have hlower : sharp ∈ toLower n :=
    mem_toLower_of_ascii (by decide) (by decide +kernel) hn
  have hnone : ∀ s ∈ adminSubResources, sharp ∉ s := by decide +kernel
  intro hmem
  exact hnone _ hmem hlower

/-- When nothing before the first `#` administers, the sub-resources of a query are those
of the fields after it. -/
theorem adminQuery_iff_afterSharp {q : Str} (hq : ¬AdminQuery (cut sharp q).1) :
    AdminQuery q ↔ AdminQuery (afterSharp q) := by
  obtain ⟨-, he⟩ | ⟨p, t, -, rfl, he⟩ := cut_cases sharp q
  · have hafter : afterSharp q = [] := by simp [afterSharp, he]
    have hnone : ¬AdminQuery [] := by simp [AdminQuery]
    rw [he] at hq
    rw [hafter]
    exact iff_of_false hq hnone
  · have hafter : afterSharp (p ++ sharp :: t) = (cut ampersand t).2.getD [] := by
      simp [afterSharp, he]
    rw [he] at hq
    rw [hafter]
    constructor
    · rintro ⟨n, hn, ha⟩
      rcases mem_queryNames_sharp hn with h | h | h
      · exact absurd ⟨n, h, ha⟩ hq
      · exact absurd ha (not_admin_of_sharp h)
      · exact ⟨n, h, ha⟩
    · rintro ⟨n, hn, ha⟩
      exact ⟨n, queryNames_after_sharp hn, ha⟩

theorem rooted_of_pathBucket {path : Str} (hs : path.head? = some slash)
    (hb : pathBucket path ≠ []) : Rooted path := by
  cases path with
  | nil => simp at hs
  | cons c t =>
      obtain rfl : c = slash := by simpa using hs
      refine ⟨t, rfl, ?_⟩
      intro ht
      apply hb
      cases t with
      | nil => simp at ht
      | cons d t =>
          obtain rfl : d = slash := by simpa using ht
          simp [pathBucket, trimPrefix, cut]

/-- Of a request line with a bucket, the check has seen the path, the method and the
query up to its first `#`. -/
theorem isAdminOperation_requestURI {method : Str} {u : URL} (hline : FromRequestLine u)
    (hb : pathBucket u.path ≠ []) (ha : isAdminOperation method u.requestURI = false) :
    ¬AdminQuery (cut sharp u.rawQuery).1 ∧ ¬(BucketLevel u.path ∧ StateChanging method) := by
  obtain ⟨v, hv, hquery, hlevel⟩ := (isAdminOperation_eq_false_iff _ _).mp ha
  have hpath : u.path ≠ [] := by
    intro h
    rw [h] at hb
    exact hb rfl
  have hop : u.opaquePart = [] := by
    by_contra h
    exact hpath (hline.opaque_path h)
  rcases hline.path with ⟨hstar, hraw⟩ | h | hslash
  · -- the asterisk form is printed and parsed as itself
    obtain ⟨-, hrawPath, hforce⟩ := hline.star hstar
    have hesc : u.escapedPath = str "*" := by
      unfold URL.escapedPath
      rw [if_neg (fun h => h.1 hrawPath), if_pos hstar]
    have hne : str "*" ≠ [] := by decide +kernel
    have huri : u.requestURI = str "*" := by
      unfold URL.requestURI
      rw [if_pos hop, hesc, hraw, hforce, if_neg hne]
      simp
    have hparse : urlParse (str "*") = some { path := str "*" } := by decide
    rw [huri, hparse] at hv
    obtain rfl := Option.some.inj hv
    refine ⟨?_, ?_⟩
    · rw [hraw]
      simp [AdminQuery]
    · rw [hstar]
      exact hlevel
  · exact absurd h hpath
  · have hroot := rooted_of_pathBucket hslash hb
    obtain ⟨w, hw, hwq, hparse⟩ := urlParse_requestURI hop hline.raw hroot hline.ctl
    rw [hparse] at hv
    have hfields : v.path = w.path ∧ v.rawQuery = w.rawQuery := by
      unfold URL.addFragment at hv
      split at hv
      · obtain rfl := Option.some.inj hv
        exact ⟨rfl, rfl⟩
      · obtain rfl := Option.some.inj hv
        exact ⟨rfl, rfl⟩
      · obtain ⟨frag, -, rfl⟩ := Option.map_eq_some_iff.mp hv
        exact ⟨rfl, rfl⟩
    rw [hfields.2, hwq] at hquery
    rw [hfields.1, hw] at hlevel
    exact ⟨hquery, hlevel⟩

theorem Admitted.gate {h : S3Handler} {r : Request} {claims : MapClaims}
    (hadm : Admitted h r claims)
    {target : Str} (hurl : requestURL r.method target = some r.url) :
    ¬AdminQuery (cut sharp r.url.rawQuery).1 ∧ ¬(BucketLevel r.url.path ∧ StateChanging r.method) :=
  isAdminOperation_requestURI (fromRequestLine_of_requestURL hurl) hadm.bucket hadm.admin

/-- A forwarded query is free of administration sub-resources exactly when no whole field
after its first `#` is one. -/
theorem forwarded_query_clean_iff {h : S3Handler} {r : Request} {target : Str}
    (hurl : requestURL r.method target = some r.url) (hf : Forwards h r) :
    (∀ n ∈ queryNames r.url.rawQuery, toLower n ∉ adminSubResources) ↔
      ¬AdminQuery (afterSharp r.url.rawQuery) := by
  obtain ⟨claims, hadm⟩ := hf.admitted
  have hgate := (hadm.gate hurl).1
  rw [← adminQuery_iff_afterSharp hgate, AdminQuery]
  push Not
  rfl

/-- A read whose query the check sees as `x=1` and storage as `x` and `acl`. -/
def sharpRequest : Request := requestOf (str "GET") (str "/reports/object?x=1#&acl") []

def sharpGateway : S3Handler := recordedGateway [str "reports-ro"] (str "host;x-amz-date")
  (str "9ecaafa9c152761f3cdf1a9da4e5a30349277b227ede27d273d46578804b3f86")

theorem sharpRequest_facts :
    requestURL sharpRequest.method (str "/reports/object?x=1#&acl") = some sharpRequest.url ∧
      Passes [str "reports-ro"] sharpRequest ∧ str "acl" ∈ queryNames sharpRequest.url.rawQuery ∧
      toLower (str "acl") ∈ adminSubResources := by
  decide +kernel

theorem forwards_sharpRequest : Forwards sharpGateway sharpRequest :=
  ⟨_, sharpRequest_facts.2.1.forward⟩

theorem forwarded_query_clean_iff_sharpRequest :
    (∀ n ∈ queryNames sharpRequest.url.rawQuery, toLower n ∉ adminSubResources) ↔
      ¬AdminQuery (afterSharp sharpRequest.url.rawQuery) :=
  forwarded_query_clean_iff sharpRequest_facts.1 forwards_sharpRequest

theorem forwarded_query_not_always_clean :
    ¬∀ (h : S3Handler) (r : Request) (target : Str), requestURL r.method target = some r.url →
      Forwards h r → ∀ n ∈ queryNames r.url.rawQuery, toLower n ∉ adminSubResources := by
  intro hall
  obtain ⟨hurl, -, hacl, hadmin⟩ := sharpRequest_facts
  exact hall _ _ _ hurl forwards_sharpRequest _ hacl hadmin

/-! ### Headers that administer -/

/-- The request headers that set an access list, tags, a retention or a legal hold. -/
def adminHeader (k : Str) : Bool :=
  lowerAscii k = str "x-amz-acl" || hasPrefix (lowerAscii k) (str "x-amz-grant-") ||
    lowerAscii k = str "x-amz-tagging" || hasPrefix (lowerAscii k) (str "x-amz-object-lock-")

def AdminHeaders (r : Request) : Prop :=
  (r.method = str "PUT" ∨ r.method = str "POST") ∧ ∃ k, r.header.Has k ∧ adminHeader k = true

/-- A request administers storage, by its query or by a header of a write. -/
def Administers (r : Request) : Prop := AdminQuery r.url.rawQuery ∨ AdminHeaders r

theorem adminHeader_not_own {k : Str} (hk : adminHeader k = true) : k ∉ ownHeaders := by
  have hnone : ∀ k ∈ ownHeaders, adminHeader k = false := by decide
  intro hmem
  rw [hnone k hmem] at hk
  cases hk

/-- No administering header is added or removed on the way. -/
theorem Outbound.adminHeaders_iff {r out : Request} (h : Outbound r out) :
    AdminHeaders out ↔ AdminHeaders r := by
  have hhas : ∀ k, out.header.Has k ∧ adminHeader k = true ↔
      r.header.Has k ∧ adminHeader k = true := by
    intro k
    rw [and_congr_left_iff]
    intro hk
    rw [Header.has_iff, Header.has_iff, h.lookup (adminHeader_not_own hk)]
  unfold AdminHeaders
  rw [h.method]
  simp only [hhas]

theorem Outbound.adminQuery_iff {r out : Request} (h : Outbound r out) :
    AdminQuery out.url.rawQuery ↔ AdminQuery r.url.rawQuery := by
  unfold AdminQuery
  simp only [h.names]

/-- What is sent administers nothing exactly when the inbound request names no
sub-resource after a `#` and, on a write, has no header that administers. -/
theorem sent_administers_iff {verifier : TokenVerifier} {p : PassThrough} {mapper : ClaimMapper}
    {r out : Request} {target : Str} {e : Exchange SignCall} (hd : Documented p.signer)
    (hurl : requestURL r.method target = some r.url)
    (he : serveHTTP (newS3HandlerWithMapper verifier (some p) mapper) r = .forward e)
    (hout : out ∈ e.sent) :
    ¬Administers out ↔ ¬AdminQuery (afterSharp r.url.rawQuery) ∧
      ((r.method = str "PUT" ∨ r.method = str "POST") →
        ∀ k, r.header.Has k → adminHeader k = false) := by
  obtain ⟨rfl, claims, hadm⟩ := forward_of_passThrough he
  have hsent := outbound_of_sent hd hout
  have hquery := adminQuery_iff_afterSharp (hadm.gate hurl).1
  unfold Administers
  rw [not_or, hsent.adminQuery_iff, hsent.adminHeaders_iff, hquery]
  refine and_congr_right fun _ => ?_
  unfold AdminHeaders
  constructor
  · intro h hm k hk
    by_contra hne
    exact h ⟨hm, k, hk, by simpa using hne⟩
  · rintro h ⟨hm, k, hk, ha⟩
    rw [h hm k hk] at ha
    cases ha

/-- A write that makes its object public. -/
def publicWrite : Request :=
  requestOf (str "PUT") (str "/reports/object") [(str "x-amz-acl", str "public-read")]

def publicSignature : Str := str "21f3dca9b357763cec809b581b599f5b7c5b0e9b8a0601b38073d437f46a78f7"

theorem publicWrite_facts :
    requestURL publicWrite.method (str "/reports/object") = some publicWrite.url ∧
      Passes [str "reports-rw"] publicWrite ∧ publicWrite.header.Has (str "X-Amz-Acl") ∧
      adminHeader (str "X-Amz-Acl") = true := by
  decide +kernel

theorem sent_administers_iff_publicWrite :
    ∃ out, out ∈ ((recordedPassThrough (str "host;x-amz-acl;x-amz-date") publicSignature).forward
        publicWrite).sent ∧
      (¬Administers out ↔ ¬AdminQuery (afterSharp publicWrite.url.rawQuery) ∧
        ((publicWrite.method = str "PUT" ∨ publicWrite.method = str "POST") →
          ∀ k, publicWrite.header.Has k → adminHeader k = false)) := by
  obtain ⟨hurl, hpasses, -⟩ := publicWrite_facts
  obtain ⟨call, hcall, -⟩ := hpasses.call (str "host;x-amz-acl;x-amz-date") publicSignature
  exact ⟨_, sent_exists hcall, sent_administers_iff (recordedPassThrough_documented _ _)
    hurl hpasses.forward (sent_exists hcall)⟩

theorem sent_may_administer :
    ¬∀ (verifier : TokenVerifier) (p : PassThrough) (mapper : ClaimMapper) (r out : Request)
      (target : Str) (e : Exchange SignCall), Documented p.signer →
      requestURL r.method target = some r.url →
      serveHTTP (newS3HandlerWithMapper verifier (some p) mapper) r = .forward e →
      out ∈ e.sent → ¬Administers out := by
  intro hall
  obtain ⟨hurl, hpasses, hhas, hadmin⟩ := publicWrite_facts
  obtain ⟨call, hcall, -⟩ := hpasses.call (str "host;x-amz-acl;x-amz-date") publicSignature
  have hsent := outbound_of_sent (recordedPassThrough_documented _ _) (sent_exists hcall)
  apply hall _ _ _ _ _ _ _ (recordedPassThrough_documented _ _) hurl hpasses.forward
    (sent_exists hcall)
  exact .inr (hsent.adminHeaders_iff.mpr ⟨.inl rfl, str "X-Amz-Acl", hhas, hadmin⟩)

/-! ### Changes of a bucket as a whole -/

theorem bucketLevel_of_slashes {b k : Str} (hb : slash ∉ b) (hne : b ≠ [])
    (hk : ∀ c ∈ k, c = slash) : BucketLevel (slash :: (b ++ k)) := by
  have hleft : trimLeft slash (slash :: (b ++ k)) = b ++ k := by
    obtain ⟨c, b, rfl⟩ := List.exists_cons_of_ne_nil hne
    have hc : c ≠ slash := fun h => hb (h ▸ List.mem_cons_self)
    simp [trimLeft, hc]
  have hright : trimRight slash (b ++ k) = b := by
    unfold trimRight
    clear hleft
    induction k using List.reverseRecOn with
    | nil =>
        rw [List.append_nil, List.rdropWhile_eq_self_iff]
        intro hl hlast
        have he : b.getLast hl = slash := by simpa using hlast
        exact hb (he ▸ List.getLast_mem hl)
    | append_singleton k c ih =>
        have hc : c = slash := hk c (by simp)
        have hdrop := List.rdropWhile_concat_pos (fun d => d == slash) (b ++ k) c (by simp [hc])
        rw [← List.append_assoc, hdrop]
        exact ih fun d hd => hk d (List.mem_append_left _ hd)
  unfold BucketLevel trim
  rw [if_neg (List.cons_ne_nil _ _), hleft, hright, split_of_not_mem slash hb,
    List.length_singleton]

theorem bucketLevel_asterisk : BucketLevel (str "*") := by decide

theorem below_bucket {path : Str} (hs : path.head? = some slash) (hb : pathBucket path ≠ [])
    (hlevel : ¬BucketLevel path) :
    ∃ k, path = slash :: (pathBucket path ++ slash :: k) ∧ ∃ c ∈ k, c ≠ slash := by
  obtain ⟨t, rfl, -⟩ := rooted_of_pathBucket hs hb
  have hbucket : pathBucket (slash :: t) = (cut slash t).1 := rfl
  rw [hbucket] at hb ⊢
  obtain ⟨hnot, he⟩ | ⟨b, k, hnot, rfl, he⟩ := cut_cases slash t
  · rw [he] at hb
    have hbare := bucketLevel_of_slashes (k := []) hnot hb (by simp)
    rw [List.append_nil] at hbare
    exact absurd hbare hlevel
  · rw [he] at hb ⊢
    refine ⟨k, rfl, ?_⟩
    by_contra hall
    push Not at hall
    apply hlevel
    apply bucketLevel_of_slashes hnot hb
    intro c hc
    rcases List.mem_cons.mp hc with rfl | hc
    · rfl
    · exact hall c hc

/-- A forwarded request that changes state names something below the bucket its access was
checked for, whatever the groups. -/
theorem forwarded_change_below_bucket {h : S3Handler} {r : Request} {target : Str}
    (hurl : requestURL r.method target = some r.url) (hf : Forwards h r)
    (hm : r.method = str "PUT" ∨ r.method = str "POST" ∨ r.method = str "DELETE") :
    ∃ b k claims, r.url.path = slash :: (b ++ slash :: k) ∧ b ≠ [] ∧ slash ∉ b ∧
      (∃ c ∈ k, c ≠ slash) ∧ h.verifier (extractBearerToken r) = .ok claims ∧
      b = pathBucket r.url.path ∧ checkAccess (h.mapper.groups claims) b r.method = true := by
  obtain ⟨claims, hadm⟩ := hf.admitted
  have hchange : StateChanging r.method := by
    unfold StateChanging
    tauto
  have hlevel : ¬BucketLevel r.url.path := fun hl => (hadm.gate hurl).2 ⟨hl, hchange⟩
  have hslash : r.url.path.head? = some slash := by
    rcases (fromRequestLine_of_requestURL hurl).path with ⟨hstar, -⟩ | hempty | hslash
    · rw [hstar] at hlevel
      exact absurd bucketLevel_asterisk hlevel
    · exact absurd (by rw [hempty]; rfl) hadm.bucket
    · exact hslash
  obtain ⟨k, hpath, hk⟩ := below_bucket hslash hadm.bucket hlevel
  exact ⟨_, k, claims, hpath, hadm.bucket, pathBucket_no_slash _, hk, hadm.verified, rfl,
    hadm.access⟩

theorem forwarded_change_below_bucket_publicWrite :
    let h := recordedGateway [str "reports-rw"] (str "host;x-amz-acl;x-amz-date") publicSignature
    ∃ b k claims, publicWrite.url.path = slash :: (b ++ slash :: k) ∧ b ≠ [] ∧ slash ∉ b ∧
      (∃ c ∈ k, c ≠ slash) ∧ h.verifier (extractBearerToken publicWrite) = .ok claims ∧
      b = pathBucket publicWrite.url.path ∧
      checkAccess (h.mapper.groups claims) b publicWrite.method = true :=
  forwarded_change_below_bucket publicWrite_facts.1 ⟨_, publicWrite_facts.2.1.forward⟩ (.inl rfl)

end PierGateway.Proxy
