import PierGateway.DotSegments
import PierGateway.AdminGate

/-!
# The target of a path

The gate reads the bucket off the decoded path as it stands. Storage may decode the
path and remove its dot segments first, and an encoded dot segment survives every
stage before. The target is kept exactly when the bucket is not climbed out of and,
on a write, something of the key is left.
-/
namespace PierGateway.Proxy
open GoStrings NetUrl UrlLaws HttpMessages ReverseProxy SigV4 Auth Acl DotSegments

/-- What follows the bucket in a path. -/
def pathKey (path : Str) : Str := (cut slash (trimPrefix [slash] path)).2.getD []

theorem pathBucket_pathKey {path b : Str} {rest : List Str} (h : segments path = b :: rest) :
    pathBucket path = b ∧ pathKey path = join slash rest := by
  unfold segments at h
  unfold pathBucket pathKey
  obtain ⟨hs, he⟩ | ⟨p, t, hp, hs, he⟩ := cut_cases slash (trimPrefix [slash] path)
  · rw [split_of_not_mem slash hs] at h
    obtain ⟨hb, hrest⟩ := List.cons_eq_cons.mp h
    rw [he, ← hb, ← hrest]
    exact ⟨rfl, rfl⟩
  · rw [hs, split_append slash hp] at h
    obtain ⟨hb, hrest⟩ := List.cons_eq_cons.mp h
    rw [he, ← hb, ← hrest]
    exact ⟨rfl, (join_split slash t).symm⟩

/-- A canonical path addresses the bucket, and a key in it when one is needed. -/
def Targets (q b : Str) (needsKey : Prop) : Prop := pathBucket q = b ∧ (needsKey → pathKey q ≠ [])

/-- Among the segments the bucket stands after segments that cancel and before segments that
never climb out of it and, when a key is needed, leave one. -/
def KeepsTarget (b : Str) (segs : List Str) (needsKey : Prop) : Prop :=
  ∃ pre post, segs = pre ++ b :: post ∧ dotKind b = .name ∧ Cancels dotKind 0 pre ∧
    Stays dotKind 0 post ∧ (needsKey → Remains post)

/-- The first segment that dot removal leaves, when it is not empty, was left by the walk. -/
theorem head_of_segments_removeDotSegments {p b : Str} {rest : List Str}
    (hp : p.head? = some slash) (hb : b ≠ []) (h : segments (removeDotSegments p) = b :: rest) :
    ∃ rest', resolve dotKind (segments p) = b :: rest' := by
  rw [segments_removeDotSegments hp] at h
  cases hr : resolve dotKind (segments p) with
  | nil =>
      rw [hr, List.nil_append] at h
      rcases trailing_cases (segments p) with ⟨ht, -⟩ | ⟨ht, -⟩
      · rw [ht] at h
        exact absurd (List.cons_eq_cons.mp h).1.symm hb
      · rw [ht] at h
        cases h
  | cons x rest' =>
      rw [hr, List.cons_append] at h
      obtain ⟨rfl, -⟩ := List.cons_eq_cons.mp h
      exact ⟨rest', rfl⟩

theorem targets_removeDotSegments_iff {p b : Str} (hp : p.head? = some slash) (hb : b ≠ [])
    (needsKey : Prop) :
    Targets (removeDotSegments p) b needsKey ↔ KeepsTarget b (segments p) needsKey := by
  have hsegs := segments_removeDotSegments hp
  -- the key that is left, for one position of the bucket
  have hkey : ∀ pre post, segments p = pre ++ b :: post → dotKind b = .name →
      resolve dotKind (segments p) = b :: resolve dotKind post →
      pathBucket (removeDotSegments p) = b ∧
        (pathKey (removeDotSegments p) ≠ [] ↔ Remains post) := by
    intro pre post hpos hname hres
    rw [hres, List.cons_append] at hsegs
    obtain ⟨hbucket, hrest⟩ := pathBucket_pathKey hsegs
    refine ⟨hbucket, ?_⟩
    rw [hrest, hpos, ne_eq, join_eq_nil_iff, rest_eq_nil_iff hname, not_not]
  constructor
  · rintro ⟨hbucket, hneeds⟩
    obtain ⟨x, rest, hx⟩ := List.exists_cons_of_ne_nil (segments_ne_nil (removeDotSegments p))
    obtain rfl : x = b := (pathBucket_pathKey hx).1.symm.trans hbucket
    obtain ⟨rest', hres⟩ := head_of_segments_removeDotSegments hp hb hx
    obtain ⟨pre, post, hpos, hname, hpre, hpost, rfl⟩ := resolve_eq_cons_iff.mp hres
    have hleft := (hkey pre post hpos hname hres).2
    exact ⟨pre, post, hpos, hname, hpre, hpost, fun hn => hleft.mp (hneeds hn)⟩
  · rintro ⟨pre, post, hpos, hname, hpre, hpost, hneeds⟩
    have hres : resolve dotKind (segments p) = b :: resolve dotKind post :=
      resolve_eq_cons_iff.mpr ⟨pre, post, hpos, hname, hpre, hpost, rfl⟩
    obtain ⟨hbucket, hleft⟩ := hkey pre post hpos hname hres
    exact ⟨hbucket, fun hn => hleft.mpr (hneeds hn)⟩

/-- The asterisk form addresses the bucket of its name and nothing in it. -/
theorem targets_asterisk {needsKey : Prop} (hn : ¬needsKey) :
    Targets (removeDotSegments (str "*")) (pathBucket (str "*")) needsKey ∧
      KeepsTarget (pathBucket (str "*")) (segments (str "*")) needsKey := by
  have hremove : removeDotSegments (str "*") = str "*" := by decide
  have hsegs : segments (str "*") = [] ++ pathBucket (str "*") :: [] := by decide
  have hname : dotKind (pathBucket (str "*")) = .name := by decide
  refine ⟨⟨by rw [hremove], fun h => absurd h hn⟩, [], [], hsegs, hname, ?_, ?_,
    fun h => absurd h hn⟩
  · intro s hs
    rw [List.suffix_nil.mp hs]
    exact Nat.zero_le _
  · intro s hs
    rw [List.prefix_nil.mp hs]
    exact Nat.zero_le _

/-- The path on the wire, decoded and without dot segments, addresses what the gate
authorised exactly when the decoded segments keep their target. -/
theorem forwarded_target_iff {verifier : TokenVerifier} {p : PassThrough} {mapper : ClaimMapper}
    {r out : Request} {target : Str} {e : Exchange SignCall} (hd : Documented p.signer)
    (hurl : requestURL r.method target = some r.url)
    (he : serveHTTP (newS3HandlerWithMapper verifier (some p) mapper) r = .forward e)
    (hout : out ∈ e.sent) :
    (∃ path, unescape .path out.url.escapedPath = some path ∧
        Targets (removeDotSegments path) (pathBucket r.url.path) (StateChanging r.method)) ↔
      KeepsTarget (pathBucket r.url.path) (segments r.url.path) (StateChanging r.method) := by
  obtain ⟨rfl, claims, hadm⟩ := forward_of_passThrough he
  have hsent := outbound_of_sent hd hout
  have hline := fromRequestLine_of_requestURL hurl
  have hgate := isAdminOperation_requestURI hline hadm.bucket hadm.admin
  rw [hsent.decoded_path]
  simp only [Option.some.injEq, exists_eq_left']
  rcases hline.path with ⟨hstar, -⟩ | h | hslash
  · have hn : ¬StateChanging r.method := by
      intro hm
      apply hgate.2
      rw [hstar]
      exact ⟨bucketLevel_asterisk, hm⟩
    obtain ⟨h₁, h₂⟩ := targets_asterisk hn
    rw [hstar]
    exact iff_of_true h₁ h₂
  · exact absurd (by rw [h]; rfl) hadm.bucket
  · exact targets_removeDotSegments_iff hslash hadm.bucket (StateChanging r.method)

/-- A read of `allowed` that storage resolves to a read of `secret`. -/
def climbingRead : Request := requestOf (str "GET") (str "/allowed/%2e%2e/secret/obj") []

def climbingSignature : Str :=
  str "076e02082aa3e7d110ccb08723afa32a70bf6453e26b3aed3e52547f0cf2b55a"

theorem climbingRead_facts :
    requestURL climbingRead.method (str "/allowed/%2e%2e/secret/obj") = some climbingRead.url ∧
      Passes [str "allowed-ro"] climbingRead ∧
      cleanPath climbingRead.url.escapedPath = climbingRead.url.escapedPath ∧
      pathBucket (removeDotSegments climbingRead.url.path) ≠ pathBucket climbingRead.url.path := by
  decide +kernel

theorem forwarded_target_iff_climbingRead :
    ∃ out ∈ ((recordedPassThrough (str "host;x-amz-date") climbingSignature).forward
        climbingRead).sent,
      ((∃ path, unescape .path out.url.escapedPath = some path ∧
          Targets (removeDotSegments path) (pathBucket climbingRead.url.path)
            (StateChanging climbingRead.method)) ↔
        KeepsTarget (pathBucket climbingRead.url.path) (segments climbingRead.url.path)
          (StateChanging climbingRead.method)) := by
  obtain ⟨hurl, hpasses, -⟩ := climbingRead_facts
  obtain ⟨call, hcall, -⟩ := hpasses.call (str "host;x-amz-date") climbingSignature
  exact ⟨_, sent_exists hcall, forwarded_target_iff (recordedPassThrough_documented _ _)
    hurl hpasses.forward (sent_exists hcall)⟩

/-- The request is one that the mux does not redirect. -/
theorem forwarded_target_not_kept :
    ¬∀ (verifier : TokenVerifier) (p : PassThrough) (mapper : ClaimMapper) (r out : Request)
      (target : Str) (e : Exchange SignCall), Documented p.signer →
      requestURL r.method target = some r.url → cleanPath r.url.escapedPath = r.url.escapedPath →
      serveHTTP (newS3HandlerWithMapper verifier (some p) mapper) r = .forward e → out ∈ e.sent →
      ∃ path, unescape .path out.url.escapedPath = some path ∧
        Targets (removeDotSegments path) (pathBucket r.url.path) (StateChanging r.method) := by
  intro hall
  obtain ⟨hurl, hpasses, hclean, hother⟩ := climbingRead_facts
  obtain ⟨call, hcall, -⟩ := hpasses.call (str "host;x-amz-date") climbingSignature
  have hsent := outbound_of_sent (recordedPassThrough_documented _ _) (sent_exists hcall)
  obtain ⟨path, hpath, hbucket, -⟩ := hall _ _ _ _ _ _ _ (recordedPassThrough_documented _ _)
    hurl hclean hpasses.forward (sent_exists hcall)
  rw [hsent.decoded_path] at hpath
  obtain rfl := Option.some.inj hpath
  exact hother hbucket

end PierGateway.Proxy
