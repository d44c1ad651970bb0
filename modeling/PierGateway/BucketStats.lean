import PierGateway.Api

/-!
# Bucket totals

The handler that answers with the size and the number of objects of a bucket: from
the cache, from the walk of another request, or from a walk of its own over the pages
of the listing.
-/
namespace PierGateway.WebUI
open GoStrings Interaction Acl

/-- An `int64` sum. -/
def add64 (a b : ℤ) : ℤ := (a + b).bmod (2 ^ 64)

def API.quotaFor (a : API) (bucket : Str) : ℤ :=
  match a.quotas with
  | none => 0
  | some quotas =>
      match quotas.lookup bucket with
      | some q => q
      | none => (quotas.lookup (str "*")).getD 0

/-- The loop over the objects of one page. -/
def BucketStatsResponse.addObject (resp : BucketStatsResponse) (obj : S3Object) :
    BucketStatsResponse :=
  { resp with
    objectCount := add64 resp.objectCount 1
    sizeBytes := add64 resp.sizeBytes (obj.size.getD 0) }

/-- The loop over the pages that are left, from the token of the last one. -/
def walkPages (bucket : Str) :
    ℕ → Str → BucketStatsResponse → Prog Op Reply (Except Str BucketStatsResponse)
  | 0, _, resp => .done (.ok { resp with truncated := true })
  | pages + 1, token, resp =>
      .call (.listObjects bucket [] [] token statsPageSize)
        fun (out : Except Str ListObjectsOutput) =>
        match out with
        | .error err => .done (.error err)
        | .ok page =>
            let resp := page.contents.foldl BucketStatsResponse.addObject resp
            match page.isTruncated.getD false, page.nextContinuationToken with
            | true, some next => walkPages bucket pages next resp
            | _, _ => .done (.ok resp)

def API.computeBucketStats (a : API) (bucket : Str) :
    Prog Op Reply (Except Str BucketStatsResponse) :=
  walkPages bucket statsMaxPages [] { bucket := bucket, quotaBytes := a.quotaFor bucket }

def statsFailed : Answer :=
  writeError 502 (str "upstream_error") (str "failed to compute bucket stats")

/-- The critical sections and the walk, once access to the bucket is granted. -/
def API.answerStats (a : API) (bucket : Str) : Prog Op Reply Answer :=
  .call (.statsEnter bucket) fun (entered : Entered) =>
    match entered with
    | .cached resp => .done (writeJSON 200 (.stats resp))
    | .wait ch =>
        .call (.statsWait ch) fun (woken : Bool) =>
          if woken then
            .call (.statsRead bucket) fun (entry : Option BucketStatsResponse) =>
              match entry with
              | some resp => .done (writeJSON 200 (.stats resp))
              | none => .done statsFailed
          else .done (writeError 503 (str "canceled") (str "request canceled"))
    | .walk ch =>
        (a.computeBucketStats bucket).bind fun result =>
          .call (.statsFinish bucket ch result.toOption) fun (_ : Unit) =>
            match result with
            | .error _ => .done statsFailed
            | .ok resp => .done (writeJSON 200 (.stats resp))

def API.handleBucketStats (a : API) : Handler := fun r =>
  let bucket := bucketFromRequest r
  if bucket = [] then .done (writeError 400 (str "bad_request") (str "bucket name required"))
  else if !checkAccess (getGroups r) bucket (str "GET") then
    .done (writeError 403 (str "forbidden") (str "no read access to bucket"))
  else if !a.hasBackend then .done backendUnavailable
  else a.answerStats bucket

theorem handleBucketStats_of_access {a : API} {r : UIRequest} (hb : bucketFromRequest r ≠ [])
    (hc : checkAccess (getGroups r) (bucketFromRequest r) (str "GET") = true)
    (ha : a.hasBackend = true) : a.handleBucketStats r = a.answerStats (bucketFromRequest r) := by
  unfold API.handleBucketStats
  dsimp only
  rw [if_neg hb, hc, ha]
  rfl

theorem addObjects_bucket (resp : BucketStatsResponse) (objs : List S3Object) :
    (objs.foldl BucketStatsResponse.addObject resp).bucket = resp.bucket := by
  induction objs generalizing resp with
  | nil => rfl
  | cons obj objs ih => exact ih (resp.addObject obj)

/-- A walk only lists its bucket, its totals are about it, and without an error it succeeds. -/
theorem safe_walkPages {allowed : Op → Prop} {promised : ∀ op, Reply op → Prop} {bucket : Str}
    (ha : ∀ token, allowed (.listObjects bucket [] [] token statsPageSize)) (pages : ℕ)
    (token : Str)
    {resp : BucketStatsResponse} (hb : resp.bucket = bucket) :
    (walkPages bucket pages token resp).Safe allowed promised fun result =>
      (∀ totals ∈ result.toOption, totals.bucket = bucket) ∧
        ((∀ token err, ¬promised (.listObjects bucket [] [] token statsPageSize) (.error err)) →
          ∃ totals, result = .ok totals) := by
  have hok : ∀ totals : BucketStatsResponse, totals.bucket = bucket →
      ∀ totals' ∈ (Except.ok totals : Except Str BucketStatsResponse).toOption,
        totals'.bucket = bucket := by
    intro totals ht totals' ht'
    obtain rfl := Option.mem_some_iff.mp ht'
    exact ht
  induction pages generalizing token resp with
  | zero => exact ⟨hok _ hb, fun _ => ⟨_, rfl⟩⟩
  | succ pages ih =>
      refine ⟨ha token, fun out hout => ?_⟩
      cases out with
      | error err =>
          refine ⟨fun totals ht => ?_, fun hnone => absurd hout (hnone token err)⟩
          cases ht
      | ok page =>
          have hpage := (addObjects_bucket resp page.contents).trans hb
          dsimp only
          split
          · exact ih _ hpage
          · exact ⟨hok _ hpage, fun _ => ⟨_, rfl⟩⟩

end PierGateway.WebUI
