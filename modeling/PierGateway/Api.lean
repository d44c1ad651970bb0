import PierGateway.ContentSecurity
import PierGateway.Resolver
import PierGateway.UiCalls

/-!
# The bucket and object handlers

The handlers of the web interface that list buckets and read, write and delete
objects. Each finds its bucket and key on its own, from the wildcards of the route or
else from the path, checks access with the method it stands for, and calls the
storage backend. Log lines are left out.
-/
namespace PierGateway.WebUI
open GoStrings NetUrl HttpMessages Interaction Acl

/-- The parts of `API` that handlers read; the cache is in the world. -/
structure API where
  hasBackend : Bool
  quotas : Option (List (Str × ℤ)) := none

def backendUnavailable : Answer :=
  writeError 503 (str "backend_unavailable") (str "storage backend is not configured")

/-! ### Bucket and key of a request -/

/-- The part after the first part that equals the segment and has one after it. -/
def paramAfter (segment : Str) : List Str → Str
  | p :: q :: parts => if p = segment then q else paramAfter segment (q :: parts)
  | _ => []

def extractPathParam (path segment : Str) : Str :=
  paramAfter segment (split slash (trim slash path))

/-- The texts around the first separator after the route's root, if both are there. -/
def extractAround (separator path : Str) : Str × Str :=
  let root := str "/api/v1/buckets/"
  if hasPrefix path root then (cutStr separator (path.drop root.length)).getD ([], [])
  else ([], [])

def extractBucketAndKey (path : Str) : Str × Str := extractAround (str "/objects/") path

def extractBucketAndKeyMeta (path : Str) : Str × Str := extractAround (str "/meta/") path

def bucketFromRequest (r : UIRequest) : Str :=
  if r.pathValue (str "bucket") ≠ [] then r.pathValue (str "bucket")
  else extractPathParam r.url.path (str "buckets")

/-- The wildcards of the route, or else what the path says. -/
def routeOr (extract : Str → Str × Str) (r : UIRequest) : Str × Str :=
  if r.pathValue (str "bucket") ≠ [] ∧ r.pathValue (str "key") ≠ [] then
    (r.pathValue (str "bucket"), r.pathValue (str "key"))
  else extract r.url.path

def bucketAndKeyFromRequest (r : UIRequest) : Str × Str := routeOr extractBucketAndKey r

def bucketAndKeyMetaFromRequest (r : UIRequest) : Str × Str := routeOr extractBucketAndKeyMeta r

/-! ### Listings -/

/-- The buckets collected so far, in the order they were met. -/
structure Merge where
  perms : Finmap fun _ : Str => BucketPermission := ∅
  order : List Str := []

/-- The loop over the explicitly named buckets. -/
def Merge.addNamed (m : Merge) (bp : BucketPermission) : Merge where
  perms := m.perms.insert bp.name bp
  order := m.order ++ [bp.name]

/-- The loop over the buckets of the backend, for the holder of a wildcard. -/
def Merge.addListed (wild : BucketPermission) (m : Merge) : Option Str → Merge
  | none => m
  | some name =>
      let bp := (m.perms.lookup name).getD { name := name }
      { perms := m.perms.insert name
          { bp with
            read := bp.read || wild.read
            write := bp.write || wild.write
            delete := bp.delete || wild.delete }
        order := if name ∈ m.perms then m.order else m.order ++ [name] }

def Merge.response (m : Merge) : List BucketResponse :=
  (sortStrings m.order).map fun name =>
    let bp := (m.perms.lookup name).getD {}
    { name := bp.name, permissions := { read := bp.read, write := bp.write, delete := bp.delete } }

def namedBuckets (groups : List Str) : Merge := (effectiveBuckets groups).foldl Merge.addNamed {}

def API.handleListBuckets (a : API) : Handler := fun r =>
  let named := namedBuckets (getGroups r)
  let (wild, found) := wildcardGrant (getGroups r)
  if found ∧ a.hasBackend then
    .call .listBuckets fun (out : Except Str (List (Option Str))) =>
      match out with
      | .error _ => .done (writeError 502 (str "upstream_error") (str "failed to list buckets"))
      | .ok names =>
          .done (writeJSON 200 (.buckets (names.foldl (Merge.addListed wild) named).response))
  else .done (writeJSON 200 (.buckets named.response))

def objectResponse (obj : S3Object) : ObjectResponse where
  key := obj.key.getD []
  sizeBytes := obj.size.getD 0
  lastModified := obj.lastModified.getD zeroTime
  etag := (obj.etag.map (trim quotation)).getD []
  isPrefix := false

def listObjectsResponse (result : ListObjectsOutput) : ListObjectsResponse where
  objects := result.contents.map objectResponse
  prefixes := result.commonPrefixes.filterMap id
  nextPageToken := result.nextContinuationToken.getD []
  truncated := result.isTruncated.getD false

def maxKeysOf (maxKeysStr : Str) : ℤ :=
  match parseInt 32 maxKeysStr with
  | some mk => if 0 < mk ∧ mk ≤ 1000 then mk else 1000
  | none => 1000

def API.handleListObjects (a : API) : Handler := fun r =>
  let bucket := bucketFromRequest r
  if bucket = [] then .done (writeError 400 (str "bad_request") (str "bucket name required"))
  else if !checkAccess (getGroups r) bucket (str "GET") then
    .done (writeError 403 (str "forbidden") (str "no read access to bucket"))
  else if !a.hasBackend then .done backendUnavailable
  else
    let delimiter := if r.query (str "delimiter") = [] then [slash] else r.query (str "delimiter")
    .call (.listObjects bucket (r.query (str "prefix")) delimiter (r.query (str "page_token"))
        (maxKeysOf (r.query (str "max_keys")))) fun (out : Except Str ListObjectsOutput) =>
      match out with
      | .error _ => .done (writeError 502 (str "upstream_error") (str "failed to list objects"))
      | .ok result => .done (writeJSON 200 (.objects (listObjectsResponse result)))

/-! ### Objects -/

def dispositionValue (isInline : Bool) (key : Str) : Str :=
  (if isInline then str "inline" else str "attachment") ++ str "; filename=\"" ++
    sanitizeFilename key ++ [quotation]

def hardened (h : Header) : Header :=
  (h.set (str "X-Content-Type-Options") headerXCTO).set (str "Content-Security-Policy") headerCSP

/-- Set a field when there is a value for it. -/
def setOptional (h : Header) (name : Str) : Option Str → Header
  | none => h
  | some v => h.set name v

/-- The headers of a download. -/
def objectHeader (key : Str) (result : GetObjectOutput) : Header :=
  let disp := neutralizeContentType (result.contentType.getD [])
  let typed := (hardened Header.empty).set (str "Content-Type") disp.contentType
  let named := typed.set (str "Content-Disposition") (dispositionValue disp.isInline key)
  let sized := setOptional named (str "Content-Length") (result.contentLength.map formatInt)
  let tagged := setOptional sized (str "ETag") result.etag
  setOptional tagged (str "Last-Modified") (result.lastModified.map formatHTTPTime)

def API.handleGetObject (a : API) : Handler := fun r =>
  let (bucket, key) := bucketAndKeyFromRequest r
  if bucket = [] ∨ key = [] then
    .done (writeError 400 (str "bad_request") (str "bucket and key required"))
  else if !checkAccess (getGroups r) bucket (str "GET") then
    .done (writeError 403 (str "forbidden") (str "no read access"))
  else if !a.hasBackend then .done backendUnavailable
  else
    .call (.getObject bucket key) fun (out : Except Str GetObjectOutput) =>
      match out with
      | .error _ => .done (writeError 502 (str "upstream_error") (str "failed to get object"))
      | .ok result =>
          .done { status := 200, header := objectHeader key result, payload := .object result.body }

def objectMeta (key : Str) (result : HeadObjectOutput) : ObjectMeta where
  key := key
  contentType := result.contentType.getD []
  contentLength := result.contentLength.getD 0
  etag := trim quotation (result.etag.getD [])
  lastModified := result.lastModified.getD zeroTime

def API.handleGetObjectMeta (a : API) : Handler := fun r =>
  let (bucket, key) := bucketAndKeyMetaFromRequest r
  if bucket = [] ∨ key = [] then
    .done (writeError 400 (str "bad_request") (str "bucket and key required"))
  else if !checkAccess (getGroups r) bucket (str "GET") then
    .done (writeError 403 (str "forbidden") (str "no read access"))
  else if !a.hasBackend then .done backendUnavailable
  else
    .call (.headObject bucket key) fun (out : Except Str HeadObjectOutput) =>
      match out with
      | .error _ =>
          .done (writeError 502 (str "upstream_error") (str "failed to get object metadata"))
      | .ok result =>
          let answer := writeJSON 200 (.objectMeta (objectMeta key result))
          .done { answer with header := hardened answer.header }

def putObjectInput (bucket key : Str) (r : UIRequest) : PutObjectInput where
  bucket := bucket
  key := key
  body := r.body
  contentType :=
    if r.header.get (str "Content-Type") = [] then octetStream
      else r.header.get (str "Content-Type")
  contentLength := parseInt 64 (r.header.get (str "Content-Length"))

def API.handlePutObject (a : API) : Handler := fun r =>
  let (bucket, key) := bucketAndKeyFromRequest r
  if bucket = [] ∨ key = [] then
    .done (writeError 400 (str "bad_request") (str "bucket and key required"))
  else if !checkAccess (getGroups r) bucket (str "PUT") then
    .done (writeError 403 (str "write_not_allowed") (str "no write access to bucket"))
  else if !a.hasBackend then .done backendUnavailable
  else
    .call (.putObject (putObjectInput bucket key r)) fun (out : Except Str Unit) =>
      match out with
      | .error _ => .done (writeError 502 (str "upstream_error") (str "failed to upload object"))
      | .ok _ => .done (writeJSON 200 (.status (str "uploaded") key))

/-- A caller who may write puts the object under the bucket and the key of the request. -/
theorem handlePutObject_of_access {a : API} {r : UIRequest} {bucket key : Str}
    (hfound : bucketAndKeyFromRequest r = (bucket, key)) (hbucket : bucket ≠ []) (hkey : key ≠ [])
    (hc : checkAccess (getGroups r) bucket (str "PUT") = true) (ha : a.hasBackend = true) :
    ∃ next, a.handlePutObject r = .call (.putObject (putObjectInput bucket key r)) next ∧
      next (.ok ()) = .done (writeJSON 200 (.status (str "uploaded") key)) := by
  unfold API.handlePutObject
  rw [hfound]
  dsimp only
  rw [if_neg (not_or.mpr ⟨hbucket, hkey⟩), hc, ha]
  exact ⟨_, rfl, rfl⟩

def API.handleDeleteObject (a : API) : Handler := fun r =>
  let (bucket, key) := bucketAndKeyFromRequest r
  if bucket = [] ∨ key = [] then
    .done (writeError 400 (str "bad_request") (str "bucket and key required"))
  else if !checkAccess (getGroups r) bucket (str "DELETE") then
    .done (writeError 403 (str "write_not_allowed") (str "no delete access to bucket"))
  else if !a.hasBackend then .done backendUnavailable
  else
    .call (.deleteObject bucket key) fun (out : Except Str Unit) =>
      match out with
      | .error _ => .done (writeError 502 (str "upstream_error") (str "failed to delete object"))
      | .ok _ => .done (writeJSON 200 (.status (str "deleted") key))

end PierGateway.WebUI
