import PierGateway.BucketsStore
import PierGateway.JsonRoundTrip
import PierGateway.Session
import PierGateway.UiMessages

/-!
# The answers of the gateway and the application that reads them

The gateway writes its answers from structures with the names of their fields beside them, and
leaves some fields out when they are empty; the single-page application declares the shapes that
it expects. The two were written apart. What the one writes the other reads: every name, every
field that may be missing and every list, with the numbers as they are written, of which the
application makes what its language makes of a number.
-/
namespace PierGateway.WebUI
open GoStrings

/-! ### What is written -/

def fourDigits (n : ℕ) : Str := twoDigits (n / 100) ++ twoDigits n

/-- The fraction of a second, without the zeros at its end. -/
def fraction (nanos : ℕ) : Str :=
  if nanos = 0 then []
  else
    dot :: ((List.range 9).reverse.map fun i =>
      0x30 + UInt8.ofNat (nanos / 10 ^ i % 10)).rdropWhile (· = 0x30)

/-- `time.Time.MarshalJSON` of a time in UTC, without the quotes; a year needs four digits. -/
def marshalTime (t : Time) : Option Str :=
  let secs := t / second
  let clock := (secs % 86400).toNat
  let (year, month, day) := civilDate (secs / 86400)
  if 0 ≤ year ∧ year < 10000 then
    some (fourDigits year.toNat ++ [hyphen] ++ twoDigits month ++ [hyphen] ++
      twoDigits day ++ str "T" ++ twoDigits (clock / 3600) ++ [colon] ++
      twoDigits (clock / 60 % 60) ++ [colon] ++ twoDigits (clock % 60) ++
      fraction (t % second).toNat ++ str "Z")
  else none

example : marshalTime (784111777 * second + 120000000) = some (str "1994-11-06T08:49:37.12Z") := by
  decide +kernel

/-- A field that is left out when it is empty. -/
def omitEmpty (empty : Prop) [Decidable empty] (v : Json) : Option Json :=
  if empty then none else some v

def texts (list : List Str) : Json := .array (list.map .string)

def whole (n : ℤ) : Json := .number (formatInt n)

def PermissionFlags.json (p : PermissionFlags) : Json :=
  .record [(str "read", some (.bool p.read)), (str "write", some (.bool p.write)),
    (str "delete", some (.bool p.delete))]

/-- The numbers of a bucket are never set here, and so left out. -/
def BucketResponse.json (b : BucketResponse) : Json :=
  .record [(str "name", some (.string b.name)), (str "permissions", some b.permissions.json),
    (str "object_count", none), (str "size_bytes", none)]

def ObjectResponse.json (o : ObjectResponse) : Option Json :=
  (marshalTime o.lastModified).map fun t =>
    .record [(str "key", some (.string o.key)), (str "size_bytes", some (whole o.sizeBytes)),
      (str "last_modified", some (.string t)), (str "etag", some (.string o.etag)),
      (str "is_prefix", some (.bool o.isPrefix))]

def ListObjectsResponse.json (l : ListObjectsResponse) : Option Json :=
  (l.objects.mapM ObjectResponse.json).map fun objects =>
    .record [(str "objects", some (.array objects)), (str "prefixes", some (texts l.prefixes)),
      (str "next_page_token", omitEmpty (l.nextPageToken = []) (.string l.nextPageToken)),
      (str "truncated", some (.bool l.truncated))]

def BucketStatsResponse.json (s : BucketStatsResponse) : Json :=
  .record [(str "bucket", some (.string s.bucket)),
    (str "object_count", some (whole s.objectCount)), (str "size_bytes", some (whole s.sizeBytes)),
    (str "truncated", some (.bool s.truncated)),
    (str "quota_bytes", omitEmpty (s.quotaBytes = 0) (whole s.quotaBytes))]

/-- The keys of a map are written in order. -/
def ObjectMeta.json (m : ObjectMeta) : Option Json :=
  (marshalTime m.lastModified).map fun t =>
    .record [(str "content_length", some (whole m.contentLength)),
      (str "content_type", some (.string m.contentType)), (str "etag", some (.string m.etag)),
      (str "key", some (.string m.key)), (str "last_modified", some (.string t))]

/-- The value that `writeJSON` encodes. No groups are a nil slice; a download and a redirect are not
written by it. -/
def Payload.json : Payload → Option Json
  | .error code message =>
      some (.record [(str "error", some (.string code)), (str "message", some (.string message))])
  | .buckets list => some (.array (list.map BucketResponse.json))
  | .objects list => list.json
  | .objectMeta info => info.json
  | .status outcome key =>
      some (.record [(str "key", some (.string key)), (str "status", some (.string outcome))])
  | .stats totals => some totals.json
  | .identity username groups =>
      some (.record [(str "groups", some (if groups = [] then .null else texts groups)),
        (str "username", some (.string username))])
  | .logout logoutURL => some (.record [(str "logout_url", some (.string logoutURL))])
  | .object _ | .redirect _ => none

/-- The body that `writeJSON` writes: nothing when the encoder fails. -/
def Payload.written (p : Payload) : Str := (p.json.map Json.line).getD []

end PierGateway.WebUI

namespace PierGateway.Spa.Formats
open GoStrings Json
open WebUI (Payload marshalTime formatInt)

/-! ### What is read -/

/-- `resp.data`: the parsed text, or the text where it cannot be parsed. -/
def received (text : Str) : Json := (read text).getD (.string (legible text))

def asText : Json → Option Str
  | .string s => some s
  | _ => none

def asFlag : Json → Option Bool
  | .bool b => some b
  | _ => none

def asList {α : Type} (item : Json → Option α) : Json → Option (List α)
  | .array items => items.mapM item
  | _ => none

section
variable {ν : Type} (number : Str → ν)

def asNumber : Json → Option ν
  | .number text => some (number text)
  | _ => none

/-- `ObjectInfo`, with what is shown of an object. -/
structure ObjectInfo (ν : Type) where
  key : Str
  sizeBytes : ν
  lastModified : Str
  etag : Str
  isPrefix : Bool

def ObjectInfo.of (v : Json) : Option (ObjectInfo ν) := do
  let key ← (property (str "key") v).bind asText
  let sizeBytes ← (property (str "size_bytes") v).bind (asNumber number)
  let lastModified ← (property (str "last_modified") v).bind asText
  let etag ← (property (str "etag") v).bind asText
  let isPrefix ← (property (str "is_prefix") v).bind asFlag
  return { key, sizeBytes, lastModified, etag, isPrefix }

def listing (v : Json) : ListObjectsResponse (ObjectInfo ν) Str where
  objects := (property (str "objects") v).bind (asList (ObjectInfo.of number))
  prefixes := (property (str "prefixes") v).bind (asList asText)
  nextPageToken := (property (str "next_page_token") v).bind asText
  truncated := (property (str "truncated") v).bind asFlag

def permissions (v : Json) : Option Buckets.Permissions := do
  let read ← (property (str "read") v).bind asFlag
  let write ← (property (str "write") v).bind asFlag
  return { read, write, delete := (property (str "delete") v).bind asFlag }

def bucketInfo (v : Json) : Option (Buckets.BucketInfo ν) := do
  let name ← (property (str "name") v).bind asText
  let permissions ← (property (str "permissions") v).bind permissions
  return {
    name, permissions
    objectCount := (property (str "object_count") v).bind (asNumber number)
    sizeBytes := (property (str "size_bytes") v).bind (asNumber number)
    statsTruncated := (property (str "stats_truncated") v).bind asFlag
    quotaBytes := (property (str "quota_bytes") v).bind (asNumber number) }

def bucketStats (v : Json) : Option (Buckets.BucketStats ν) := do
  let objectCount ← (property (str "object_count") v).bind (asNumber number)
  let sizeBytes ← (property (str "size_bytes") v).bind (asNumber number)
  let truncated ← (property (str "truncated") v).bind asFlag
  return {
    objectCount, sizeBytes, truncated
    quotaBytes := (property (str "quota_bytes") v).bind (asNumber number) }

/-- `MetaData` of the dialog with the metadata of an object. -/
structure MetaData (ν : Type) where
  key : Str
  contentType : Str
  contentLength : ν
  etag : Str
  lastModified : Str

def metaData (v : Json) : Option (MetaData ν) := do
  let key ← (property (str "key") v).bind asText
  let contentType ← (property (str "content_type") v).bind asText
  let contentLength ← (property (str "content_length") v).bind (asNumber number)
  let etag ← (property (str "etag") v).bind asText
  let lastModified ← (property (str "last_modified") v).bind asText
  return { key, contentType, contentLength, etag, lastModified }

end

/-- The groups are `null` for a user without any; nothing of the application looks at them. -/
def userInfo (v : Json) : Option UserInfo := do
  let username ← (property (str "username") v).bind asText
  return { username, groups := ((property (str "groups") v).bind (asList asText)).getD [] }

/-- The message that `errorMessage` looks for. -/
def failure (v : Json) : Failure := (property (str "message") v).bind asText

/-! ### What arrives -/

theorem received_line {n : ℕ} {v : Json} (h : Writable n v) (hn : n ≤ maxNestingDepth) :
    received (line v) = reread v := by
  rw [received, read_line h hn, Option.getD_some]

@[simp] theorem asText_reread (s : Str) : asText (reread (.string s)) = some (legible s) := by
  rw [reread]
  rfl

@[simp] theorem asFlag_reread (b : Bool) : asFlag (reread (.bool b)) = some b := by
  rw [reread]
  · rfl
  all_goals simp

@[simp] theorem asNumber_reread {ν : Type} (number : Str → ν) (n : ℤ) :
    asNumber number (reread (WebUI.whole n)) = some (number (formatInt n)) := by
  rw [WebUI.whole, reread]
  · rfl
  all_goals simp

theorem mapM_map {α β γ : Type} {f : β → Option γ} {h : α → β} {g : α → γ} {l : List α}
    (hall : ∀ x ∈ l, f (h x) = some (g x)) : (l.map h).mapM f = some (l.map g) := by
  induction l with
  | nil => rfl
  | cons x l ih =>
      have hrest := ih fun y hy => hall y (List.mem_cons_of_mem _ hy)
      rw [List.map_cons, List.mapM_cons, hall x List.mem_cons_self, hrest]
      rfl

theorem mapM_none {α β : Type} {f : α → Option β} {l : List α} {x : α} (hx : x ∈ l)
    (h : f x = none) :
    l.mapM f = none := by
  induction l with
  | nil => cases hx
  | cons y l ih =>
      rw [List.mapM_cons]
      rcases List.mem_cons.mp hx with rfl | hmem
      · rw [h]
        rfl
      · rw [ih hmem]
        cases f y with
        | none => rfl
        | some _ => rfl

theorem asList_reread {α β : Type} {item : Json → Option β} {json : α → Json} {shown : α → β}
    {l : List α} (h : ∀ x ∈ l, item (reread (json x)) = some (shown x)) :
    asList item (reread (.array (l.map json))) = some (l.map shown) := by
  rw [reread, rereadItems_eq, asList, List.map_map]
  exact mapM_map h

@[simp] theorem asList_texts (list : List Str) :
    asList asText (reread (WebUI.texts list)) = some (list.map legible) :=
  asList_reread fun s _ => asText_reread s

theorem lookup_str {β : Type} (a b : String) (v : β) (l : List (Str × β)) :
    List.lookup (str a) ((str b, v) :: l) = if a = b then some v else List.lookup (str a) l := by
  rw [List.lookup_cons]
  split_ifs with h
  · rw [h, beq_self_eq_true]
  · rw [beq_false_of_ne (mt str_inj.mp h)]

theorem omitEmpty_reread {α : Type} (empty : Prop) [Decidable empty] (v : Json)
    (f : Json → Option α) :
    ((WebUI.omitEmpty empty v).map reread).bind f = if empty then none else f (reread v) := by
  unfold WebUI.omitEmpty
  split_ifs
  · rfl
  · rfl

theorem writable_omitEmpty {n : ℕ} {empty : Prop} [Decidable empty] {v : Json} (h : Writable n v) :
    ∀ w ∈ WebUI.omitEmpty empty v, Writable n w := by
  intro w hw
  unfold WebUI.omitEmpty at hw
  split_ifs at hw
  · cases hw
  · obtain rfl := Option.some.inj hw
    exact h

/-! ### Times and numbers -/

theorem twoDigits_ascii (n : ℕ) : ∀ c ∈ WebUI.twoDigits n, c < 0x80 := by
  have hdigit : ∀ k : Fin 10, 0x30 + UInt8.ofNat k < 0x80 := by decide
  have hall : ∀ m, 0x30 + UInt8.ofNat (m % 10) < 0x80 := fun m => hdigit ⟨m % 10, by omega⟩
  intro c hc
  simp only [WebUI.twoDigits, List.mem_cons, List.not_mem_nil, or_false] at hc
  rcases hc with rfl | rfl
  · exact hall (n / 10)
  · exact hall n

theorem fraction_ascii (n : ℕ) : ∀ c ∈ WebUI.fraction n, c < 0x80 := by
  have hdigit : ∀ k : Fin 10, 0x30 + UInt8.ofNat k < 0x80 := by decide
  intro c hc
  unfold WebUI.fraction at hc
  split_ifs at hc
  · cases hc
  · rcases List.mem_cons.mp hc with rfl | hmem
    · decide
    · obtain ⟨i, -, rfl⟩ := List.mem_map.mp ((List.rdropWhile_prefix _ _).subset hmem)
      exact hdigit ⟨n / 10 ^ i % 10, by omega⟩

theorem legible_time {time : WebUI.Time} {t : Str} (h : marshalTime time = some t) :
    legible t = t := by
  apply legible_ascii
  unfold marshalTime at h
  dsimp only at h
  split_ifs at h
  obtain rfl := Option.some.inj h
  have hmarks : (∀ c ∈ [hyphen], c < 0x80) ∧ (∀ c ∈ [colon], c < 0x80) ∧ (∀ c ∈ str "T", c < 0x80) ∧
      ∀ c ∈ str "Z", c < 0x80 := by decide +kernel
  obtain ⟨hhyphen, hcolon, hdate, hzone⟩ := hmarks
  have happend : ∀ {s t : Str}, (∀ c ∈ s, c < 0x80) → (∀ c ∈ t, c < 0x80) →
      ∀ c ∈ s ++ t, c < 0x80 := by
    intro s t hs ht c hc
    rcases List.mem_append.mp hc with hleft | hright
    · exact hs c hleft
    · exact ht c hright
  have hdays := fun y y' m d => happend (happend (happend (happend (happend (twoDigits_ascii y)
    (twoDigits_ascii y')) hhyphen) (twoDigits_ascii m)) hhyphen) (twoDigits_ascii d)
  have hclock := fun y y' m d hour min sec => happend (happend (happend (happend (happend (happend
    (hdays y y' m d) hdate) (twoDigits_ascii hour)) hcolon) (twoDigits_ascii min)) hcolon)
      (twoDigits_ascii sec)
  exact happend (happend (hclock _ _ _ _ _ _ _) (fraction_ascii _)) hzone

theorem writable_whole (n : ℕ) (k : ℤ) : Writable n (WebUI.whole k) := .number (validNumber_int k)

theorem writable_texts (n : ℕ) (list : List Str) : Writable (n + 1) (WebUI.texts list) := by
  refine .array fun v hv => ?_
  obtain ⟨s, -, rfl⟩ := List.mem_map.mp hv
  exact .string s

/-! ### The answers -/

theorem plain_names : ∀ names ∈ [
    [str "groups", str "username"],
    [str "error", str "message"],
    [str "key", str "size_bytes", str "last_modified", str "etag", str "is_prefix"],
    [str "read", str "write", str "delete"],
    [str "name", str "permissions", str "object_count", str "size_bytes"],
    [str "bucket", str "object_count", str "size_bytes", str "truncated", str "quota_bytes"],
    [str "content_length", str "content_type", str "etag", str "key", str "last_modified"],
    [str "objects", str "prefixes", str "next_page_token", str "truncated"]],
    Plain names := by
  decide +kernel

theorem userInfo_reread (username : Str) (groups : List Str) :
    let v := record [(str "groups", some (if groups = [] then .null else WebUI.texts groups)),
      (str "username", some (.string username))]
    userInfo (reread v) = some ⟨legible username, groups.map legible⟩ ∧ Writable 2 v := by
  have hplain : Plain [str "groups", str "username"] :=
    plain_names _ (by simp)
  have hread :=
    @property_reread [(str "groups", some (if groups = [] then .null else WebUI.texts groups)),
    (str "username", some (.string username))] hplain
  constructor
  · have hgroups :
        (asList asText (reread (if groups = [] then .null else WebUI.texts groups))).getD [] =
        groups.map legible := by
      split_ifs with hnil
      · rw [hnil]
        rfl
      · rw [asList_texts, Option.getD_some]
    unfold userInfo
    simp only [hread, lookup_str]
    simp [hgroups]
  · apply writable_record
    simp only [List.forall_mem_cons, List.not_mem_nil, false_implies, implies_true, and_true,
      Option.mem_some_iff, forall_eq']
    refine ⟨?_, .string _⟩
    split_ifs
    · exact .null
    · exact writable_texts 0 groups

theorem failure_reread (code message : Str) :
    let v := record [(str "error", some (.string code)), (str "message", some (.string message))]
    failure (reread v) = some (legible message) ∧ Writable 1 v := by
  have hplain : Plain [str "error", str "message"] :=
    plain_names _ (by simp)
  have hread :=
    @property_reread [(str "error", some (.string code)), (str "message", some (.string message))]
    hplain
  constructor
  · unfold failure
    simp [hread, lookup_str]
  · apply writable_record
    simp [Writable.string]

section
variable {ν : Type} (number : Str → ν)

def ObjectInfo.shown (o : WebUI.ObjectResponse) : ObjectInfo ν where
  key := legible o.key
  sizeBytes := number (formatInt o.sizeBytes)
  lastModified := (marshalTime o.lastModified).getD []
  etag := legible o.etag
  isPrefix := o.isPrefix

theorem objectInfo_reread {o : WebUI.ObjectResponse} {v : Json} (h : o.json = some v) :
    ObjectInfo.of number (reread v) = some (ObjectInfo.shown number o) ∧ Writable 1 v := by
  obtain ⟨t, ht, rfl⟩ := Option.map_eq_some_iff.mp h
  have hplain :
      Plain [str "key", str "size_bytes", str "last_modified", str "etag", str "is_prefix"] :=
    plain_names _ (by simp)
  have hread := @property_reread [(str "key", some (.string o.key)),
    (str "size_bytes", some (WebUI.whole o.sizeBytes)), (str "last_modified", some (.string t)),
    (str "etag", some (.string o.etag)), (str "is_prefix", some (.bool o.isPrefix))] hplain
  constructor
  · unfold ObjectInfo.of
    simp [hread, lookup_str, ObjectInfo.shown, ht, legible_time ht]
  · apply writable_record
    simp [writable_whole, Writable.string, Writable.bool]

theorem permissions_reread (p : WebUI.PermissionFlags) :
    permissions (reread p.json) = some ⟨p.read, p.write, some p.delete⟩ ∧ Writable 1 p.json := by
  have hplain : Plain [str "read", str "write", str "delete"] :=
    plain_names _ (by simp)
  have hread :=
    @property_reread [(str "read", some (.bool p.read)), (str "write", some (.bool p.write)),
    (str "delete", some (.bool p.delete))] hplain
  unfold WebUI.PermissionFlags.json
  constructor
  · unfold permissions
    simp [hread, lookup_str]
  · apply writable_record
    simp [Writable.bool]

theorem bucketInfo_reread (b : WebUI.BucketResponse) :
    bucketInfo number (reread b.json) = some {
      name := legible b.name
      permissions := ⟨b.permissions.read, b.permissions.write, some b.permissions.delete⟩ } ∧
    Writable 2 b.json := by
  have hplain : Plain [str "name", str "permissions", str "object_count", str "size_bytes"] :=
    plain_names _ (by simp)
  have hread := @property_reread [(str "name", some (.string b.name)),
    (str "permissions", some b.permissions.json), (str "object_count", none),
      (str "size_bytes", none)] hplain
  obtain ⟨hpermissions, hwritable⟩ := permissions_reread b.permissions
  unfold WebUI.BucketResponse.json
  constructor
  · unfold bucketInfo
    simp [hread, lookup_str, hpermissions]
  · apply writable_record
    simp [Writable.string, hwritable]

theorem bucketStats_reread (s : WebUI.BucketStatsResponse) :
    bucketStats number (reread s.json) = some {
      objectCount := number (formatInt s.objectCount)
      sizeBytes := number (formatInt s.sizeBytes)
      truncated := s.truncated
      quotaBytes := if s.quotaBytes = 0 then none else some (number (formatInt s.quotaBytes)) } ∧
    Writable 1 s.json := by
  have hplain : Plain [str "bucket", str "object_count", str "size_bytes", str "truncated",
      str "quota_bytes"] :=
    plain_names _ (by simp)
  have hread := @property_reread [(str "bucket", some (.string s.bucket)),
    (str "object_count", some (WebUI.whole s.objectCount)),
    (str "size_bytes", some (WebUI.whole s.sizeBytes)), (str "truncated", some (.bool s.truncated)),
    (str "quota_bytes", WebUI.omitEmpty (s.quotaBytes = 0) (WebUI.whole s.quotaBytes))] hplain
  unfold WebUI.BucketStatsResponse.json
  constructor
  · unfold bucketStats
    simp [hread, lookup_str, omitEmpty_reread]
  · apply writable_record
    simp only [List.forall_mem_cons, List.not_mem_nil, false_implies, implies_true, and_true,
      Option.mem_some_iff, forall_eq']
    exact ⟨.string _, writable_whole _ _, writable_whole _ _, .bool _,
      writable_omitEmpty (writable_whole _ _)⟩

theorem metaData_reread {m : WebUI.ObjectMeta} {t : Str}
    (ht : marshalTime m.lastModified = some t) :
    ∃ v, m.json = some v ∧ metaData number (reread v) = some {
      key := legible m.key
      contentType := legible m.contentType
      contentLength := number (formatInt m.contentLength)
      etag := legible m.etag
      lastModified := t } ∧ Writable 1 v := by
  have hplain : Plain [str "content_length", str "content_type", str "etag", str "key",
      str "last_modified"] :=
    plain_names _ (by simp)
  have hread := @property_reread [(str "content_length", some (WebUI.whole m.contentLength)),
    (str "content_type", some (.string m.contentType)), (str "etag", some (.string m.etag)),
    (str "key", some (.string m.key)), (str "last_modified", some (.string t))] hplain
  refine ⟨_, by rw [WebUI.ObjectMeta.json, ht]; rfl, ?_, ?_⟩
  · unfold metaData
    simp [hread, lookup_str, legible_time ht]
  · apply writable_record
    simp [writable_whole, Writable.string]

/-- A listing arrives whole; with a time that cannot be written nothing is, and it is empty. -/
theorem listing_received (l : WebUI.ListObjectsResponse) :
    listing number (received (Payload.objects l).written) =
    if ∀ o ∈ l.objects, (marshalTime o.lastModified).isSome then {
      objects := some (l.objects.map (ObjectInfo.shown number))
      prefixes := some (l.prefixes.map legible)
      nextPageToken := if l.nextPageToken = [] then none else some (legible l.nextPageToken)
      truncated := some l.truncated }
    else {} := by
  have hjson : ∀ o : WebUI.ObjectResponse, o.json.isSome = (marshalTime o.lastModified).isSome :=
    fun _ => Option.isSome_map
  by_cases hdated : ∀ o ∈ l.objects, (marshalTime o.lastModified).isSome
  · rw [if_pos hdated]
    have hobjects : ∀ o ∈ l.objects, o.json = some (o.json.getD .null) := by
      intro o ho
      have hsome : o.json.isSome = true := (hjson o).trans (hdated o ho)
      obtain ⟨v, hv⟩ := Option.isSome_iff_exists.mp hsome
      rw [hv, Option.getD_some]
    have hlist : l.objects.mapM WebUI.ObjectResponse.json =
        some (l.objects.map fun o => o.json.getD .null) := by
      have hall := mapM_map (h := id) hobjects
      rwa [List.map_id] at hall
    have hplain : Plain [str "objects", str "prefixes", str "next_page_token", str "truncated"] :=
      plain_names _ (by simp)
    have hread :=
      @property_reread [(str "objects", some (.array (l.objects.map fun o => o.json.getD .null))),
      (str "prefixes", some (WebUI.texts l.prefixes)),
      (str "next_page_token", WebUI.omitEmpty (l.nextPageToken = []) (.string l.nextPageToken)),
      (str "truncated", some (.bool l.truncated))] hplain
    have hitems :
        asList (ObjectInfo.of number) (reread (.array (l.objects.map fun o => o.json.getD .null))) =
        some (l.objects.map (ObjectInfo.shown number)) :=
      asList_reread fun o ho => (objectInfo_reread number (hobjects o ho)).1
    rw [Payload.written, Payload.json, WebUI.ListObjectsResponse.json, hlist, Option.map_some,
      Option.map_some, Option.getD_some, received_line (n := 3)]
    · unfold listing
      simp [hread, lookup_str, hitems, omitEmpty_reread]
    · apply writable_record
      simp only [List.forall_mem_cons, List.not_mem_nil, false_implies, implies_true, and_true,
        Option.mem_some_iff, forall_eq']
      refine ⟨.array fun v hv => ?_, writable_texts 1 l.prefixes, writable_omitEmpty (.string _),
        .bool _⟩
      obtain ⟨o, ho, rfl⟩ := List.mem_map.mp hv
      exact (objectInfo_reread number (hobjects o ho)).2
    · decide
  · rw [if_neg hdated]
    obtain ⟨o, ho, hnone⟩ := not_forall₂.mp hdated
    have hnone' : o.json = none := by
      rw [← Option.not_isSome_iff_eq_none, hjson]
      exact hnone
    rw [Payload.written, Payload.json, WebUI.ListObjectsResponse.json, mapM_none ho hnone']
    rfl

/-- What the gateway answers is what the application reads: lists of buckets without numbers,
listings, numbers with their quota, metadata, the user and messages. Names arrive legible, fields
that are left out are missing, and numbers are read from the digits that stand for them. -/
theorem answers_arrive :
    (∀ list, asList (bucketInfo number) (received (Payload.buckets list).written) =
      some (list.map fun b => {
        name := legible b.name
        permissions := ⟨b.permissions.read, b.permissions.write, some b.permissions.delete⟩ })) ∧
    (∀ l, listing number (received (Payload.objects l).written) =
      if ∀ o ∈ l.objects, (marshalTime o.lastModified).isSome then {
        objects := some (l.objects.map (ObjectInfo.shown number))
        prefixes := some (l.prefixes.map legible)
        nextPageToken := if l.nextPageToken = [] then none else some (legible l.nextPageToken)
        truncated := some l.truncated }
      else {}) ∧
    (∀ s, bucketStats number (received (Payload.stats s).written) = some {
      objectCount := number (formatInt s.objectCount)
      sizeBytes := number (formatInt s.sizeBytes)
      truncated := s.truncated
      quotaBytes := if s.quotaBytes = 0 then none else some (number (formatInt s.quotaBytes)) }) ∧
    (∀ m, metaData number (received (Payload.objectMeta m).written) =
      (marshalTime m.lastModified).map fun t => {
        key := legible m.key
        contentType := legible m.contentType
        contentLength := number (formatInt m.contentLength)
        etag := legible m.etag
        lastModified := t }) ∧
    (∀ username groups, userInfo (received (Payload.identity username groups).written) =
      some ⟨legible username, groups.map legible⟩) ∧
    ∀ code message, failure (received (Payload.error code message).written) =
        some (legible message) := by
  refine ⟨fun list => ?_, listing_received number, fun s => ?_, fun m => ?_,
    fun username groups => ?_, fun code message => ?_⟩
  · have hwritable : Writable 3 (.array (list.map WebUI.BucketResponse.json)) := by
      refine .array fun v hv => ?_
      obtain ⟨b, -, rfl⟩ := List.mem_map.mp hv
      exact (bucketInfo_reread number b).2
    rw [Payload.written, Payload.json, Option.map_some, Option.getD_some,
      received_line hwritable (by decide)]
    exact asList_reread fun b _ => (bucketInfo_reread number b).1
  · obtain ⟨hread, hwritable⟩ := bucketStats_reread number s
    rw [Payload.written, Payload.json, Option.map_some, Option.getD_some,
      received_line hwritable (by decide), hread]
  · cases ht : marshalTime m.lastModified with
    | none =>
        rw [Payload.written, Payload.json, WebUI.ObjectMeta.json, ht]
        rfl
    | some t =>
        obtain ⟨v, hv, hread, hwritable⟩ := metaData_reread number ht
        rw [Payload.written, Payload.json, hv, Option.map_some, Option.getD_some,
          received_line hwritable (by decide), hread, Option.map_some]
  · obtain ⟨hread, hwritable⟩ := userInfo_reread username groups
    rw [Payload.written, Payload.json, Option.map_some, Option.getD_some,
      received_line hwritable (by decide), hread]
  · obtain ⟨hread, hwritable⟩ := failure_reread code message
    rw [Payload.written, Payload.json, Option.map_some, Option.getD_some,
      received_line hwritable (by decide), hread]

end

end PierGateway.Spa.Formats
