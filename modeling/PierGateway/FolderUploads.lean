import PierGateway.CrossSite
import PierGateway.Folders
import PierGateway.KeyTransport
import PierGateway.ObjectIntegrity

/-!
# Uploads into a folder

A file that is dropped on a folder is put under the key made of the folder and of its name. The
key travels in a path that the browser, the router and its redirects may change. If no name on
the way is empty or a dot segment the file is found where it was dropped and changes nothing
else; if one is, the folder does not show it.
-/
namespace PierGateway.Spa.Folders
open GoStrings GoUnicode KeyTrees HttpMessages Auth Acl DotSegments CleanPaths
open WebUI (UIConfig Op PutObjectInput ListObjectsOutput Endpoint KeyUse Reaches Transparent follow
  maxRequests buildObjectPath routed)

/-- The key that a file is uploaded under. -/
def uploadKey (prefixPath name : Str) : Str := prefixPath ++ name

/-- The call that the request of an upload ends in, if it does: the path of the key is requested,
and the handler that the router finds is run on the file. -/
def uploadCall (cfg : UIConfig) (verifier : TokenVerifier) (header : Header)
    (file bucket key : Str) : Option Op :=
  (follow (str "PUT") header maxRequests (buildObjectPath bucket key)).bind fun (r, m) =>
    m.handler.bind fun e =>
      (cfg.handler verifier e (routed { toRequest := { r with body := file } } m)).nextCall

/-- The keys of the buckets after the storage has put an object. -/
def keysAfter (input : PutObjectInput) (keys : Str → Set Str) (bucket : Str) : Set Str :=
  if bucket = input.bucket then insert input.key (keys bucket) else keys bucket

/-- The token that the application sends is one that may write to the bucket. -/
def MayWrite (cfg : UIConfig) (verifier : TokenVerifier) (header : Header) (bucket : Str) : Prop :=
  ∃ token claims, header.get (str "Authorization") = str "Bearer " ++ token ∧
    trimSpace token ≠ [] ∧ verifier (trimSpace token) = .ok claims ∧
    checkAccess (cfg.mapper.groups claims) bucket (str "PUT") = true ∧ cfg.api.hasBackend = true

/-- No name on the way is empty or a dot segment, and the file has not the name of one. -/
def Travels (bucket prefixPath name : Str) : Prop :=
  (∀ part ∈ bucket :: (split slash prefixPath).dropLast, part ∉ [[], [dot], [dot, dot]]) ∧
    name ∉ [[dot], [dot, dot]]

/-- A page has the row of an object. -/
def HasRow (list : Str → ListObjectsOutput) (p k : Str) : Prop :=
  ∃ row ∈ rowsOf p (list p), row.isPrefix = false ∧ row.key = k

/-! ### Keys that travel -/

theorem dotKind_eq_name_iff {s : Str} : dotKind s = .name ↔ s ∉ [[dot], [dot, dot]] := by
  unfold dotKind
  split_ifs with hone htwo
  · simp [hone]
  · simp [htwo]
  · simp [hone, htwo]

theorem cleanKind_eq_name_iff {s : Str} : cleanKind s = .name ↔ s ∉ [[], [dot], [dot, dot]] := by
  unfold cleanKind
  split_ifs with hempty
  · simp [hempty]
  · rw [dotKind_eq_name_iff]
    simp [hempty]

/-- The name of the file is the last part of the key. -/
theorem split_uploadKey {p name : Str} (hp : Folder slash p) (hname : slash ∉ name) :
    split slash (uploadKey p name) = (split slash p).dropLast ++ [name] := by
  unfold uploadKey
  rcases hp with rfl | ⟨s, rfl⟩
  · rw [List.nil_append, split_of_not_mem slash hname]
    rfl
  · rw [split_append_cons, split_nil, List.dropLast_concat, List.append_assoc,
      List.singleton_append, split_append_cons, split_of_not_mem slash hname]

theorem transparent_iff {bucket p name : Str} (hp : Folder slash p) (hname : slash ∉ name) :
    Transparent bucket (uploadKey p name) ↔ Travels bucket p name := by
  unfold Transparent Travels
  rw [split_uploadKey hp hname, clean_append_singleton, cleanKind_eq_name_iff, dotKind_eq_name_iff,
    List.forall_mem_cons, and_assoc]
  simp only [cleanKind_eq_name_iff]

/-! ### The call of an upload -/

section
variable {cfg : UIConfig} {verifier : TokenVerifier} {header : Header} {file bucket key : Str}
  {input : PutObjectInput}

theorem header_of_follow {method ref : Str} {n : ℕ} {r : Request}
    {m : ServeMux.Match (Option Endpoint)} (h : follow method header n ref = some (r, m)) :
    r.header = header := by
  induction n generalizing ref with
  | zero => cases h
  | succ n ih =>
      unfold follow at h
      split at h
      · cases h
      · split at h
        · obtain ⟨rfl, -⟩ := Prod.mk.inj (Option.some.inj h)
          rfl
        · exact ih h
        · cases h

/-- An object is only put by the handler for it, under the bucket and the key that it finds. -/
theorem reaches_of_uploadCall
    (h : uploadCall cfg verifier header file bucket key = some (.putObject input)) :
    Reaches .upload header (buildObjectPath bucket key) input.bucket input.key := by
  obtain ⟨⟨r, m⟩, hfollow, h⟩ := Option.bind_eq_some_iff.mp h
  obtain ⟨e, he, hcall⟩ := Option.bind_eq_some_iff.mp h
  let a : WebUI.Arrival := ⟨e, routed { toRequest := { r with body := file } } m, verifier⟩
  have hsafe : (cfg.handler verifier e a.request).Safe (WebUI.Intends cfg a)
      (fun op x => WebUI.Honest op x ∧ WebUI.HandsOver (fun _ _ _ => True) op x)
      (WebUI.Shows cfg (fun _ _ _ => True) a) := WebUI.safe_objects a
  obtain ⟨method, hasks, -⟩ := hsafe.nextCall hcall _ _ _ rfl
  generalize ho : some input.object = o at hasks
  cases hasks with
  | upload hput htarget =>
      obtain rfl : e = .putObject := hput
      exact ⟨r, m, hfollow, he, htarget⟩
  | remove hdelete htarget => cases ho

theorem target_unique {use : KeyUse} {ref bucket' key' : Str}
    (h : Reaches use header ref bucket key) (h' : Reaches use header ref bucket' key') :
    bucket = bucket' ∧ key = key' := by
  obtain ⟨r, m, hfollow, -, htarget⟩ := h
  obtain ⟨r', m', hfollow', -, htarget'⟩ := h'
  obtain ⟨rfl, rfl⟩ := Prod.mk.inj (Option.some.inj (hfollow.symm.trans hfollow'))
  obtain ⟨hbucket, hkey⟩ := Prod.mk.inj (htarget.symm.trans htarget')
  exact ⟨hbucket, Option.some.inj hkey⟩

/-- The object is put where it was sent if and only if its key travels. -/
theorem put_there_iff {p name : Str} (hb : slash ∉ bucket) (hp : Folder slash p)
    (hname : slash ∉ name)
    (h : uploadCall cfg verifier header file bucket (uploadKey p name) =
      some (.putObject input)) :
    input.bucket = bucket ∧ input.key = uploadKey p name ↔ Travels bucket p name := by
  have hpath : buildObjectPath bucket (uploadKey p name) =
      ofSegments (KeyUse.upload.encodedSegments bucket (uploadKey p name)) :=
    KeyUse.upload.path_eq bucket (uploadKey p name)
  have hreaches := reaches_of_uploadCall h
  rw [← transparent_iff hp hname]
  constructor
  · rintro ⟨hbucket, hkey⟩
    rw [hbucket, hkey, hpath] at hreaches
    exact hreaches.transparent KeyUse.upload.encodedSegments_ne_nil
      (KeyUse.upload.visible_encodedSegments hb)
  · intro htransparent
    exact target_unique hreaches (htransparent.reaches KeyUse.upload header hb)

/-- The handler puts the body of a request under the bucket and the key that it finds in it. -/
theorem nextCall_of_mayWrite (hwrite : MayWrite cfg verifier header bucket)
    {r : WebUI.UIRequest} (hheader : r.header = header)
    (hfound : WebUI.bucketAndKeyFromRequest r = (bucket, key)) (hbucket : bucket ≠ [])
    (hkey : key ≠ []) :
    ∃ input, (cfg.handler verifier .putObject r).nextCall = some (.putObject input) ∧
      input.bucket = bucket ∧ input.key = key ∧ input.body = r.body := by
  obtain ⟨token, claims, hbearer, hne, hv, hc, hready⟩ := hwrite
  have htoken : WebUI.BearerToken r (trimSpace token) := by
    refine ⟨str "Bearer", token, ?_, by decide, by decide, rfl⟩
    rw [hheader, hbearer]
    rfl
  have hextract := WebUI.extractToken_of_bearer htoken
  let known : WebUI.UIRequest :=
    { r with identity := some ⟨claims, cfg.mapper.user claims, cfg.mapper.groups claims⟩ }
  have hrun : cfg.handler verifier .putObject r = cfg.api.handlePutObject known := by
    unfold UIConfig.handler
    rw [if_neg (by decide)]
    apply WebUI.authMiddleware_of_token
    · rw [hextract]
      exact hne
    · rw [hextract]
      exact fun hforged => Bool.false_ne_true hforged.1
    · rw [hextract]
      exact hv
  obtain ⟨next, hput, -⟩ :=
    WebUI.handlePutObject_of_access (r := known) hfound hbucket hkey hc hready
  refine ⟨WebUI.putObjectInput bucket key known, ?_, rfl, rfl, rfl⟩
  rw [hrun, hput]
  rfl

theorem exists_uploadCall (hb : slash ∉ bucket) (hkey : key ≠ [])
    (htransparent : Transparent bucket key) (hwrite : MayWrite cfg verifier header bucket) :
    ∃ input, uploadCall cfg verifier header file bucket key = some (.putObject input) ∧
      input.bucket = bucket ∧ input.key = key ∧ input.body = file := by
  obtain ⟨r, m, hfollow, he, htarget⟩ := htransparent.reaches KeyUse.upload header hb
  have hbucket : bucket ≠ [] := by
    rintro rfl
    have hname := htransparent.1
    rw [cleanKind_nil] at hname
    cases hname
  obtain ⟨hfst, hsnd⟩ := Prod.mk.inj htarget
  have hkept : r.header = header := header_of_follow hfollow
  have hfound : WebUI.bucketAndKeyFromRequest (routed { toRequest := { r with body := file } } m) =
      (bucket, key) := Prod.ext hfst (Option.some.inj hsnd)
  obtain ⟨input, hcall, hthere⟩ := nextCall_of_mayWrite hwrite hkept hfound hbucket hkey
  refine ⟨input, ?_, hthere⟩
  have hsent : follow (str "PUT") header maxRequests (buildObjectPath bucket key) = some (r, m) :=
    hfollow
  unfold uploadCall
  rw [hsent, Option.bind_some]
  dsimp only
  rw [he, Option.bind_some]
  exact hcall

/-! ### Where the file is found -/

variable {keys : Str → Set Str} {list : Str → Str → ListObjectsOutput} {name p : Str}

/-- The pages of a bucket that has got one more key: its folder has got a row. -/
theorem rows_insert {ks : Set Str} {out out' : Str → ListObjectsOutput} {k : Str}
    (h : ∀ q, Lists ks q (out q)) (h' : ∀ q, Lists (insert k ks) q (out' q)) (hp : Opened out p)
    (hk : Leaf slash p k) (q : Str) :
    (Opened out' q ↔ Opened out q) ∧
      (Opened out q → ∀ k', HasRow out' q k' ↔ HasRow out q k' ∨ q = p ∧ k' = k) := by
  have hreach := (opened_iff h).mp hp
  constructor
  · rw [opened_iff h', opened_iff h, reach_insert hreach hk]
  · intro hq k'
    have hqreach := (opened_iff h).mp hq
    unfold HasRow
    rw [objectRow_iff (h' q), objectRow_iff (h q)]
    constructor
    · rintro ⟨rfl | hmem, hleaf⟩
      · exact .inr ⟨hleaf.unique hqreach.folder hreach.folder hk, rfl⟩
      · exact .inl ⟨hmem, hleaf⟩
    · rintro (⟨hmem, hleaf⟩ | ⟨rfl, rfl⟩)
      · exact ⟨.inr hmem, hleaf⟩
      · exact ⟨.inl rfl, hk⟩

theorem rows_same {ks : Set Str} {out out' : Str → ListObjectsOutput}
    (h : ∀ q, Lists ks q (out q)) (h' : ∀ q, Lists ks q (out' q)) (q : Str) :
    (Opened out' q ↔ Opened out q) ∧ ∀ k, HasRow out' q k ↔ HasRow out q k := by
  constructor
  · rw [opened_iff h', opened_iff h]
  · intro k
    unfold HasRow
    rw [objectRow_iff (h' q), objectRow_iff (h q)]

/-- A file that a caller with the right to it drops on an opened folder is put by the gateway if its
key travels. Whatever it then has put: if the key travels, the file has its row in that folder,
and no other row and no folder of any bucket has changed; if not, no page shows the key that
did not before. -/
theorem upload_found (cfg : UIConfig) (verifier : TokenVerifier) (header : Header) (file : Str)
    (hb : slash ∉ bucket) (hne : name ≠ []) (hname : slash ∉ name)
    (h : ∀ b q, Lists (keys b) q (list b q)) (hp : Opened (list bucket) p) :
    (Travels bucket p name → MayWrite cfg verifier header bucket →
      ∃ input, uploadCall cfg verifier header file bucket (uploadKey p name) =
        some (.putObject input) ∧ input.body = file) ∧
    ∀ input (list' : Str → Str → ListObjectsOutput),
      uploadCall cfg verifier header file bucket (uploadKey p name) = some (.putObject input) →
      (∀ b q, Lists (keysAfter input keys b) q (list' b q)) →
      (Travels bucket p name → ∀ b q, (Opened (list' b) q ↔ Opened (list b) q) ∧
        (Opened (list b) q → ∀ k, HasRow (list' b) q k ↔
          HasRow (list b) q k ∨ b = bucket ∧ q = p ∧ k = uploadKey p name)) ∧
      (¬Travels bucket p name → ∀ q, HasRow (list' bucket) q (uploadKey p name) ↔
        HasRow (list bucket) q (uploadKey p name)) := by
  have hreach := (opened_iff (h bucket)).mp hp
  have hfolder := hreach.folder
  have hleaf : Leaf slash p (uploadKey p name) := ⟨name, hname, rfl⟩
  constructor
  · intro htravels hwrite
    have hkey : uploadKey p name ≠ [] := by simp [uploadKey, hne]
    have htransparent := (transparent_iff hfolder hname).mpr htravels
    obtain ⟨input, hcall, -, -, hbody⟩ := exists_uploadCall hb hkey htransparent hwrite
    exact ⟨input, hcall, hbody⟩
  · intro input list' hcall h'
    constructor
    · intro htravels b q
      obtain ⟨rfl, hkey⟩ := (put_there_iff hb hfolder hname hcall).mpr htravels
      by_cases hbucket : b = input.bucket
      · subst hbucket
        have hafter : keysAfter input keys input.bucket =
            insert (uploadKey p name) (keys input.bucket) := by rw [keysAfter, if_pos rfl, hkey]
        obtain ⟨hopened, hrows⟩ := rows_insert (h input.bucket)
          (fun q => hafter ▸ h' input.bucket q) hp hleaf q
        refine ⟨hopened, fun hq k => ?_⟩
        rw [hrows hq k]
        simp
      · have hafter : keysAfter input keys b = keys b := if_neg hbucket
        obtain ⟨hopened, hrows⟩ := rows_same (h b) (fun q => hafter ▸ h' b q) q
        refine ⟨hopened, fun _ k => ?_⟩
        rw [hrows k]
        exact ⟨.inl, fun hrow => hrow.resolve_right fun hthere => hbucket hthere.1⟩
    · intro hastray q
      have helsewhere := (put_there_iff hb hfolder hname hcall).not.mpr hastray
      unfold HasRow
      rw [objectRow_iff (h' bucket q), objectRow_iff (h bucket q)]
      unfold keysAfter
      split_ifs with hbucket
      · have hkey : uploadKey p name ≠ input.key := fun heq => helsewhere ⟨hbucket.symm, heq.symm⟩
        rw [Set.mem_insert_iff, or_iff_right hkey]
      · exact Iff.rfl

end

/-! ### Two uploads of one name -/

/-- The keys of one bucket. -/
def teamKeys (bucket : Str) : List Str := if bucket = str "team" then reportKeys else []

def teamHeader : Header := Header.ofLines [(str "Authorization", str "Bearer token")]

/-- A file of that name, dropped on a folder. -/
def dropped (p : Str) : Option Op :=
  uploadCall WebUI.openAPI (Proxy.verifierFor [str "team-rw"]) teamHeader (str "figures")
    (str "team") (uploadKey p (str "june"))

def listingAfter (input : PutObjectInput) (bucket p : Str) : ListObjectsOutput :=
  listing (if bucket = input.bucket then input.key :: teamKeys bucket else teamKeys bucket) p

theorem lists_teamKeys (b q : Str) : Lists { k | k ∈ teamKeys b } q (listing (teamKeys b) q) :=
  lists_listing (teamKeys b) q

theorem lists_listingAfter (input : PutObjectInput) (b q : Str) :
    Lists (keysAfter input (fun b => { k | k ∈ teamKeys b }) b) q (listingAfter input b q) := by
  unfold keysAfter listingAfter
  split_ifs
  · have hkeys : insert input.key { k | k ∈ teamKeys b } =
        { k | k ∈ input.key :: teamKeys b } := by
      ext k
      simp
    rw [hkeys]
    exact lists_listing (input.key :: teamKeys b) q
  · exact lists_listing (teamKeys b) q

theorem mayWrite_team :
    MayWrite WebUI.openAPI (Proxy.verifierFor [str "team-rw"]) teamHeader (str "team") := by
  have hknown : Proxy.verifierFor [str "team-rw"] (trimSpace (str "token")) =
      .ok (Proxy.claimsFor [str "team-rw"]) := if_pos (by decide)
  have hgroups : WebUI.openAPI.mapper.groups (Proxy.claimsFor [str "team-rw"]) =
      [str "team-rw"].map stripLeadingSlash := Proxy.groups_claimsFor _
  refine ⟨str "token", Proxy.claimsFor [str "team-rw"], by decide, by decide, hknown, ?_, rfl⟩
  rw [hgroups]
  decide

def junePut : PutObjectInput where
  bucket := str "team"
  key := str "reports/june"
  body := str "figures"
  contentType := WebUI.octetStream
  contentLength := none

theorem opened_team {p : Str} (h : Opened (listing reportKeys) p) :
    Opened (listing (teamKeys (str "team"))) p := by
  have hkeys : teamKeys (str "team") = reportKeys := if_pos rfl
  rw [hkeys]
  exact h

/-- Dropped on `reports/` the file is found there; dropped on `reports//` it is put into
`reports/` as well. -/
theorem upload_found_june :
    (∃ input, dropped (str "reports/") = some (.putObject input) ∧
      HasRow (listingAfter input (str "team")) (str "reports/") (str "reports/june")) ∧
    dropped (str "reports//") = some (.putObject junePut) ∧
      ¬HasRow (listingAfter junePut (str "team")) (str "reports//") (str "reports//june") := by
  have hb : slash ∉ str "team" := by decide
  have hne : str "june" ≠ [] := by decide
  have hname : slash ∉ str "june" := by decide
  constructor
  · obtain ⟨hput, hfound⟩ := upload_found WebUI.openAPI (Proxy.verifierFor [str "team-rw"])
      teamHeader (str "figures") hb hne hname lists_teamKeys (opened_team opened_reports)
    have htravels : Travels (str "team") (str "reports/") (str "june") := by
      unfold Travels
      decide
    obtain ⟨input, hcall, -⟩ := hput htravels mayWrite_team
    obtain ⟨hthere, -⟩ := hfound input _ hcall (lists_listingAfter input)
    obtain ⟨-, hrows⟩ := hthere htravels (str "team") (str "reports/")
    refine ⟨input, hcall, ?_⟩
    exact (hrows (opened_team opened_reports) _).mpr (.inr ⟨rfl, rfl, rfl⟩)
  · obtain ⟨-, hfound⟩ := upload_found WebUI.openAPI (Proxy.verifierFor [str "team-rw"])
      teamHeader (str "figures") hb hne hname lists_teamKeys (opened_team opened_nameless)
    have hcall : dropped (str "reports//") = some (.putObject junePut) := by decide +kernel
    have hastray : ¬Travels (str "team") (str "reports//") (str "june") := by
      unfold Travels
      decide
    obtain ⟨-, hlost⟩ := hfound junePut _ hcall (lists_listingAfter junePut)
    refine ⟨hcall, fun hrow => ?_⟩
    have hbefore := (hlost hastray (str "reports//")).mp hrow
    unfold HasRow at hbefore
    rw [objectRow_iff (lists_teamKeys (str "team") (str "reports//"))] at hbefore
    have habsent : uploadKey (str "reports//") (str "june") ∉ teamKeys (str "team") := by decide
    exact habsent hbefore.1

end PierGateway.Spa.Folders
