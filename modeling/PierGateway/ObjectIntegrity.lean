import PierGateway.Isolation

/-!
# Objects are what was uploaded

Requests for objects are served at once and know nothing of each other. Over a storage that keeps
each object as it was put, what is stored and what is downloaded is what the requests of callers
with a right to it have made of the storage before: nobody else puts an object in its place,
changes one or takes one away, whatever is requested in between. And what a request was told
it had done stays done until another one with that right undoes it.
-/
namespace PierGateway.WebUI
open GoStrings HttpMessages Auth Acl Interaction Proxy

/-! ### A storage of objects -/

structure StoredObject where
  body : Str
  contentType : Str

def PutObjectInput.object (input : PutObjectInput) : StoredObject := ⟨input.body, input.contentType⟩

/-- The object a call leaves under a key, or that it leaves none there. -/
def Op.written : Op → Option (Str × Str × Option StoredObject)
  | .putObject input => some (input.bucket, input.key, some input.object)
  | .deleteObject bucket key => some (bucket, key, none)
  | _ => none

/-- A storage that serves the objects as they were put and touches no key but the one it is told. A
write that fails may have been carried out or not. -/
structure KeepsObjects {β : Type} (serves : Serves β) (content : β → Str → Option StoredObject) :
    Prop where
  get : ∀ gone s bucket key out t, serves gone s (.getObject bucket key) (.ok out) t →
    content s key = some ⟨out.body, out.contentType.getD []⟩
  put : ∀ gone s input t, serves gone s (.putObject input) (.ok ()) t →
    content t input.key = some input.object
  delete : ∀ gone s bucket key t, serves gone s (.deleteObject bucket key) (.ok ()) t →
    content t key = none
  write : ∀ gone s op x t bucket key o, op.written = some (bucket, key, o) → serves gone s op x t →
    ∀ k, content t k = content s k ∨ k = key ∧ content t k = o
  read : ∀ gone s op x t, op.written = none → serves gone s op x t → content t = content s

theorem Op.scope_of_written {op : Op} {bucket key : Str} {o : Option StoredObject}
    (h : op.written = some (bucket, key, o)) : ∃ method, op.scope = some (bucket, method) := by
  cases op with
  | putObject | deleteObject =>
      obtain ⟨rfl, -⟩ := Prod.mk.inj (Option.some.inj h)
      exact ⟨_, rfl⟩
  | _ => cases h

theorem Op.address_of_written {op : Op} {bucket key : Str} {o : Option StoredObject}
    (h : op.written = some (bucket, key, o)) : op.address = some (bucket, some key) := by
  cases op with
  | putObject | deleteObject =>
      obtain ⟨rfl, hrest⟩ := Prod.mk.inj (Option.some.inj h)
      obtain ⟨rfl, -⟩ := Prod.mk.inj hrest
      rfl
  | _ => cases h

/-! ### What a request makes of a key -/

/-- The request is for leaving this under the key, which takes a right to the method. -/
inductive Asks (a : Arrival) (bucket key : Str) : Str → Option StoredObject → Prop
  | upload (he : a.endpoint = .putObject) (ht : a.endpoint.target a.request = (bucket, some key)) :
      Asks a bucket key (str "PUT") (some (putObjectInput bucket key a.request).object)
  | remove (he : a.endpoint = .deleteObject)
      (ht : a.endpoint.target a.request = (bucket, some key)) :
      Asks a bucket key (str "DELETE") none

section
variable (cfg : UIConfig)

/-- The same of a caller who has the right. -/
def Writes (a : Arrival) (bucket key : Str) (o : Option StoredObject) : Prop :=
  ∃ method, Asks a bucket key method o ∧ Cleared cfg a bucket method

/-- What a call writes, its request is for. -/
def Intends (a : Arrival) (op : Op) : Prop :=
  ∀ bucket key o, op.written = some (bucket, key, o) → Writes cfg a bucket key o

variable (known : Str → Str → Option StoredObject → Prop)

/-- An object the storage hands out is a known one. -/
def HandsOver : (op : Op) → Reply op → Prop
  | .getObject bucket key, .ok out => known bucket key (some ⟨out.body, out.contentType.getD []⟩)
  | _, _ => True

/-- A download is made from a known object that its caller may read. -/
def Shows (a : Arrival) (answer : Answer) : Prop :=
  a.endpoint = .getObject → ∀ body, answer.payload = .object body → ∃ bucket key out,
    a.endpoint.target a.request = (bucket, some key) ∧ Cleared cfg a bucket (str "GET") ∧
      known bucket key (some ⟨out.body, out.contentType.getD []⟩) ∧
        answer = { status := 200, header := objectHeader key out, payload := .object out.body }

variable {cfg known}

/-- The handlers on keys: what they answer by themselves is no object, and then comes one call. -/
theorem safe_checked {allowed : Op → Prop} {promised : ∀ op, Reply op → Prop}
    {right : Answer → Prop}
    {groups : List Str} {bucket key method code message : Str} {ready : Bool} {op : Op}
    {next : Reply op → Prog Op Reply Answer}
    (hright : ∀ status code message, right (writeError status code message))
    (hop : checkAccess groups bucket method = true → allowed op)
    (hnext : checkAccess groups bucket method = true →
      ∀ x, promised op x → (next x).Safe allowed promised right) :
    (if bucket = [] ∨ key = [] then .done badRequest
      else if !checkAccess groups bucket method then .done (writeError 403 code message)
      else if !ready then .done backendUnavailable
      else .call op next : Prog Op Reply Answer).Safe allowed promised right := by
  split_ifs with hempty hdenied hready
  · exact hright 400 _ _
  · exact hright 403 _ _
  · exact hright 503 _ _
  · have hc : checkAccess groups bucket method = true := by simpa using hdenied
    exact ⟨hop hc, hnext hc⟩

theorem safe_unkeyed (a : Arrival) (hkey : (a.endpoint.target a.request).2 = none)
    (hget : a.endpoint ≠ .getObject) :
    (cfg.handler a.verifier a.endpoint a.request).Safe (Intends cfg a)
      (fun op x => Honest op x ∧ HandsOver known op x) (Shows cfg known a) := by
  apply ((safe_handler cfg a).promise fun op x hx => hx.1).mono
  · intro op hop bucket key o hwritten
    have htarget := (hop.address _ (Op.address_of_written hwritten)).1
    rw [← htarget] at hkey
    cases hkey
  · intro answer _ he
    exact absurd he hget

theorem safe_objects (a : Arrival) :
    (cfg.handler a.verifier a.endpoint a.request).Safe (Intends cfg a)
      (fun op x => Honest op x ∧ HandsOver known op x) (Shows cfg known a) := by
  obtain ⟨e, r, verifier⟩ := a
  have hrefused : ∀ status code message,
      Shows cfg known ⟨e, r, verifier⟩ (writeError status code message) := by
    intro status code message _ body hbody
    cases hbody
  cases e with
  | getObject =>
      apply safe_authMiddleware hrefused
      intro claims username htoken hv
      refine safe_checked hrefused (fun hc bucket key o hwritten => by cases hwritten)
        fun hc out hout => ?_
      cases out with
      | error err => exact hrefused 502 _ _
      | ok result => exact fun _ _ _ => ⟨_, _, result, rfl, ⟨claims, htoken, hv, hc⟩, hout.2, rfl⟩
  | putObject =>
      apply safe_authMiddleware hrefused
      intro claims username htoken hv
      refine safe_checked hrefused (fun hc bucket key o hwritten => ?_) fun hc out hout => ?_
      · obtain ⟨rfl, hrest⟩ := Prod.mk.inj (Option.some.inj hwritten)
        obtain ⟨rfl, rfl⟩ := Prod.mk.inj hrest
        exact ⟨_, .upload rfl rfl, claims, htoken, hv, hc⟩
      · cases out with
        | error err => exact hrefused 502 _ _
        | ok result => exact fun he => by cases he
  | deleteObject =>
      apply safe_authMiddleware hrefused
      intro claims username htoken hv
      refine safe_checked hrefused (fun hc bucket key o hwritten => ?_) fun hc out hout => ?_
      · obtain ⟨rfl, hrest⟩ := Prod.mk.inj (Option.some.inj hwritten)
        obtain ⟨rfl, rfl⟩ := Prod.mk.inj hrest
        exact ⟨_, .remove rfl rfl, claims, htoken, hv, hc⟩
      · cases out with
        | error err => exact hrefused 502 _ _
        | ok result => exact fun he => by cases he
  | objectMeta =>
      apply safe_authMiddleware hrefused
      intro claims username htoken hv
      refine safe_checked hrefused (fun hc bucket key o hwritten => by cases hwritten)
        fun hc out hout => ?_
      cases out with
      | error err => exact hrefused 502 _ _
      | ok result => exact fun he => by cases he
  | _ => exact safe_unkeyed _ rfl (by simp)

end

/-! ### One call -/

section
variable {cfg : UIConfig} {β : Type} {serves : Serves β} {names : Outside}
  {content : β → Str → Option StoredObject} {i : ℕ} {s t : Stored β} {op : Op} {x : Reply op}

theorem StoreHandle.labelled (h : StoreHandle serves names i s op x t) (hs : s.world.Labelled)
    (hop : op.Files) : t.world.Labelled ∧ Honest op x := by
  cases h with
  | bucket hscope h =>
      refine ⟨hs, ?_⟩
      cases op with
      | listObjects | getObject | headObject | putObject | deleteObject => trivial
      | _ => cases hscope
  | own hscope h => exact h.labelled hs hop

theorem StoreHandle.content_cases (hkeeps : KeepsObjects serves content)
    (h : StoreHandle serves names i s op x t) (bucket key : Str) :
    content (t.store bucket) key = content (s.store bucket) key ∨
      ∃ o, op.written = some (bucket, key, o) ∧ content (t.store bucket) key = o := by
  cases h with
  | own hscope h => exact .inl rfl
  | @bucket b method u hscope h =>
      by_cases hb : bucket = b
      · subst hb
        dsimp only
        rw [Function.update_self]
        rcases hwritten : op.written with _ | ⟨b, k, o⟩
        · left
          rw [hkeeps.read _ _ _ _ _ hwritten h]
        · obtain ⟨method', hscope'⟩ := Op.scope_of_written hwritten
          obtain ⟨rfl, -⟩ := Prod.mk.inj (Option.some.inj (hscope.symm.trans hscope'))
          rcases hkeeps.write _ _ _ _ _ _ _ _ hwritten h key with hsame | ⟨rfl, ho⟩
          · exact .inl hsame
          · exact .inr ⟨o, rfl, ho⟩
      · left
        dsimp only
        rw [Function.update_of_ne hb]

theorem StoreHandle.handsOver (hkeeps : KeepsObjects serves content)
    {known : Str → Str → Option StoredObject → Prop} (h : StoreHandle serves names i s op x t)
    (hknown : ∀ bucket key, known bucket key (content (s.store bucket) key)) :
    HandsOver known op x := by
  cases op with
  | getObject bucket key =>
      cases x with
      | error err => trivial
      | ok out =>
          cases h with
          | bucket hscope h =>
              obtain ⟨rfl, -⟩ := Prod.mk.inj (Option.some.inj hscope)
              have hkept := hknown bucket key
              rw [hkeeps.get _ _ _ _ _ _ h] at hkept
              exact hkept
          | own hscope h => cases hscope
  | _ => trivial

end

/-! ### An upload and a download -/

/-- A storage that only serves and stores. -/
inductive PlainStorage (gone : Prop) (s : Str → Option StoredObject) :
    (op : Op) → Reply op → (Str → Option StoredObject) → Prop
  | get {bucket key : Str} {obj : StoredObject} (h : s key = some obj) :
      PlainStorage gone s (.getObject bucket key)
        (.ok { contentType := some obj.contentType, body := obj.body }) s
  | put (input : PutObjectInput) :
      PlainStorage gone s (.putObject input) (.ok ())
        (Function.update s input.key (some input.object))
  | delete (bucket key : Str) :
      PlainStorage gone s (.deleteObject bucket key) (.ok ()) (Function.update s key none)

theorem keepsObjects_plainStorage : KeepsObjects PlainStorage fun s key => s key where
  get gone s bucket key out t h := by
    cases h with
    | get hobj => exact hobj
  put gone s input t h := by
    cases h with
    | put => exact Function.update_self _ _ _
  delete gone s bucket key t h := by
    cases h with
    | delete => exact Function.update_self _ _ _
  write gone s op x t bucket key o hwritten h k := by
    cases h with
    | get => cases hwritten
    | put input =>
        obtain ⟨-, hrest⟩ := Prod.mk.inj (Option.some.inj hwritten)
        obtain ⟨rfl, rfl⟩ := Prod.mk.inj hrest
        by_cases hk : k = input.key
        · exact .inr ⟨hk, by rw [hk, Function.update_self]⟩
        · exact .inl (Function.update_of_ne hk _ _)
    | delete b key' =>
        obtain ⟨-, hrest⟩ := Prod.mk.inj (Option.some.inj hwritten)
        obtain ⟨rfl, rfl⟩ := Prod.mk.inj hrest
        by_cases hk : k = key'
        · exact .inr ⟨hk, by rw [hk, Function.update_self]⟩
        · exact .inl (Function.update_of_ne hk _ _)
  read gone s op x t hwritten h := by
    cases h with
    | get => rfl
    | put => cases hwritten
    | delete => cases hwritten

abbrev plainSystem : System Op Reply Arrival Answer (Stored (Str → Option StoredObject)) :=
  storedSystem openAPI PlainStorage fun _ _ _ => True

def downloadArrival : Arrival :=
  arrivalOf [str "reports-ro"] .getObject (str "GET") (str "/api/v1/buckets/reports/objects/new")
    [(str "bucket", str "reports"), (str "key", str "new")]

theorem start_downloadArrival : ∃ next, plainSystem.start downloadArrival =
      .call (.getObject (str "reports") (str "new")) next ∧
    ∀ out, next (.ok out) = .done {
      status := 200, header := objectHeader (str "new") out, payload := .object out.body } := by
  have ht : extractToken downloadArrival.request = (str "token", false) := by decide
  have hb : bucketAndKeyFromRequest (known [str "reports-ro"] downloadArrival.request) =
      (str "reports", str "new") := by decide
  have hc : checkAccess ([str "reports-ro"].map stripLeadingSlash) (str "reports") (str "GET") =
      true := by
    decide
  have hne : ¬(str "reports" = [] ∨ str "new" = []) := by decide
  change ∃ next, openAPI.handler
    (verifierFor [str "reports-ro"]) .getObject downloadArrival.request =
    _ ∧ _
  rw [handler_known rfl ht]
  change ∃ next, openAPI.api.handleGetObject (known [str "reports-ro"] downloadArrival.request) =
    _ ∧ _
  unfold API.handleGetObject
  rw [hb, getGroups_known]
  dsimp only
  rw [if_neg hne, hc]
  exact ⟨_, rfl, fun _ => rfl⟩

/-- A run in which a reader downloads what was uploaded while its request was on its way. -/
theorem downloaded_after_upload :
    ∃ (c : Config Op Reply Arrival Answer (Stored (Str → Option StoredObject))) (answer : Answer)
    (body : Str), plainSystem.Reachable ⟨{ now := 0 }, fun _ _ => none⟩ c ∧
      c.threads 0 = some (uploadArrival,
        .done (writeJSON 200 (.status (str "uploaded") (str "new")))) ∧
      c.threads 1 = some (downloadArrival, .done answer) ∧ answer.payload = .object body ∧
      ∀ i a p, c.threads i = some (a, p) → i = 0 ∨ a = downloadArrival := by
  obtain ⟨next, hupload, hnext⟩ := uploadsTo_uploadArrival.start
  have hstart : plainSystem.start uploadArrival = .call _ next := hupload
  obtain ⟨next', hdownload, hnext'⟩ := start_downloadArrival
  have h₀ : plainSystem.Reachable ⟨{ now := 0 }, fun _ _ => none⟩ (System.initial _) := .refl
  have h₁ := h₀.tail (.start 1 downloadArrival rfl)
  have h₂ := h₁.tail (.start 0 uploadArrival rfl)
  rw [hstart, hdownload] at h₂
  have h₃ := h₂.tail (.call 0 uploadArrival _ next (.ok ()) _ rfl (.bucket rfl (.put _)))
  have h₄ := h₃.tail (.call 1 downloadArrival _ next' _ _ rfl (.bucket rfl (.get (by rfl))))
  rw [hnext, hnext'] at h₄
  refine ⟨_, _, _, h₄, rfl, rfl, rfl, fun i a p hi => ?_⟩
  by_cases hzero : i = 0
  · exact .inl hzero
  · by_cases hone : i = 1
    · subst hone
      exact .inr (Prod.mk.inj (Option.some.inj hi)).1.symm
    · simp [hzero, hone, System.initial] at hi

/-! ### All runs -/

section
variable (cfg : UIConfig) {β : Type} (content : β → Str → Option StoredObject) (before : Str → β)
  (present : Arrival → Prop)

/-- What is under a key was there before, or one of these requests left it there. -/
def LeftBy (bucket key : Str) (o : Option StoredObject) : Prop :=
  content (before bucket) key = o ∨ ∃ a, present a ∧ Writes cfg a bucket key o

/-- The invariant of the storage. -/
structure Authored (s : Stored β) : Prop where
  labelled : s.world.Labelled
  keys : ∀ bucket key, LeftBy cfg content before present bucket key (content (s.store bucket) key)

variable {cfg content before present} {serves : Serves β} {names : Outside}

theorem Authored.handle (hkeeps : KeepsObjects serves content) {s t : Stored β}
    (h : Authored cfg content before present s) {i : ℕ} {a : Arrival} {op : Op} {x : Reply op}
    (ha : present a) (hop : Allowed cfg a op ∧ Intends cfg a op)
    (hs : StoreHandle serves names i s op x t) :
    Authored cfg content before present t ∧
      Honest op x ∧ HandsOver (LeftBy cfg content before present) op x := by
  obtain ⟨hlabelled, hhonest⟩ := hs.labelled h.labelled hop.1.files
  refine ⟨⟨hlabelled, fun bucket key => ?_⟩, hhonest, hs.handsOver hkeeps h.keys⟩
  rcases hs.content_cases hkeeps bucket key with hsame | ⟨o, hwritten, ho⟩
  · rw [hsame]
    exact h.keys bucket key
  · rw [ho]
    exact .inr ⟨a, ha, hop.2 bucket key o hwritten⟩

theorem authored_holds (hkeeps : KeepsObjects serves content) {now : Time}
    {c : Config Op Reply Arrival Answer (Stored β)}
    (hc : (storedSystem cfg serves names).Reachable ⟨{ now := now }, before⟩ c)
    (hpresent : ∀ i a p, c.threads i = some (a, p) → present a) :
    System.Holds (Authored cfg content before present)
      (fun a op => Allowed cfg a op ∧ Intends cfg a op)
      (fun op x => Honest op x ∧ HandsOver (LeftBy cfg content before present) op x)
      (fun a answer => Right cfg a answer ∧
        Shows cfg (LeftBy cfg content before present) a answer) c := by
  refine System.guarantee_among ?_ ?_ ?_ ?_ hc hpresent
  · intro a _
    exact (safe_handler cfg a).both (safe_objects a) fun op x _ hx => hx.1
  · intro i s a op x t ha hs hop hstep
    exact hs.handle hkeeps ha hop hstep
  · intro s t hs hdrift
    refine ⟨hdrift.1.labelled hs.labelled, ?_⟩
    rw [hdrift.2]
    exact hs.keys
  · exact ⟨World.labelled_start now, fun bucket key => .inl rfl⟩

/-- The request is one of the run. -/
def TakesPart (c : Config Op Reply Arrival Answer (Stored β)) (a : Arrival) : Prop :=
  ∃ i p, c.threads i = some (a, p)

theorem takesPart_of_thread {c : Config Op Reply Arrival Answer (Stored β)} (i : ℕ) (a : Arrival)
    (p : Prog Op Reply Answer) (hi : c.threads i = some (a, p)) : TakesPart c a := ⟨i, p, hi⟩

/-- However the requests are interleaved, what is stored under a key was there before or is what one
of them left there whose caller had the right to, and a download is made from such an object by
a caller who may read it. -/
theorem objects_authored (hkeeps : KeepsObjects serves content) {now : Time}
    {c : Config Op Reply Arrival Answer (Stored β)}
    (hc : (storedSystem cfg serves names).Reachable ⟨{ now := now }, before⟩ c) :
    (∀ bucket key, LeftBy cfg content before (TakesPart c) bucket key
        (content (c.state.store bucket) key)) ∧
      ∀ i a answer, c.threads i = some (a, .done answer) →
        Shows cfg (LeftBy cfg content before (TakesPart c)) a answer := by
  have hholds := authored_holds hkeeps hc takesPart_of_thread
  constructor
  · exact hholds.state.keys
  · intro i a answer hi
    exact ((hholds.threads i a _ hi).result rfl).2

/-- What the reader got was there before or was uploaded. -/
theorem objects_authored_reports :
    ∃ (c : Config Op Reply Arrival Answer (Stored (Str → Option StoredObject))) (bucket key : Str)
      (out : GetObjectOutput),
      downloadArrival.endpoint.target downloadArrival.request = (bucket, some key) ∧
        LeftBy openAPI (fun (s : Str → Option StoredObject) key => s key) (fun _ _ => none)
          (TakesPart c)
          bucket key (some ⟨out.body, out.contentType.getD []⟩) := by
  obtain ⟨c, answer, body, hc, -, hi, hbody, -⟩ := downloaded_after_upload
  obtain ⟨bucket, key, out, htarget, -, hleft, -⟩ :=
    (objects_authored keepsObjects_plainStorage hc).2 1 _ _ hi rfl body hbody
  exact ⟨c, bucket, key, out, htarget, hleft⟩

/-! ### Acknowledged writes -/

/-- A program that answers with success only after it has written. -/
inductive Attempt (bucket key : Str) : Option StoredObject → Prog Op Reply Answer → Prop
  | refused {o : Option StoredObject} {answer : Answer} (h : answer.status ≠ 200) :
      Attempt bucket key o (.done answer)
  | upload {input : PutObjectInput} {next : Except Str Unit → Prog Op Reply Answer}
      (hb : input.bucket = bucket) (hk : input.key = key)
      (hnext : ∀ out, ∃ answer, next out = .done answer ∧ (answer.status = 200 → out = .ok ())) :
      Attempt bucket key (some input.object) (.call (.putObject input) next)
  | remove {next : Except Str Unit → Prog Op Reply Answer}
      (hnext : ∀ out, ∃ answer, next out = .done answer ∧ (answer.status = 200 → out = .ok ())) :
      Attempt bucket key none (.call (.deleteObject bucket key) next)

section
variable {bucket key : Str} {o : Option StoredObject}

theorem attempt_writeError {status : ℕ} (h : status ≠ 200) (code message : Str) :
    Attempt bucket key o (.done (writeError status code message)) := .refused h

theorem attempt_checked {bad : Prop} [Decidable bad] {granted ready : Bool} {code message : Str}
    {next : Prog Op Reply Answer} (h : Attempt bucket key o next) :
    Attempt bucket key o (if bad then .done badRequest
      else if !granted then .done (writeError 403 code message)
      else if !ready then .done backendUnavailable
      else next) := by
  split_ifs
  · exact attempt_writeError (by decide) _ _
  · exact attempt_writeError (by decide) _ _
  · exact attempt_writeError (by decide) _ _
  · exact h

theorem attempt_authMiddleware {verifier : TokenVerifier} {mapper : ClaimMapper} {next : Handler}
    {r : UIRequest} (h : ∀ identity,
      Attempt bucket key o (next { r with identity := some identity })) :
    Attempt bucket key o (authMiddlewareWithMapper verifier mapper next r) := by
  unfold authMiddlewareWithMapper
  dsimp only
  split_ifs
  · exact attempt_writeError (by decide) _ _
  · exact attempt_writeError (by decide) _ _
  · cases verifier (extractToken r).1 with
    | error err => exact attempt_writeError (by decide) _ _
    | ok claims => exact h _

end

theorem attempt_handler {a : Arrival} {bucket key method : Str} {o : Option StoredObject}
    (h : Asks a bucket key method o) :
    Attempt bucket key o (cfg.handler a.verifier a.endpoint a.request) := by
  have hfailed : ∀ message, (writeError 502 (str "upstream_error") message).status ≠ 200 := by
    intro message
    change 502 ≠ 200
    decide
  obtain ⟨e, r, verifier⟩ := a
  cases h with
  | upload he ht =>
      obtain rfl : e = .putObject := he
      obtain ⟨rfl, hk⟩ := Prod.mk.inj ht
      obtain rfl := Option.some.inj hk
      refine attempt_authMiddleware fun identity => attempt_checked (.upload rfl rfl fun out => ?_)
      cases out with
      | error err => exact ⟨_, rfl, fun hok => absurd hok (hfailed _)⟩
      | ok u => exact ⟨_, rfl, fun _ => rfl⟩
  | remove he ht =>
      obtain rfl : e = .deleteObject := he
      obtain ⟨rfl, hk⟩ := Prod.mk.inj ht
      obtain rfl := Option.some.inj hk
      refine attempt_authMiddleware fun identity => attempt_checked (.remove fun out => ?_)
      cases out with
      | error err => exact ⟨_, rfl, fun hok => absurd hok (hfailed _)⟩
      | ok u => exact ⟨_, rfl, fun _ => rfl⟩

theorem StoreHandle.put_ok (hkeeps : KeepsObjects serves content) {i : ℕ} {s t : Stored β}
    {input : PutObjectInput} (h : StoreHandle serves names i s (.putObject input) (.ok ()) t) :
    content (t.store input.bucket) input.key = some input.object := by
  cases h with
  | bucket hscope h =>
      obtain ⟨rfl, -⟩ := Prod.mk.inj (Option.some.inj hscope)
      dsimp only
      rw [Function.update_self]
      exact hkeeps.put _ _ _ _ h
  | own hscope h => cases hscope

theorem StoreHandle.delete_ok (hkeeps : KeepsObjects serves content) {i : ℕ} {s t : Stored β}
    {bucket key : Str} (h : StoreHandle serves names i s (.deleteObject bucket key) (.ok ()) t) :
    content (t.store bucket) key = none := by
  cases h with
  | bucket hscope h =>
      obtain ⟨rfl, -⟩ := Prod.mk.inj (Option.some.inj hscope)
      dsimp only
      rw [Function.update_self]
      exact hkeeps.delete _ _ _ _ _ h
  | own hscope h => cases hscope

/-- After the one call of an attempt a success means that it has written. -/
theorem Attempt.settled (hkeeps : KeepsObjects serves content) {bucket key : Str}
    {o : Option StoredObject}
    {op : Op} {next : Reply op → Prog Op Reply Answer} (h : Attempt bucket key o (.call op next))
    {i : ℕ} {s t : Stored β} {x : Reply op} (hs : StoreHandle serves names i s op x t) :
    Attempt bucket key o (next x) ∨
      (∃ answer, next x = .done answer) ∧ content (t.store bucket) key = o := by
  cases h with
  | upload hb hk hnext =>
      obtain ⟨answer, hanswer, hok⟩ := hnext x
      by_cases hstatus : answer.status = 200
      · obtain rfl := hok hstatus
        subst hb
        subst hk
        exact .inr ⟨⟨answer, hanswer⟩, hs.put_ok hkeeps⟩
      · rw [hanswer]
        exact .inl (.refused hstatus)
  | remove hnext =>
      obtain ⟨answer, hanswer, hok⟩ := hnext x
      by_cases hstatus : answer.status = 200
      · obtain rfl := hok hstatus
        exact .inr ⟨⟨answer, hanswer⟩, hs.delete_ok hkeeps⟩
      · rw [hanswer]
        exact .inl (.refused hstatus)

section
variable {now : Time} {c : Config Op Reply Arrival Answer (Stored β)} {i : ℕ} {a : Arrival}
  {bucket key method : Str} {o : Option StoredObject}

/-- As long as nobody else writes under the key, a request has not succeeded or has written. -/
theorem attempt_or_written (hkeeps : KeepsObjects serves content)
    (hc : (storedSystem cfg serves names).Reachable ⟨{ now := now }, before⟩ c)
    (hasks : Asks a bucket key method o)
    (halone : ∀ j b p o', j ≠ i → c.threads j = some (b, p) → ¬Writes cfg b bucket key o')
    {p : Prog Op Reply Answer} (hi : c.threads i = some (a, p)) :
    Attempt bucket key o p ∨ (∃ answer, p = .done answer) ∧
      content (c.state.store bucket) key = o := by
  induction hc generalizing p with
  | refl => cases hi
  | @tail d _ hd hstep ih =>
      have hbefore : ∀ j b p o', j ≠ i → d.threads j = some (b, p) →
          ¬Writes cfg b bucket key o' := by
        intro j b p o' hj hp
        obtain ⟨p', hp'⟩ := hstep.threads hp
        exact halone j b p' o' hj hp'
      have hgo := fun {p} hp => ih hbefore (p := p) hp
      cases hstep with
      | start j b hj =>
          by_cases hij : i = j
          · subst hij
            have hself : some (b, (storedSystem cfg serves names).start b) = some (a, p) := by
              simpa using hi
            obtain ⟨rfl, rfl⟩ := Prod.mk.inj (Option.some.inj hself)
            exact .inl (attempt_handler hasks)
          · exact hgo (by simpa [hij] using hi)
      | call j b op next x t hj hs =>
          by_cases hij : i = j
          · subst hij
            have hself : some (b, next x) = some (a, p) := by simpa using hi
            obtain ⟨rfl, rfl⟩ := Prod.mk.inj (Option.some.inj hself)
            rcases hgo hj with hattempt | ⟨⟨answer, hdone⟩, -⟩
            · exact hattempt.settled hkeeps hs
            · cases hdone
          · rcases hgo (p := p) (by simpa [hij] using hi) with hattempt | ⟨hdone, hkept⟩
            · exact .inl hattempt
            · right
              refine ⟨hdone, ?_⟩
              rcases hs.content_cases hkeeps bucket key with hsame | ⟨o', hwritten, -⟩
              · exact hsame.trans hkept
              · -- another request that writes under the key
                have hcall := (authored_holds hkeeps hd takesPart_of_thread).threads j b _ hj
                exact absurd (hcall.1.2 bucket key o' hwritten) (hbefore j b _ o' (Ne.symm hij) hj)
      | drift t ht =>
          have hstore : t.store = d.state.store := ht.2
          rw [hstore]
          exact hgo hi

/-- What a request was told it had done stays done, in every interleaving with others, unless one of
them has the right to change the same key and is for changing it. -/
theorem acknowledged_stays (hkeeps : KeepsObjects serves content)
    (hc : (storedSystem cfg serves names).Reachable ⟨{ now := now }, before⟩ c) {answer : Answer}
    (hi : c.threads i = some (a, .done answer)) (hok : answer.status = 200)
    (hasks : Asks a bucket key method o)
    (halone : ∀ j b p o', j ≠ i → c.threads j = some (b, p) → ¬Writes cfg b bucket key o') :
    content (c.state.store bucket) key = o := by
  rcases attempt_or_written hkeeps hc hasks halone hi with hattempt | ⟨-, hkept⟩
  · cases hattempt with
    | refused hfailed => exact absurd hok hfailed
  · exact hkept

/-- The upload is still there when the reader has been served. -/
theorem acknowledged_stays_reports :
    ∃ c, plainSystem.Reachable ⟨{ now := 0 }, fun _ _ => none⟩ c ∧
      c.state.store (str "reports") (str "new") =
        some (putObjectInput (str "reports") (str "new") uploadArrival.request).object := by
  obtain ⟨c, answer, body, hc, hi, -, -, honly⟩ := downloaded_after_upload
  have htarget : Endpoint.putObject.target uploadArrival.request =
      (str "reports", some (str "new")) := by
    decide
  refine ⟨c, hc, acknowledged_stays keepsObjects_plainStorage hc hi rfl (.upload rfl htarget) ?_⟩
  rintro j b p o hj hp ⟨method, hasks, -⟩
  rcases honly j b p hp with hzero | rfl
  · exact hj hzero
  · cases hasks with
    | upload he => cases he
    | remove he => cases he

end

end

end PierGateway.WebUI
