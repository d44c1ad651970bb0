import PierGateway.Interaction
import PierGateway.StatsCache

/-!
# What the handlers of the web interface call

Every call a handler makes to something it shares with other requests or that lies
outside the program: the storage backend, the critical sections of the totals cache,
the rate limiter, the random source and the token endpoint. `World` is the state
between the calls, and `handle` says what each call may answer. The outside is free
in what it answers, within a relation that is a parameter.
-/
namespace PierGateway.WebUI
open GoStrings HttpMessages Interaction

structure S3Object where
  key : Option Str := none
  etag : Option Str := none
  size : Option ℤ := none
  lastModified : Option Time := none

structure ListObjectsOutput where
  contents : List S3Object := []
  commonPrefixes : List (Option Str) := []
  nextContinuationToken : Option Str := none
  isTruncated : Option Bool := none

structure HeadObjectOutput where
  contentType : Option Str := none
  contentLength : Option ℤ := none
  etag : Option Str := none
  lastModified : Option Time := none

structure GetObjectOutput extends HeadObjectOutput where
  body : Str := []

structure PutObjectInput where
  bucket : Str
  key : Str
  body : Str
  contentType : Str
  contentLength : Option ℤ
deriving DecidableEq

structure TokenResponse where
  accessToken : Str := []
  refreshToken : Str := []
  expiresIn : ℤ := 0

inductive Op where
  | listBuckets
  | listObjects (bucket keyPrefix delimiter continuationToken : Str) (maxKeys : ℤ)
  | getObject (bucket key : Str)
  | headObject (bucket key : Str)
  | putObject (input : PutObjectInput)
  | deleteObject (bucket key : Str)
  | statsEnter (bucket : Str)
  | statsWait (ch : ℕ)
  | statsRead (bucket : Str)
  | statsFinish (bucket : Str) (ch : ℕ) (result : Option BucketStatsResponse)
  | allow (key : Str)
  | randomBytes (n : ℕ)
  | exchangeCode (code codeVerifier : Str)
deriving DecidableEq

/-- `statsWait` tells whether the channel was closed; otherwise the client is gone. -/
@[reducible] def Reply : Op → Type
  | .listBuckets => Except Str (List (Option Str))
  | .listObjects .. => Except Str ListObjectsOutput
  | .getObject .. => Except Str GetObjectOutput
  | .headObject .. => Except Str HeadObjectOutput
  | .putObject .. => Except Str Unit
  | .deleteObject .. => Except Str Unit
  | .statsEnter .. => Entered
  | .statsWait .. => Bool
  | .statsRead .. => Option BucketStatsResponse
  | .statsFinish .. => Unit
  | .allow .. => Bool
  | .randomBytes .. => Except Str Str
  | .exchangeCode .. => Except Str TokenResponse

/-- A handler, run on one request. -/
abbrev Handler := UIRequest → Prog Op Reply Answer

/-- The bucket a call is about and the method that access to it is checked for. -/
def Op.scope : Op → Option (Str × Str)
  | .listObjects bucket .. => some (bucket, str "GET")
  | .getObject bucket _ => some (bucket, str "GET")
  | .headObject bucket _ => some (bucket, str "GET")
  | .putObject input => some (input.bucket, str "PUT")
  | .deleteObject bucket _ => some (bucket, str "DELETE")
  | _ => none

/-- The bucket and, for an object, the key that the storage client puts in its path. -/
def Op.address : Op → Option (Str × Option Str)
  | .listObjects bucket .. => some (bucket, none)
  | .getObject bucket key => some (bucket, some key)
  | .headObject bucket key => some (bucket, some key)
  | .putObject input => some (input.bucket, some input.key)
  | .deleteObject bucket key => some (bucket, some key)
  | _ => none

theorem Op.scope_of_address {op : Op} {bucket : Str} {key : Option Str}
    (h : op.address = some (bucket, key)) : ∃ method, op.scope = some (bucket, method) := by
  cases op with
  | listObjects | getObject | headObject | putObject | deleteObject =>
      obtain ⟨rfl, -⟩ := Prod.mk.inj (Option.some.inj h)
      exact ⟨_, rfl⟩
  | _ => cases h

/-- The state between calls: the cache, the clock and the requests whose client is gone. -/
structure World where
  cache : StatsCache := {}
  now : Time
  cancelled : Finset ℕ := ∅

/-- What the outside may answer a call, told whether the client of the request is gone. -/
abbrev Outside := Prop → (op : Op) → Reply op → Prop

/-- What one call of a request answers and makes of the state. -/
inductive Handle (outside : Outside) (i : ℕ) (w : World) : (op : Op) → Reply op → World → Prop
  | enter (bucket : Str) :
      Handle outside i w (.statsEnter bucket) (w.cache.enter w.now bucket).1
        { w with cache := (w.cache.enter w.now bucket).2 }
  | woken {ch : ℕ} (h : ch ∈ w.cache.closed) : Handle outside i w (.statsWait ch) true w
  | gone (ch : ℕ) (h : i ∈ w.cancelled) : Handle outside i w (.statsWait ch) false w
  | read (bucket : Str) : Handle outside i w (.statsRead bucket) (w.cache.read bucket) w
  | finish (bucket : Str) (ch : ℕ) (result : Option BucketStatsResponse) :
      Handle outside i w (.statsFinish bucket ch result) ()
        { w with cache := w.cache.finish w.now bucket ch result }
  | storage {op : Op} {x : Reply op} (hop : op = .listBuckets ∨ op.scope.isSome)
      (h : outside (i ∈ w.cancelled) op x) : Handle outside i w op x w
  | allow (key : Str) (x : Bool) : Handle outside i w (.allow key) x w
  | randomBytes (n : ℕ) (x : Except Str Str) (h : ∀ b ∈ x.toOption, b.length = n) :
      Handle outside i w (.randomBytes n) x w
  | exchangeCode (code codeVerifier : Str) (x : Except Str TokenResponse) :
      Handle outside i w (.exchangeCode code codeVerifier) x w

/-- Between calls time passes and clients go away. -/
def World.Drifts (w w' : World) : Prop :=
  w'.cache = w.cache ∧ w.now ≤ w'.now ∧ w.cancelled ⊆ w'.cancelled

/-! ### Labelled caches -/

/-- A result is filed under the bucket it is about. -/
def Op.Files : Op → Prop
  | .statsFinish bucket _ result => ∀ resp ∈ result, resp.bucket = bucket
  | _ => True

def World.Labelled (w : World) : Prop := w.cache.Labelled

theorem World.labelled_start (now : Time) : World.Labelled { now := now } :=
  StatsCache.labelled_empty

/-- What the cache hands out is about the bucket that was asked for. -/
def Honest : (op : Op) → Reply op → Prop
  | .statsEnter bucket, .cached resp => resp.bucket = bucket
  | .statsRead bucket, some resp => resp.bucket = bucket
  | _, _ => True

theorem World.Drifts.labelled {w w' : World} (h : w.Drifts w') (hw : w.Labelled) : w'.Labelled := by
  intro bucket e he
  exact hw bucket e (by rw [← he, h.1])

/-- One call keeps the cache labelled and its answer honest. -/
theorem Handle.labelled {outside : Outside} {i : ℕ} {w w' : World} {op : Op} {x : Reply op}
    (h : Handle outside i w op x w') (hw : w.Labelled) (hop : op.Files) :
    w'.Labelled ∧ Honest op x := by
  cases h with
  | enter bucket =>
      constructor
      · intro bucket' e he
        exact hw bucket' e (by rw [← he, StatsCache.enter_entries])
      · cases hreply : (w.cache.enter w.now bucket).1 with
        | cached resp => exact StatsCache.Labelled.freshEntry hw (StatsCache.enter_eq_cached hreply)
        | wait ch => trivial
        | walk ch => trivial
  | read bucket =>
      refine ⟨hw, ?_⟩
      cases hreply : w.cache.read bucket with
      | none => trivial
      | some resp => exact StatsCache.Labelled.read hw hreply
  | finish bucket ch result => exact ⟨StatsCache.Labelled.finish hw w.now bucket ch hop, trivial⟩
  | storage hscope hout =>
      refine ⟨hw, ?_⟩
      cases op <;> first | trivial | simp [Op.scope] at hscope
  | _ => exact ⟨hw, trivial⟩

end PierGateway.WebUI
