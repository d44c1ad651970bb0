import PierGateway.ObjectList

/-!
# The bucket store of the single-page application

The store holds the list of buckets, and their numbers come behind it. A call for the
numbers takes the names not asked for before and lets a few workers drain that queue, each
sending its next request when the last one is answered. The names asked for are forgotten
with every new list, while requests are out, and each call has workers of its own.
-/
namespace PierGateway.Spa.Buckets
open GoStrings EventRuns

structure Permissions where
  read : Bool
  write : Bool
  delete : Option Bool := none
deriving DecidableEq

/-- A bucket, its numbers of any type: they are only carried over. -/
structure BucketInfo (ν : Type) where
  name : Str
  permissions : Permissions
  objectCount : Option ν := none
  sizeBytes : Option ν := none
  statsTruncated : Option Bool := none
  quotaBytes : Option ν := none

structure BucketStats (ν : Type) where
  objectCount : ν
  sizeBytes : ν
  truncated : Bool
  quotaBytes : Option ν := none

structure BucketsState (ν : Type) where
  buckets : List (BucketInfo ν) := []
  loading : Bool := false
  error : Option Str := none

/-- How many requests for numbers may be in flight at once. -/
def statsConcurrency : ℕ := 4

/-- A request for the numbers of a bucket, sent by a worker of this call. -/
structure StatsCall where
  call : ℕ
  name : Str

/-- The answer to such a request, none if it failed. -/
abbrev StatsReply (ν : Type) := Option (BucketStats ν)

/-- The store with what its calls hold: the names asked for since the list came, the queue of every
call for numbers, the requests for the list and for numbers in flight, and a record of the names
that were requested. -/
structure Store (ν : Type) where
  state : BucketsState ν := {}
  statsRequested : List Str := []
  queues : List (List Str) := []
  listing : ℕ := 0
  statsInFlight : List StatsCall := []
  requests : List Str := []

inductive StoreEvent (ν : Type) where
  | fetchBuckets
  | fetchBucketStats (names : List Str)
  | deliverBuckets (reply : Except Failure (List (BucketInfo ν)))
  | deliverStats (i : ℕ) (reply : StatsReply ν)

variable {ν : Type}

/-- The numbers of a response, on the bucket it was requested for. -/
def BucketInfo.merge (b : BucketInfo ν) (name : Str) (reply : StatsReply ν) : BucketInfo ν :=
  match reply with
  | some stats =>
      if b.name = name then
        { b with
          objectCount := some stats.objectCount
          sizeBytes := some stats.sizeBytes
          statsTruncated := some stats.truncated
          quotaBytes := stats.quotaBytes }
      else b
  | none => b

namespace Store

def fetchBuckets (s : Store ν) : Store ν :=
  { s with
    state := { s.state with loading := true, error := none }
    listing := s.listing + 1 }

/-- The rest of `fetchBuckets`, when its request is answered. -/
def settleBuckets (s : Store ν) (reply : Except Failure (List (BucketInfo ν))) : Store ν :=
  match reply with
  | .ok buckets =>
      { s with
        state := { s.state with buckets := buckets, loading := false }
        statsRequested := []
        listing := s.listing - 1 }
  | .error err =>
      { s with
        state :=
          { s.state with
            error := some (errorMessage err (str "Failed to load buckets"))
            loading := false }
        listing := s.listing - 1 }

/-- A worker takes the next name of its call's queue and requests it, or ends. -/
def shift (call : ℕ) (s : Store ν) : Store ν :=
  match s.queues[call]? with
  | some (name :: rest) =>
      { s with
        queues := s.queues.set call rest
        statsInFlight := s.statsInFlight ++ [⟨call, name⟩]
        requests := s.requests ++ [name] }
  | _ => s

/-- The names not asked for yet. -/
def fresh (s : Store ν) (names : List Str) : List Str :=
  names.filter fun n => n ∉ s.statsRequested

/-- The queue is taken and its names are marked; then the workers start, one after the other. -/
def fetchBucketStats (s : Store ν) (names : List Str) : Store ν :=
  (shift s.queues.length)^[min statsConcurrency (s.fresh names).length]
    { s with
      statsRequested := s.statsRequested ++ s.fresh names
      queues := s.queues ++ [s.fresh names] }

/-- A request is answered, and its numbers are merged into the list as it is then. -/
def mergeStats (s : Store ν) (i : ℕ) (reply : StatsReply ν) (request : StatsCall) : Store ν :=
  { s with
    state := { s.state with buckets := s.state.buckets.map fun b => b.merge request.name reply }
    statsInFlight := s.statsInFlight.eraseIdx i }

/-- The worker whose request is answered goes on. -/
def settleStats (s : Store ν) (i : ℕ) (reply : StatsReply ν) (request : StatsCall) : Store ν :=
  (s.mergeStats i reply request).shift request.call

def step (s : Store ν) : StoreEvent ν → Option (Store ν)
  | .fetchBuckets => some s.fetchBuckets
  | .fetchBucketStats names => some (s.fetchBucketStats names)
  | .deliverBuckets reply => if s.listing = 0 then none else some (s.settleBuckets reply)
  | .deliverStats i reply => s.statsInFlight[i]?.map (s.settleStats i reply)

/-! ### Workers and their queue -/

theorem mem_fresh {s : Store ν} {names : List Str} {name : Str} :
    name ∈ s.fresh names ↔ name ∈ names ∧ name ∉ s.statsRequested := by
  simp [fresh]

theorem shift_cons {s : Store ν} {call : ℕ} {name : Str} {rest : List Str}
    (h : s.queues[call]? = some (name :: rest)) :
    s.shift call = { s with
      queues := s.queues.set call rest
      statsInFlight := s.statsInFlight ++ [⟨call, name⟩]
      requests := s.requests ++ [name] } := by
  rw [shift, h]

theorem shift_nil {s : Store ν} {call : ℕ} (h : s.queues[call]? = some []) : s.shift call = s := by
  rw [shift, h]

theorem length_shift_le (s : Store ν) (call : ℕ) :
    (s.shift call).statsInFlight.length ≤ s.statsInFlight.length + 1 := by
  unfold shift
  split
  · rw [List.length_append, List.length_singleton]
  · omega

theorem shift_iterate {call : ℕ} (k : ℕ) {s : Store ν} {queue : List Str}
    (hqueue : s.queues[call]? = some queue) (hk : k ≤ queue.length) :
    (shift call)^[k] s = { s with
      queues := s.queues.set call (queue.drop k)
      statsInFlight := s.statsInFlight ++ (queue.take k).map (StatsCall.mk call)
      requests := s.requests ++ queue.take k } := by
  induction k generalizing s queue with
  | zero =>
      obtain ⟨hcall, rfl⟩ := List.getElem?_eq_some_iff.mp hqueue
      simp
  | succ k ih =>
      cases queue with
      | nil => simp at hk
      | cons name rest =>
          have hcall : call < s.queues.length := (List.getElem?_eq_some_iff.mp hqueue).choose
          have hnext : (s.queues.set call rest)[call]? = some rest := by simp [hcall]
          rw [Function.iterate_succ_apply, shift_cons hqueue, ih hnext (by simpa using hk)]
          simp

/-- A call marks its names, sends the first of them and keeps the others in its queue. -/
theorem fetchBucketStats_eq (s : Store ν) (names : List Str) :
    s.fetchBucketStats names = { s with
      statsRequested := s.statsRequested ++ s.fresh names
      queues := s.queues ++ [(s.fresh names).drop statsConcurrency]
      statsInFlight :=
        s.statsInFlight ++ ((s.fresh names).take statsConcurrency).map
          (StatsCall.mk s.queues.length)
      requests := s.requests ++ (s.fresh names).take statsConcurrency } := by
  have hqueue : (s.queues ++ [s.fresh names])[s.queues.length]? = some (s.fresh names) := by simp
  unfold fetchBucketStats
  rw [shift_iterate _ hqueue (by omega), ← List.take_eq_take_min, ← List.drop_eq_drop_min]
  simp

theorem length_fetchBucketStats (s : Store ν) (names : List Str) :
    (s.fetchBucketStats names).statsInFlight.length
      = s.statsInFlight.length + min statsConcurrency (s.fresh names).length := by
  rw [fetchBucketStats_eq]
  simp

/-! ### The cap -/

/-- A call finds nothing in flight, or room for all its new names. -/
def Room (s : Store ν) : StoreEvent ν → Prop
  | .fetchBucketStats names =>
      s.statsInFlight = [] ∨ s.statsInFlight.length + (s.fresh names).length ≤ statsConcurrency
  | _ => True

/-- The requests for numbers in flight are no more than allowed. -/
def Capped (s : Store ν) : Prop := s.statsInFlight.length ≤ statsConcurrency

theorem Capped.settleStats {s : Store ν} (h : s.Capped) {i : ℕ} (hi : i < s.statsInFlight.length)
    (reply : StatsReply ν) (request : StatsCall) : (s.settleStats i reply request).Capped := by
  unfold Capped at h ⊢
  have hshift := length_shift_le (s.mergeStats i reply request) request.call
  have herase : (s.mergeStats i reply request).statsInFlight.length = s.statsInFlight.length - 1 :=
    List.length_eraseIdx_of_lt hi
  unfold Store.settleStats
  omega

theorem Capped.step {s t : Store ν} {e : StoreEvent ν} (h : s.Capped) (hroom : Room s e)
    (hstep : s.step e = some t) : t.Capped := by
  cases e with
  | fetchBuckets =>
      rw [← Option.some.inj hstep]
      exact h
  | fetchBucketStats names =>
      rw [← Option.some.inj hstep]
      unfold Capped
      rw [length_fetchBucketStats]
      rcases hroom with hnone | hroom
      · rw [hnone, List.length_nil]
        omega
      · omega
  | deliverBuckets reply =>
      unfold Store.step at hstep
      split_ifs at hstep
      rw [← Option.some.inj hstep]
      cases reply with
      | ok buckets => exact h
      | error err => exact h
  | deliverStats i reply =>
      obtain ⟨request, hrequest, rfl⟩ := Option.map_eq_some_iff.mp hstep
      exact h.settleStats (List.getElem?_eq_some_iff.mp hrequest).choose reply request

/-- In a run whose calls all find room, no more requests are in flight than allowed at any time. -/
theorem capped_of_room {s : Store ν} (h : Reaches step Room {} s) : s.Capped :=
  h.invariant (Nat.zero_le _) fun _ _ _ hc hroom hstep => hc.step hroom hstep

/-- A call that finds no room goes over the cap at once. -/
theorem crowded_breaks {s t : Store ν} {names : List Str}
    (hcrowded : ¬Room s (.fetchBucketStats names))
    (hstep : s.step (.fetchBucketStats names) = some t) : ¬t.Capped := by
  obtain ⟨hsome, hover⟩ := not_or.mp hcrowded
  rw [← Option.some.inj hstep]
  unfold Capped
  rw [length_fetchBucketStats]
  have hpos := List.length_pos_of_ne_nil hsome
  omega

/-- A list of four readable buckets. -/
def fourNames : List Str := [str "a", str "b", str "c", str "d"]

def fourBuckets : List (BucketInfo ℕ) :=
  fourNames.map fun name => { name := name, permissions := { read := true, write := false } }

/-- The list comes, and its numbers are asked for. -/
theorem capped_of_room_fourNames :
    ∃ s : Store ℕ, Reaches step Room {} s ∧ s.statsInFlight.length = 4 ∧ s.Capped := by
  have hstart : Reaches step Room ({} : Store ℕ) {} := .refl
  have hsent := hstart.next (a := StoreEvent.fetchBuckets) trivial rfl
  have hlisted := hsent.next (a := StoreEvent.deliverBuckets (.ok fourBuckets)) trivial rfl
  have hasked := hlisted.next (a := StoreEvent.fetchBucketStats fourNames) (.inl rfl) rfl
  exact ⟨_, hasked, rfl, capped_of_room hasked⟩

/-- The page is left and opened again while the requests of the first visit are in flight. -/
theorem not_always_capped : ¬∀ s : Store ℕ, Reaches step unguarded {} s → s.Capped := by
  intro hall
  have hstart : Reaches step unguarded ({} : Store ℕ) {} := .refl
  have hlisted := (hstart.next (a := .fetchBuckets) trivial rfl).next
    (a := .deliverBuckets (.ok fourBuckets)) trivial rfl
  have hasked := hlisted.next (a := .fetchBucketStats fourNames) trivial rfl
  have hagain := (hasked.next (a := .fetchBuckets) trivial rfl).next
    (a := .deliverBuckets (.ok fourBuckets)) trivial rfl
  have hcrowded := hagain.next (a := .fetchBucketStats fourNames) trivial rfl
  have hcapped : 8 ≤ statsConcurrency := hall _ hcrowded
  exact absurd hcapped (by decide)

end Store

end PierGateway.Spa.Buckets
