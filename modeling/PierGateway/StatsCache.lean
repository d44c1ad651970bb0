import Mathlib.Data.Finmap
import PierGateway.UiMessages

/-!
# The cache of bucket totals

The cache holds the totals of a bucket with the time they were computed, and for a
bucket that is being walked the channel its followers wait on. The mutex of the
source makes each of its critical sections one atomic step, and each is one function
here. Channels are numbered in the order they are made; a closed one stays closed.
-/
namespace PierGateway.WebUI
open GoStrings

def statsMaxPages : ℕ := 50
def statsPageSize : ℕ := 1000
def statsCacheTTL : Time := 5 * 60 * second

structure StatsEntry where
  resp : BucketStatsResponse
  fetched : Time
  computed : Bool
deriving DecidableEq

structure StatsCache where
  entries : Finmap fun _ : Str => StatsEntry := ∅
  pending : Finmap fun _ : Str => ℕ := ∅
  closed : Finset ℕ := ∅
  channels : ℕ := 0

/-- How a request goes on after the first critical section. -/
inductive Entered where
  | cached (resp : BucketStatsResponse)
  | wait (ch : ℕ)
  | walk (ch : ℕ)
deriving DecidableEq

namespace StatsCache

def freshEntry (c : StatsCache) (now : Time) (bucket : Str) : Option BucketStatsResponse :=
  match c.entries.lookup bucket with
  | some e => if e.computed ∧ now - e.fetched < statsCacheTTL then some e.resp else none
  | none => none

def enter (c : StatsCache) (now : Time) (bucket : Str) : Entered × StatsCache :=
  match c.freshEntry now bucket with
  | some resp => (.cached resp, c)
  | none =>
      match c.pending.lookup bucket with
      | some ch => (.wait ch, c)
      | none =>
          (.walk c.channels,
            { c with pending := c.pending.insert bucket c.channels, channels := c.channels + 1 })

/-- What entering comes to: an entry that is fresh, a walk to wait for, or a walk to make. -/
theorem enter_cases (c : StatsCache) (now : Time) (bucket : Str) :
    (∃ resp, c.freshEntry now bucket = some resp ∧ c.enter now bucket = (.cached resp, c)) ∨
      (∃ ch, c.pending.lookup bucket = some ch ∧ c.enter now bucket = (.wait ch, c)) ∨
      (c.pending.lookup bucket = none ∧ c.enter now bucket = (.walk c.channels,
        { c with pending := c.pending.insert bucket c.channels, channels := c.channels + 1 })) := by
  unfold enter
  cases hf : c.freshEntry now bucket with
  | some resp => exact .inl ⟨resp, rfl, rfl⟩
  | none =>
      cases hp : c.pending.lookup bucket with
      | some ch => exact .inr (.inl ⟨ch, rfl, rfl⟩)
      | none => exact .inr (.inr ⟨rfl, rfl⟩)

/-- What a follower finds after its channel was closed. -/
def read (c : StatsCache) (bucket : Str) : Option BucketStatsResponse :=
  match c.entries.lookup bucket with
  | some e => if e.computed then some e.resp else none
  | none => none

theorem freshEntry_eq_some {c : StatsCache} {now : Time} {bucket : Str}
    {resp : BucketStatsResponse} :
    c.freshEntry now bucket = some resp ↔ ∃ e, c.entries.lookup bucket = some e ∧
      e.computed = true ∧ now - e.fetched < statsCacheTTL ∧ e.resp = resp := by
  unfold freshEntry
  cases c.entries.lookup bucket with
  | none => simp
  | some e => simp [and_assoc]

theorem read_eq_some {c : StatsCache} {bucket : Str} {resp : BucketStatsResponse} :
    c.read bucket = some resp ↔
      ∃ e, c.entries.lookup bucket = some e ∧ e.computed = true ∧ e.resp = resp := by
  unfold read
  cases c.entries.lookup bucket with
  | none => simp
  | some e => simp

def finish (c : StatsCache) (now : Time) (bucket : Str) (ch : ℕ)
    (result : Option BucketStatsResponse) : StatsCache :=
  { c with
    pending := c.pending.erase bucket
    closed := insert ch c.closed
    entries :=
      match result with
      | some resp => c.entries.insert bucket { resp := resp, fetched := now, computed := true }
      | none => c.entries }

/-- Every entry is about the bucket it is filed under. -/
def Labelled (c : StatsCache) : Prop :=
  ∀ bucket e, c.entries.lookup bucket = some e → e.resp.bucket = bucket

theorem labelled_empty : ({} : StatsCache).Labelled := by
  intro bucket e he
  rw [Finmap.lookup_empty] at he
  cases he

theorem Labelled.freshEntry {c : StatsCache} (hc : c.Labelled) {now : Time} {bucket : Str}
    {resp : BucketStatsResponse} (h : c.freshEntry now bucket = some resp) :
    resp.bucket = bucket := by
  obtain ⟨e, he, -, -, rfl⟩ := freshEntry_eq_some.mp h
  exact hc bucket e he

theorem Labelled.read {c : StatsCache} (hc : c.Labelled) {bucket : Str}
    {resp : BucketStatsResponse} (h : c.read bucket = some resp) : resp.bucket = bucket := by
  obtain ⟨e, he, -, rfl⟩ := read_eq_some.mp h
  exact hc bucket e he

theorem enter_entries (c : StatsCache) (now : Time) (bucket : Str) :
    (c.enter now bucket).2.entries = c.entries := by
  unfold enter
  cases c.freshEntry now bucket with
  | some resp => rfl
  | none =>
      cases c.pending.lookup bucket with
      | some ch => rfl
      | none => rfl

theorem enter_eq_cached {c : StatsCache} {now : Time} {bucket : Str} {resp : BucketStatsResponse}
    (h : (c.enter now bucket).1 = .cached resp) : c.freshEntry now bucket = some resp := by
  unfold enter at h
  cases hf : c.freshEntry now bucket with
  | some resp' =>
      rw [hf] at h
      exact congrArg some (Entered.cached.inj h)
  | none =>
      rw [hf] at h
      dsimp only at h
      split at h <;> cases h

theorem Labelled.finish {c : StatsCache} (hc : c.Labelled) (now : Time) (bucket : Str) (ch : ℕ)
    {result : Option BucketStatsResponse} (hr : ∀ resp ∈ result, resp.bucket = bucket) :
    (c.finish now bucket ch result).Labelled := by
  cases result with
  | none => exact hc
  | some resp =>
      intro bucket' e he
      by_cases hb : bucket' = bucket
      · subst hb
        have hnew :
            some ({ resp := resp, fetched := now, computed := true } : StatsEntry) = some e :=
          (Finmap.lookup_insert _).symm.trans he
        obtain rfl := Option.some.inj hnew
        exact hr resp rfl
      · exact hc bucket' e ((Finmap.lookup_insert_of_ne _ hb).symm.trans he)

end StatsCache
end PierGateway.WebUI
