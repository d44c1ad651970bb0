import PierGateway.StatsRuns

/-!
# The cache of bucket totals in every run

The slots of the cache belong to the requests that walk: a bucket has a slot exactly
while one request is between registering and ending its walk, and a channel that is
waited on is in a slot or closed. The entries belong to walks that have ended with
totals, the latest of each bucket. Both are invariants of every run, and with them
everything an answer carries is the result of a walk that is part of the run.
-/
namespace PierGateway.WebUI
open GoStrings Interaction

/-! ### Slots and requests -/

/-- The request has registered a walk of the bucket and has not ended it. -/
def Walking (h : History) (i : ℕ) (bucket : Str) (ch : ℕ) : Prop :=
  (⟨.statsEnter bucket, Entered.walk ch⟩ : Call) ∈ callsOf h i ∧
    ∀ result, (⟨.statsFinish bucket ch result, ()⟩ : Call) ∉ callsOf h i

/-- The request was told to wait on the channel. -/
def Waits (h : History) (i : ℕ) (bucket : Str) (ch : ℕ) : Prop :=
  (⟨.statsEnter bucket, Entered.wait ch⟩ : Call) ∈ callsOf h i

/-- The slots of the cache are those of the requests that walk, and channels that are waited
on are in a slot or closed. -/
structure Slots (h : History) (cache : StatsCache) : Prop where
  pending_iff : ∀ bucket ch, cache.pending.lookup bucket = some ch ↔ ∃ i, Walking h i bucket ch
  one_walk : ∀ bucket i ch j ch', Walking h i bucket ch → Walking h j bucket ch' → i = j ∧ ch = ch'
  waiter : ∀ i bucket ch, Waits h i bucket ch →
    cache.pending.lookup bucket = some ch ∨ ch ∈ cache.closed

theorem slots_start : Slots [] {} := by
  constructor
  · intro bucket ch
    simp [Walking, callsOf]
  · intro bucket i ch j ch' hi
    simp [Walking, callsOf] at hi
  · intro i bucket ch hi
    simp [Waits, callsOf] at hi

section
variable {h : History} {cache : StatsCache} {i : ℕ} {w : World}

/-- A call that neither registers nor ends a walk leaves the walkers as they are. -/
theorem walking_snoc {op : Op} {x : Reply op}
    (hwalk : ∀ b ch, (⟨op, x⟩ : Call) ≠ ⟨.statsEnter b, Entered.walk ch⟩)
    (hfinish : ∀ b ch result, op ≠ .statsFinish b ch result) (j : ℕ) (bucket : Str) (ch : ℕ) :
    Walking (h ++ [⟨i, w, op, x⟩]) j bucket ch ↔ Walking h j bucket ch := by
  have hfinish' : ∀ b ch result, (⟨.statsFinish b ch result, ()⟩ : Call) ≠ ⟨op, x⟩ := by
    intro b ch result he
    exact hfinish b ch result (congrArg Sigma.fst he).symm
  unfold Walking
  simp only [mem_callsOf_snoc, (hwalk _ _).symm, hfinish', and_false, or_false]

theorem Slots.quiet (hs : Slots h cache) {op : Op} {x : Reply op}
    (hwalk : ∀ b ch, (⟨op, x⟩ : Call) ≠ ⟨.statsEnter b, Entered.walk ch⟩)
    (hfinish : ∀ b ch result, op ≠ .statsFinish b ch result)
    (hwait : ∀ b ch, (⟨op, x⟩ : Call) = ⟨.statsEnter b, Entered.wait ch⟩ →
      cache.pending.lookup b = some ch) :
    Slots (h ++ [⟨i, w, op, x⟩]) cache := by
  have hsame := walking_snoc (h := h) (i := i) (w := w) hwalk hfinish
  constructor
  · intro bucket ch
    rw [hs.pending_iff]
    exact exists_congr fun j => (hsame j bucket ch).symm
  · intro bucket j ch k ch' hj hk
    exact hs.one_walk bucket j ch k ch' ((hsame ..).mp hj) ((hsame ..).mp hk)
  · intro j bucket ch hj
    rcases mem_callsOf_snoc.mp hj with hj | ⟨-, hx⟩
    · exact hs.waiter j bucket ch hj
    · exact .inl (hwait bucket ch hx.symm)

theorem walking_enter {b : Str} {ch₀ : ℕ} (hi : callsOf h i = []) (j : ℕ) (bucket : Str) (ch : ℕ) :
    Walking (h ++ [⟨i, w, .statsEnter b, Entered.walk ch₀⟩]) j bucket ch ↔
      Walking h j bucket ch ∨ (j = i ∧ bucket = b ∧ ch = ch₀) := by
  have hfinish : ∀ result, (⟨.statsFinish bucket ch result, ()⟩ : Call) ≠
      ⟨.statsEnter b, Entered.walk ch₀⟩ := by
    intro result he
    exact absurd (congrArg Sigma.fst he) (by simp)
  unfold Walking
  simp only [mem_callsOf_snoc, hfinish, and_false, or_false]
  constructor
  · intro hj
    rcases hj.1 with hmem | ⟨hji, he⟩
    · exact .inl ⟨hmem, hj.2⟩
    · cases he
      exact .inr ⟨hji, rfl, rfl⟩
  · intro hj
    rcases hj with hj | ⟨rfl, rfl, rfl⟩
    · exact ⟨.inl hj.1, hj.2⟩
    · refine ⟨.inr ⟨rfl, rfl⟩, fun result hmem => ?_⟩
      rw [hi] at hmem
      exact absurd hmem List.not_mem_nil

theorem Slots.enter (hs : Slots h cache) {b : Str} (hi : callsOf h i = [])
    (hb : cache.pending.lookup b = none) :
    Slots (h ++ [⟨i, w, .statsEnter b, Entered.walk cache.channels⟩])
      { cache with
        pending := cache.pending.insert b cache.channels, channels := cache.channels + 1 } := by
  have hnone : ∀ j ch, ¬Walking h j b ch := by
    intro j ch hj
    have hlookup := (hs.pending_iff b ch).mpr ⟨j, hj⟩
    rw [hb] at hlookup
    cases hlookup
  constructor
  · intro bucket ch
    simp only [walking_enter hi]
    by_cases hbucket : bucket = b
    · subst hbucket
      rw [Finmap.lookup_insert]
      constructor
      · intro he
        exact ⟨i, .inr ⟨rfl, rfl, (Option.some.inj he).symm⟩⟩
      · intro hj
        obtain ⟨j, hj | ⟨-, -, rfl⟩⟩ := hj
        · exact absurd hj (hnone j ch)
        · rfl
    · rw [Finmap.lookup_insert_of_ne _ hbucket, hs.pending_iff]
      simp [hbucket]
  · intro bucket j ch k ch' hj hk
    rcases (walking_enter hi ..).mp hj with hold | ⟨rfl, rfl, rfl⟩
    · rcases (walking_enter hi ..).mp hk with hold' | ⟨-, hbucket, -⟩
      · exact hs.one_walk bucket j ch k ch' hold hold'
      · exact absurd (hbucket ▸ hold) (hnone j ch)
    · rcases (walking_enter hi ..).mp hk with hold' | ⟨rfl, -, rfl⟩
      · exact absurd hold' (hnone k ch')
      · exact ⟨rfl, rfl⟩
  · intro j bucket ch hj
    rcases mem_callsOf_snoc.mp hj with hj | ⟨-, he⟩
    · rcases hs.waiter j bucket ch hj with hpending | hclosed
      · have hbucket : bucket ≠ b := by
          intro he
          rw [he, hb] at hpending
          cases hpending
        exact .inl ((Finmap.lookup_insert_of_ne _ hbucket).trans hpending)
      · exact .inr hclosed
    · exact absurd he (by simp)

theorem walking_finish {b : Str} {ch₀ : ℕ} {result : Option BucketStatsResponse} (j : ℕ)
    (bucket : Str) (ch : ℕ) :
    Walking (h ++ [⟨i, w, .statsFinish b ch₀ result, ()⟩]) j bucket ch ↔
      Walking h j bucket ch ∧ ¬(j = i ∧ bucket = b ∧ ch = ch₀) := by
  unfold Walking
  constructor
  · intro hj
    have henter : (⟨.statsEnter bucket, Entered.walk ch⟩ : Call) ∈ callsOf h j := by
      rcases mem_callsOf_snoc.mp hj.1 with hmem | ⟨-, he⟩
      · exact hmem
      · exact absurd (congrArg Sigma.fst he) (by simp)
    refine ⟨⟨henter, fun result' hmem => ?_⟩, fun he => ?_⟩
    · exact hj.2 result' (mem_callsOf_snoc.mpr (.inl hmem))
    · obtain ⟨rfl, rfl, rfl⟩ := he
      exact hj.2 result (mem_callsOf_snoc.mpr (.inr ⟨rfl, rfl⟩))
  · intro hj
    refine ⟨mem_callsOf_snoc.mpr (.inl hj.1.1), fun result' hmem => ?_⟩
    rcases mem_callsOf_snoc.mp hmem with hmem | ⟨hji, he⟩
    · exact hj.1.2 result' hmem
    · cases he
      exact hj.2 ⟨hji, rfl, rfl⟩

theorem Slots.finish (hs : Slots h cache) {b : Str} {ch₀ : ℕ} (hi : Walking h i b ch₀) (now : Time)
    (result : Option BucketStatsResponse) :
    Slots (h ++ [⟨i, w, .statsFinish b ch₀ result, ()⟩]) (cache.finish now b ch₀ result) := by
  have hslot : cache.pending.lookup b = some ch₀ := (hs.pending_iff b ch₀).mpr ⟨i, hi⟩
  constructor
  · intro bucket ch
    simp only [walking_finish]
    by_cases hbucket : bucket = b
    · subst hbucket
      constructor
      · intro he
        have herase : (cache.pending.erase bucket).lookup bucket = some ch := he
        rw [Finmap.lookup_erase] at herase
        cases herase
      · intro hj
        obtain ⟨j, hj, hne⟩ := hj
        obtain ⟨rfl, rfl⟩ := hs.one_walk bucket j ch i ch₀ hj hi
        exact absurd ⟨rfl, rfl, rfl⟩ hne
    · have herase : (cache.pending.erase b).lookup bucket = cache.pending.lookup bucket :=
        Finmap.lookup_erase_ne hbucket
      change (cache.pending.erase b).lookup bucket = some ch ↔ _
      rw [herase, hs.pending_iff]
      simp [hbucket]
  · intro bucket j ch k ch' hj hk
    exact hs.one_walk bucket j ch k ch' ((walking_finish ..).mp hj).1 ((walking_finish ..).mp hk).1
  · intro j bucket ch hj
    have hwait : Waits h j bucket ch := by
      rcases mem_callsOf_snoc.mp hj with hj | ⟨-, he⟩
      · exact hj
      · exact absurd (congrArg Sigma.fst he) (by simp)
    rcases hs.waiter j bucket ch hwait with hpending | hclosed
    · by_cases hbucket : bucket = b
      · rw [hbucket, hslot] at hpending
        obtain rfl := Option.some.inj hpending
        exact .inr (Finset.mem_insert_self _ _)
      · exact .inl ((Finmap.lookup_erase_ne hbucket).trans hpending)
    · exact .inr (Finset.mem_insert_of_mem hclosed)

end

section
variable {a : API} {outside : Outside} {w₀ : World} {h : History}
  {c : Config Op Reply UIRequest Answer World}

/-- A request whose calls are a registration and listings walks. -/
theorem walking_of_calls {i : ℕ} {bucket : Str} {ch : ℕ} {l : List Call}
    {w : Prog Op Reply (Except Str BucketStatsResponse)}
    (hcalls : callsOf h i = ⟨.statsEnter bucket, Entered.walk ch⟩ :: l)
    (hl : (a.computeBucketStats bucket).After l w) : Walking h i bucket ch := by
  constructor
  · rw [hcalls]
    exact List.mem_cons_self
  · intro result hmem
    rw [hcalls] at hmem
    rcases List.mem_cons.mp hmem with he | hmem
    · exact absurd (congrArg Sigma.fst he) (by simp)
    · obtain ⟨token, htoken⟩ := calls_of_walk hl _ hmem
      cases htoken

theorem Slots.step (hr : (statsSystem a outside).Run w₀ h c) (hs : Slots h c.state.cache) {i : ℕ}
    {r : UIRequest} {op : Op} {next : Reply op → Prog Op Reply Answer} {x : Reply op} {w' : World}
    (hi : c.threads i = some (r, .call op next)) (hx : Handle outside i c.state op x w') :
    Slots (h ++ [⟨i, c.state, op, x⟩]) w'.cache := by
  rcases (stage_of_call hr hi).nextCall with ⟨hcalls, rfl⟩ | ⟨ch, hcalls, rfl⟩ |
    ⟨ch, hcalls, rfl⟩ | ⟨token, rfl⟩ | ⟨ch, l, result, hcalls, hwalk, rfl⟩
  · obtain ⟨hreply, rfl⟩ := hx.of_enter
    rcases c.state.cache.enter_cases c.state.now (bucketFromRequest r) with
      ⟨resp, -, he⟩ | ⟨ch, hch, he⟩ | ⟨hnone, he⟩
    · rw [he] at hreply ⊢
      subst hreply
      exact hs.quiet (by simp) (by simp) (by simp)
    · rw [he] at hreply ⊢
      subst hreply
      refine hs.quiet (by simp) (by simp) fun b ch' hb => ?_
      cases hb
      exact hch
    · rw [he] at hreply ⊢
      subst hreply
      exact hs.enter hcalls hnone
  · obtain ⟨rfl, -⟩ := hx.of_wait
    exact hs.quiet (by simp) (by simp) (by simp)
  · obtain ⟨-, rfl⟩ := hx.of_read
    exact hs.quiet (by simp) (by simp) (by simp)
  · obtain ⟨rfl, -⟩ := hx.of_listObjects
    exact hs.quiet (by simp) (by simp) (by simp)
  · obtain rfl := hx.of_finish
    exact hs.finish (walking_of_calls hcalls hwalk) _ _

theorem slots_of_run (hr : (statsSystem a outside).Run w₀ h c) (h₀ : w₀.cache = {}) :
    Slots h c.state.cache := by
  induction hr with
  | init =>
      change Slots [] w₀.cache
      rw [h₀]
      exact slots_start
  | start _ i owner hi ih => exact ih
  | call hr i owner op next x s hi hs ih => exact ih.step hr hi hs
  | drift hr s hs ih =>
      change Slots _ s.cache
      rw [hs.1]
      exact ih

end

/-! ### Entries and walks -/

/-- A walk of the bucket has ended with these totals at this time. -/
def Ended (h : History) (bucket : Str) (resp : BucketStatsResponse) (t : Time) : Prop :=
  ∃ i w ch, (⟨i, w, .statsFinish bucket ch (some resp), ()⟩ : Event Op Reply World) ∈ h ∧ w.now = t

/-- The entry of a bucket is that of its latest walk, and no walk has ended in the future. -/
structure Entries (h : History) (w : World) : Prop where
  stored : ∀ bucket e, w.cache.entries.lookup bucket = some e →
    e.computed = true ∧ Ended h bucket e.resp e.fetched
  latest : ∀ bucket resp t, Ended h bucket resp t →
    t ≤ w.now ∧ ∃ e, w.cache.entries.lookup bucket = some e ∧ t ≤ e.fetched

theorem entries_start {w₀ : World} (h₀ : w₀.cache = {}) : Entries [] w₀ := by
  constructor
  · intro bucket e he
    rw [h₀] at he
    exact absurd he (by simp)
  · intro bucket resp t ht
    obtain ⟨i, w, ch, hmem, -⟩ := ht
    exact absurd hmem List.not_mem_nil

section
variable {h : History} {i : ℕ} {w w' : World}

theorem Ended.append {bucket : Str} {resp : BucketStatsResponse} {t : Time}
    (he : Ended h bucket resp t) (h' : History) : Ended (h ++ h') bucket resp t := by
  obtain ⟨j, v, ch, hmem, ht⟩ := he
  exact ⟨j, v, ch, List.mem_append_left _ hmem, ht⟩

theorem ended_snoc {op : Op} {x : Reply op} {bucket : Str} {resp : BucketStatsResponse} {t : Time} :
    Ended (h ++ [⟨i, w, op, x⟩]) bucket resp t ↔
      Ended h bucket resp t ∨ (∃ ch, op = .statsFinish bucket ch (some resp)) ∧ w.now = t := by
  constructor
  · intro he
    obtain ⟨j, v, ch, hmem, ht⟩ := he
    rcases List.mem_append.mp hmem with hmem | hmem
    · exact .inl ⟨j, v, ch, hmem, ht⟩
    · cases List.mem_singleton.mp hmem
      exact .inr ⟨⟨ch, rfl⟩, ht⟩
  · intro he
    rcases he with he | ⟨⟨ch, rfl⟩, ht⟩
    · exact he.append _
    · exact ⟨i, w, ch, List.mem_append_right _ (List.mem_singleton.mpr rfl), ht⟩

theorem Handle.entries {outside : Outside} {op : Op} {x : Reply op}
    (hx : Handle outside i w op x w') :
    w'.now = w.now ∧ w.cancelled = w'.cancelled ∧
      ((∃ bucket ch resp, op = .statsFinish bucket ch (some resp) ∧
          w'.cache = w.cache.finish w.now bucket ch (some resp)) ∨
        (∀ bucket ch resp, op ≠ .statsFinish bucket ch (some resp)) ∧
          w'.cache.entries = w.cache.entries) := by
  cases hx with
  | enter bucket =>
      exact ⟨rfl, rfl, .inr ⟨by simp, StatsCache.enter_entries ..⟩⟩
  | finish bucket ch result =>
      refine ⟨rfl, rfl, ?_⟩
      cases result with
      | none => exact .inr ⟨by simp, rfl⟩
      | some resp => exact .inl ⟨bucket, ch, resp, rfl, rfl⟩
  | storage hop =>
      refine ⟨rfl, rfl, .inr ⟨fun bucket ch resp he => ?_, rfl⟩⟩
      subst he
      simp [Op.scope] at hop
  | _ => exact ⟨rfl, rfl, .inr ⟨by simp, rfl⟩⟩

theorem Entries.step {outside : Outside} (hw : Entries h w) {op : Op} {x : Reply op}
    (hx : Handle outside i w op x w') : Entries (h ++ [⟨i, w, op, x⟩]) w' := by
  obtain ⟨hnow, -, ⟨b, ch, resp, rfl, hcache⟩ | ⟨hop, hcache⟩⟩ := hx.entries
  · have hlookup : ∀ bucket, w'.cache.entries.lookup bucket =
        (w.cache.entries.insert b { resp := resp, fetched := w.now, computed := true }).lookup
          bucket := by
      intro bucket
      rw [hcache]
      rfl
    constructor
    · intro bucket e he
      rw [hlookup] at he
      by_cases hb : bucket = b
      · subst hb
        rw [Finmap.lookup_insert] at he
        obtain rfl := Option.some.inj he
        exact ⟨rfl, ended_snoc.mpr (.inr ⟨⟨ch, rfl⟩, rfl⟩)⟩
      · rw [Finmap.lookup_insert_of_ne _ hb] at he
        obtain ⟨hcomputed, hended⟩ := hw.stored bucket e he
        exact ⟨hcomputed, hended.append _⟩
    · intro bucket resp' t ht
      rw [hlookup, hnow]
      rcases ended_snoc.mp ht with hold | ⟨⟨ch', he⟩, rfl⟩
      · obtain ⟨hpast, e, he, hle⟩ := hw.latest bucket resp' t hold
        refine ⟨hpast, ?_⟩
        by_cases hb : bucket = b
        · subst hb
          exact ⟨_, Finmap.lookup_insert _, hpast⟩
        · exact ⟨e, (Finmap.lookup_insert_of_ne _ hb).trans he, hle⟩
      · cases he
        exact ⟨le_refl _, _, Finmap.lookup_insert _, le_refl _⟩
  · constructor
    · intro bucket e he
      rw [hcache] at he
      obtain ⟨hcomputed, hended⟩ := hw.stored bucket e he
      exact ⟨hcomputed, hended.append _⟩
    · intro bucket resp t ht
      rw [hcache, hnow]
      rcases ended_snoc.mp ht with hold | ⟨⟨ch, he⟩, -⟩
      · exact hw.latest bucket resp t hold
      · exact absurd he (hop bucket ch resp)

theorem Entries.drift (hw : Entries h w) (hd : w.Drifts w') : Entries h w' := by
  constructor
  · intro bucket e he
    rw [hd.1] at he
    exact hw.stored bucket e he
  · intro bucket resp t ht
    rw [hd.1]
    obtain ⟨hpast, hentry⟩ := hw.latest bucket resp t ht
    exact ⟨hpast.trans hd.2.1, hentry⟩

end

section
variable {a : API} {outside : Outside} {w₀ : World} {h : History}
  {c : Config Op Reply UIRequest Answer World}

theorem entries_of_run (hr : (statsSystem a outside).Run w₀ h c) (h₀ : w₀.cache = {}) :
    Entries h c.state := by
  induction hr with
  | init => exact entries_start h₀
  | start _ i owner hi ih => exact ih
  | call _ i owner op next x s hi hs ih => exact ih.step hs
  | drift _ s hs ih => exact ih.drift hs

/-- The totals are the result of a walk that some request has made from its registration to
its end. -/
def Walked (a : API) (h : History) (bucket : Str) (resp : BucketStatsResponse) : Prop :=
  ∃ i ch l, callsOf h i = ⟨.statsEnter bucket, Entered.walk ch⟩ ::
      (l ++ [⟨.statsFinish bucket ch (some resp), ()⟩]) ∧
    (a.computeBucketStats bucket).After l (.done (.ok resp))

theorem walked_of_ended (hr : (statsSystem a outside).Run w₀ h c) {bucket : Str}
    {resp : BucketStatsResponse} {t : Time} (he : Ended h bucket resp t) :
    Walked a h bucket resp ∧ resp.bucket = bucket := by
  obtain ⟨i, w, ch, hmem, -⟩ := he
  have hcall := mem_callsOf.mpr ⟨w, hmem⟩
  cases hi : c.threads i with
  | none =>
      rw [(hr.thread i).1 hi] at hcall
      exact absurd hcall List.not_mem_nil
  | some thread =>
      rcases stage_of_run hr (p := thread.2) hi with ⟨-, hstage⟩ | ⟨-, hnil, -⟩
      · obtain ⟨-, l, result, hresult, hcalls, hwalk⟩ := hstage.finished_of_mem hcall
        cases result with
        | error err => cases hresult
        | ok resp' =>
            obtain rfl := Option.some.inj hresult
            exact ⟨⟨i, ch, l, hcalls, hwalk⟩, totals_bucket hwalk⟩
      · rw [hnil] at hcall
        exact absurd hcall List.not_mem_nil

/-- What a fresh entry hands out was walked less than the lifetime of an entry ago. -/
theorem cached_of_run {i : ℕ} {w : World} {bucket : Str} {resp : BucketStatsResponse}
    {h₁ h₂ : History}
    (hr : (statsSystem a outside).Run w₀
      (h₁ ++ ⟨i, w, .statsEnter bucket, Entered.cached resp⟩ :: h₂) c) (h₀ : w₀.cache = {}) :
    ∃ t, Ended h₁ bucket resp t ∧ w.now - t < statsCacheTTL := by
  obtain ⟨c₁, hr₁, hstate, r, next, w', hi, hx⟩ := hr.split
  have hentries := entries_of_run hr₁ h₀
  rw [hstate] at hentries
  have hfresh := StatsCache.enter_eq_cached (Handle.of_enter hx).1.symm
  obtain ⟨e, he, -, hage, rfl⟩ := StatsCache.freshEntry_eq_some.mp hfresh
  exact ⟨e.fetched, (hentries.stored bucket e he).2, hage⟩

/-- A request that reads again finds the totals of the latest walk, however old. -/
theorem read_of_run {i : ℕ} {w : World} {bucket : Str} {x : Option BucketStatsResponse}
    {h₁ h₂ : History}
    (hr : (statsSystem a outside).Run w₀ (h₁ ++ ⟨i, w, .statsRead bucket, x⟩ :: h₂) c)
    (h₀ : w₀.cache = {}) : x = w.cache.read bucket ∧ Entries h₁ w := by
  obtain ⟨c₁, hr₁, hstate, r, next, w', hi, hx⟩ := hr.split
  have hentries := entries_of_run hr₁ h₀
  rw [hstate] at hentries
  exact ⟨(Handle.of_read hx).1, hentries⟩

theorem walked_of_answer (hr : (statsSystem a outside).Run w₀ h c) (h₀ : w₀.cache = {}) {i : ℕ}
    {r : UIRequest} {answer : Answer} (hi : c.threads i = some (r, .done answer))
    (hok : answer.status = 200) :
    ∃ resp, answer = writeJSON 200 (.stats resp) ∧ resp.bucket = bucketFromRequest r ∧
      Walked a h (bucketFromRequest r) resp := by
  rcases stage_of_run hr hi with ⟨-, hstage⟩ | ⟨-, -, answer', hdone, hne⟩
  · obtain ⟨resp, hanswer, hcalls | ⟨ch, hcalls⟩ | ⟨ch, l, hcalls, hwalk⟩⟩ := hstage.answer hok
    · have hmem :
          (⟨.statsEnter (bucketFromRequest r), Entered.cached resp⟩ : Call) ∈ callsOf h i := by
        rw [hcalls]
        exact List.mem_singleton.mpr rfl
      obtain ⟨h₁, w, h₂, hh⟩ := System.Run.exists_split hmem
      rw [hh] at hr
      obtain ⟨t, ht, -⟩ := cached_of_run hr h₀
      obtain ⟨hwalked, hbucket⟩ := walked_of_ended hr (ht.append _)
      rw [← hh] at hwalked
      exact ⟨resp, hanswer, hbucket, hwalked⟩
    · have hmem : (⟨.statsRead (bucketFromRequest r), some resp⟩ : Call) ∈ callsOf h i := by
        rw [hcalls]
        simp
      obtain ⟨h₁, w, h₂, hh⟩ := System.Run.exists_split hmem
      rw [hh] at hr
      obtain ⟨hread, hentries⟩ := read_of_run hr h₀
      obtain ⟨e, he, -, rfl⟩ := StatsCache.read_eq_some.mp hread.symm
      obtain ⟨hwalked, hbucket⟩ := walked_of_ended hr ((hentries.stored _ e he).2.append _)
      rw [← hh] at hwalked
      exact ⟨e.resp, hanswer, hbucket, hwalked⟩
    · exact ⟨resp, hanswer, totals_bucket hwalk, i, ch, l, hcalls, hwalk⟩
  · cases hdone
    exact absurd hok hne

/-- A call of a request keeps the slots and entries of all other buckets, and only a walk that
succeeds changes an entry. -/
theorem frame_of_call (hr : (statsSystem a outside).Run w₀ h c) {i : ℕ} {r : UIRequest} {op : Op}
    {next : Reply op → Prog Op Reply Answer} {x : Reply op} {w' : World}
    (hi : c.threads i = some (r, .call op next)) (hx : Handle outside i c.state op x w') :
    (∀ bucket, bucket ≠ bucketFromRequest r →
      w'.cache.entries.lookup bucket = c.state.cache.entries.lookup bucket ∧
        w'.cache.pending.lookup bucket = c.state.cache.pending.lookup bucket) ∧
      ((∀ bucket ch resp, op ≠ .statsFinish bucket ch (some resp)) →
        w'.cache.entries = c.state.cache.entries) := by
  constructor
  · intro bucket hbucket
    rcases (stage_of_call hr hi).nextCall with ⟨-, rfl⟩ | ⟨ch, -, rfl⟩ | ⟨ch, -, rfl⟩ |
      ⟨token, rfl⟩ | ⟨ch, l, result, -, -, rfl⟩
    · obtain ⟨-, rfl⟩ := hx.of_enter
      refine ⟨by rw [StatsCache.enter_entries], ?_⟩
      rcases c.state.cache.enter_cases c.state.now (bucketFromRequest r) with
        ⟨resp, -, he⟩ | ⟨ch, -, he⟩ | ⟨-, he⟩
      · rw [he]
      · rw [he]
      · rw [he]
        exact Finmap.lookup_insert_of_ne _ hbucket
    · obtain ⟨rfl, -⟩ := hx.of_wait
      exact ⟨rfl, rfl⟩
    · obtain ⟨-, rfl⟩ := hx.of_read
      exact ⟨rfl, rfl⟩
    · obtain ⟨rfl, -⟩ := hx.of_listObjects
      exact ⟨rfl, rfl⟩
    · obtain rfl := hx.of_finish
      refine ⟨?_, Finmap.lookup_erase_ne hbucket⟩
      cases result with
      | error err => rfl
      | ok resp => exact Finmap.lookup_insert_of_ne _ hbucket
  · intro hop
    rcases hx.entries.2.2 with ⟨bucket, ch, resp, rfl, -⟩ | ⟨-, hsame⟩
    · exact absurd rfl (hop bucket ch resp)
    · exact hsame

/-- A request that comes first and whose only page has no objects walks and stores an entry. -/
theorem exists_walked {r : UIRequest} (hadm : Admits a r)
    (hpage : ∀ gone,
      outside gone (.listObjects (bucketFromRequest r) [] [] [] statsPageSize) (.ok {}))
    (now : Time) :
    ∃ h c, (statsSystem a outside).Run { now := now } h c ∧
      c.threads 0 = some (r, .done (writeJSON 200 (.stats
        { bucket := bucketFromRequest r, quotaBytes := a.quotaFor (bucketFromRequest r) }))) ∧
      (∀ i, i ≠ 0 → c.threads i = none) ∧ c.state.now = now ∧
      c.state.cache.pending.lookup (bucketFromRequest r) = none ∧
      c.state.cache.entries.lookup (bucketFromRequest r) = some
        { resp :=
            { bucket := bucketFromRequest r, quotaBytes := a.quotaFor (bucketFromRequest r) }
          fetched := now
          computed := true } := by
  have hr₀ : (statsSystem a outside).Run { now := now } [] _ := .init
  have hr₁ := hr₀.first_call (i := 0) rfl (start_of_admits hadm) (Handle.enter_walk rfl rfl)
  obtain ⟨next, hwalk, -, hnext⟩ := first_page a (bucketFromRequest r) 0
  have hr₂ := hr₁.next_call (x := .ok {}) hwalk (.storage (.inr rfl) (hpage _))
  have hr₃ := hr₂.next_call (x := ()) hnext (.finish ..)
  refine ⟨_, _, hr₃, ?_, fun i hi => ?_, rfl, Finmap.lookup_erase _ _, Finmap.lookup_insert _⟩
  · simp [answerOfWalk]
  · simp [hi, System.initial]

/-- The invariant of the cache: its slots, its entries and the answers given out of it. -/
structure CacheInvariant (a : API) (h : History) (c : Config Op Reply UIRequest Answer World) :
    Prop where
  slots : Slots h c.state.cache
  entries : ∀ bucket e, c.state.cache.entries.lookup bucket = some e →
    e.resp.bucket = bucket ∧ Walked a h bucket e.resp
  answers : ∀ i r answer, c.threads i = some (r, .done answer) → answer.status = 200 →
    ∃ resp, answer = writeJSON 200 (.stats resp) ∧ resp.bucket = bucketFromRequest r ∧
      Walked a h (bucketFromRequest r) resp

/-- In every run the cache keeps its invariant, and every call its frame. -/
theorem cacheInvariant_of_run {now : Time} (hr : (statsSystem a outside).Run { now := now } h c) :
    CacheInvariant a h c ∧
      ∀ i r op next x w', c.threads i = some (r, .call op next) → Handle outside i c.state op x w' →
        (∀ bucket, bucket ≠ bucketFromRequest r →
          w'.cache.entries.lookup bucket = c.state.cache.entries.lookup bucket ∧
            w'.cache.pending.lookup bucket = c.state.cache.pending.lookup bucket) ∧
          ((∀ bucket ch resp, op ≠ .statsFinish bucket ch (some resp)) →
            w'.cache.entries = c.state.cache.entries) := by
  refine ⟨⟨slots_of_run hr rfl, ?_, ?_⟩, fun i r op next x w' hi hx => frame_of_call hr hi hx⟩
  · intro bucket e he
    obtain ⟨-, hended⟩ := (entries_of_run hr rfl).stored bucket e he
    obtain ⟨hwalked, hbucket⟩ := walked_of_ended hr hended
    exact ⟨hbucket, hwalked⟩
  · intro i r answer hi hok
    exact walked_of_answer hr rfl hi hok

end

/-- A request for the totals of a bucket that its user may read. -/
def reader : UIRequest where
  method := str "GET"
  url := { path := str "/api/v1/buckets/b/stats" }
  header := .empty
  pathValues := [(str "bucket", str "b")]
  identity := some { claims := [], username := str "a", groups := [str "b-ro"] }

theorem reader_admits : Admits { hasBackend := true } reader :=
  ⟨by decide, by decide, rfl⟩

/-- Every answer, except that only the client of a request makes its listings fail. -/
def goneFails : Outside
  | gone, .listObjects .., .error _ => gone
  | _, _, _ => True

theorem goneFails_error (bucket err : Str) :
    ∀ gone, gone → goneFails gone (.listObjects bucket [] [] [] statsPageSize) (.error err) :=
  fun _ hgone => hgone

theorem goneFails_ok (bucket : Str) :
    ∀ gone, goneFails gone (.listObjects bucket [] [] [] statsPageSize) (.ok {}) :=
  fun _ => trivial

theorem cacheInvariant_of_run_reader :
    ∃ h c, CacheInvariant { hasBackend := true } h c ∧
      (c.state.cache.entries.lookup (bucketFromRequest reader)).isSome ∧
      ∀ i r op next x w', c.threads i = some (r, .call op next) →
        Handle goneFails i c.state op x w' →
        (∀ bucket, bucket ≠ bucketFromRequest r →
          w'.cache.entries.lookup bucket = c.state.cache.entries.lookup bucket ∧
            w'.cache.pending.lookup bucket = c.state.cache.pending.lookup bucket) ∧
          ((∀ bucket ch resp, op ≠ .statsFinish bucket ch (some resp)) →
            w'.cache.entries = c.state.cache.entries) := by
  obtain ⟨h, c, hr, -, -, -, -, hentry⟩ := exists_walked reader_admits (goneFails_ok _) 0
  have hboth := cacheInvariant_of_run hr
  refine ⟨h, c, hboth.1, ?_, hboth.2⟩
  rw [hentry]
  rfl

end PierGateway.WebUI
