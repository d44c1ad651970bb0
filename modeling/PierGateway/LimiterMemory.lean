import PierGateway.RateIsolation

/-!
# What the rate limiter remembers

A bucket is dropped when it has been idle for long, but only a call drops any, and calls look for
idle buckets no more often than that time. So the limiter holds the buckets of the keys that
called within the idle time, all of them, and of no key that has not called within twice that
time: what it holds is bounded by the calls of that time, however many keys there ever were.
-/
namespace PierGateway.WebUI
open GoStrings

/-! ### Durations -/

theorem timeSub_lt_iff {t u d : Time} (hu : u ≤ t) (hd : d ≤ maxDuration) :
    timeSub t u < d ↔ t - u < d := by
  by_cases hmax : t - u ≤ maxDuration
  · rw [timeSub_eq hu hmax]
  · have hlong : maxDuration ≤ t - u := (not_le.mp hmax).le
    rw [timeSub_eq_max hlong]
    exact iff_of_false (not_lt.mpr hd) (not_lt.mpr (hd.trans hlong))

theorem lt_timeSub_iff {t u d : Time} (hu : u ≤ t) (hd : d < maxDuration) :
    d < timeSub t u ↔ d < t - u := by
  by_cases hmax : t - u ≤ maxDuration
  · rw [timeSub_eq hu hmax]
  · have hlong : maxDuration ≤ t - u := (not_le.mp hmax).le
    rw [timeSub_eq_max hlong]
    exact iff_of_true hd (hd.trans_le hlong)

theorem TokenBucket.spend_last (b : TokenBucket) : b.spend.2.last = b.last := by
  unfold TokenBucket.spend
  split_ifs
  · rfl
  · rfl

theorem TokenBucket.refill_last {b : TokenBucket} {now : Time} (h : b.last ≤ now) (rate burst : ℚ) :
    (b.refill rate burst now).last = now := by
  unfold TokenBucket.refill
  dsimp only
  by_cases helapsed : 0 < seconds (timeSub now b.last)
  · rw [if_pos helapsed]
  · -- no time has passed
    have hpos : (0 : Time) < maxDuration := by decide
    rw [if_neg helapsed]
    rw [seconds_pos, lt_timeSub_iff h hpos] at helapsed
    exact le_antisymm h (sub_nonpos.mp (not_lt.mp helapsed))

namespace RateLimiter

/-- Every bucket is one of a call that was recent at the last search, and every key with a call that
was recent then has a bucket that is no older. -/
structure Recent (l : RateLimiter) (calls : List (Str × Time)) : Prop where
  dated : ∀ k b, l.buckets.lookup k = some b → (k, b.last) ∈ calls ∧ l.lastGC - b.last ≤ l.idleFor
  kept : ∀ k t, (k, t) ∈ calls → l.lastGC - t ≤ l.idleFor →
    ∃ b, l.buckets.lookup k = some b ∧ t ≤ b.last

/-- The invariant of the limiter and the calls so far, the last of which came soon after the last
search. -/
structure Tidy (l : RateLimiter) (calls : List (Str × Time)) : Prop extends l.Recent calls where
  idle : 0 < l.idleFor ∧ l.idleFor < maxDuration
  searched : l.lastGC = zeroTime ∨ ∃ call ∈ calls, call.2 = l.lastGC
  soon : ∀ call ∈ calls, call.2 - l.lastGC < l.idleFor

theorem tidy_limiterWith (rate burst : ℚ) : (limiterWith rate burst).Tidy [] where
  dated k b h := by simp [limiterWith] at h
  kept k t h := absurd h List.not_mem_nil
  idle := by
    change (0 : Time) < 10 * 60 * second ∧ 10 * 60 * second < maxDuration
    decide
  searched := .inl rfl
  soon call h := absurd h List.not_mem_nil

section
variable {l : RateLimiter} {calls : List (Str × Time)} {now : Time}

theorem Tidy.lastGC_le (h : l.Tidy calls) (hzero : zeroTime ≤ now)
    (hcalls : ∀ call ∈ calls, call.2 ≤ now) :
    l.lastGC ≤ now := by
  rcases h.searched with heq | ⟨call, hcall, heq⟩
  · rw [heq]
    exact hzero
  · rw [← heq]
    exact hcalls call hcall

theorem gcLocked_cases (hlast : l.lastGC ≤ now) (hidle : l.idleFor < maxDuration) :
    (now - l.lastGC < l.idleFor ∧ l.gcLocked now = l) ∨
      l.idleFor ≤ now - l.lastGC ∧
        l.gcLocked now = { l with lastGC := now, buckets := dropIdle now l.idleFor l.buckets } := by
  have hiff := timeSub_lt_iff hlast hidle.le
  unfold RateLimiter.gcLocked
  by_cases hsoon : timeSub now l.lastGC < l.idleFor
  · rw [if_pos hsoon]
    exact .inl ⟨hiff.mp hsoon, rfl⟩
  · rw [if_neg hsoon]
    exact .inr ⟨not_lt.mp fun hlt => hsoon (hiff.mpr hlt), rfl⟩

theorem Recent.gcLocked (h : l.Recent calls) (hlast : l.lastGC ≤ now)
    (hidle : l.idleFor < maxDuration)
    (hcalls : ∀ call ∈ calls, call.2 ≤ now) : (l.gcLocked now).Recent calls := by
  rcases gcLocked_cases hlast hidle with ⟨-, heq⟩ | ⟨-, heq⟩
  · rw [heq]
    exact h
  · rw [heq]
    constructor
    · intro k b hb
      rw [lookup_dropIdle, Option.filter_eq_some_iff] at hb
      obtain ⟨hmem, -⟩ := h.dated k b hb.1
      have hrecent : ¬l.idleFor < timeSub now b.last := by simpa using hb.2
      rw [lt_timeSub_iff (hcalls _ hmem) hidle] at hrecent
      exact ⟨hmem, not_lt.mp hrecent⟩
    · intro k t ht hrecent
      have hnow : now - t ≤ l.idleFor := hrecent
      have hold : l.lastGC - t ≤ l.idleFor := (sub_le_sub_right hlast t).trans hnow
      obtain ⟨b, hb, htb⟩ := h.kept k t ht hold
      have hstays : ¬l.idleFor < timeSub now b.last := by
        rw [lt_timeSub_iff (hcalls _ (h.dated k b hb).1) hidle]
        exact not_lt.mpr ((sub_le_sub_left htb now).trans hnow)
      refine ⟨b, ?_, htb⟩
      rw [lookup_dropIdle, Option.filter_eq_some_iff]
      exact ⟨hb, by simpa using hstays⟩

theorem Recent.insert (h : l.Recent calls) (hidle : 0 < l.idleFor) (hlast : l.lastGC ≤ now)
    (hcalls : ∀ call ∈ calls, call.2 ≤ now) (key : Str) {b : TokenBucket} (hb : b.last = now) :
    Recent { l with buckets := l.buckets.insert key b } (calls ++ [(key, now)]) := by
  constructor
  · intro k b' hb'
    by_cases hk : k = key
    · subst hk
      obtain rfl : b = b' := Option.some.inj ((Finmap.lookup_insert _).symm.trans hb')
      rw [hb]
      exact ⟨by simp, (sub_nonpos.mpr hlast).trans hidle.le⟩
    · rw [Finmap.lookup_insert_of_ne _ hk] at hb'
      obtain ⟨hmem, hrecent⟩ := h.dated k b' hb'
      exact ⟨List.mem_append_left _ hmem, hrecent⟩
  · intro k t ht hrecent
    by_cases hk : k = key
    · subst hk
      refine ⟨b, Finmap.lookup_insert _, ?_⟩
      rw [hb]
      rcases List.mem_append.mp ht with hold | hnew
      · exact hcalls _ hold
      · exact (Prod.mk.inj (List.mem_singleton.mp hnew)).2.le
    · have hold : (k, t) ∈ calls := by simpa [hk] using ht
      obtain ⟨b', hb', htb⟩ := h.kept k t hold hrecent
      exact ⟨b', (Finmap.lookup_insert_of_ne _ hk).trans hb', htb⟩

theorem Recent.served_last (h : l.Recent calls) (hcalls : ∀ call ∈ calls, call.2 ≤ now)
    (key : Str) :
    (l.served key now).2.last = now := by
  have hbefore : (l.bucket key now).last ≤ now := by
    unfold RateLimiter.bucket
    cases hb : l.buckets.lookup key with
    | none => exact le_rfl
    | some b => exact hcalls _ (h.dated key b hb).1
  unfold RateLimiter.served
  rw [TokenBucket.spend_last, TokenBucket.refill_last hbefore]

theorem Tidy.allow (h : l.Tidy calls) (hzero : zeroTime ≤ now)
    (hcalls : ∀ call ∈ calls, call.2 ≤ now)
    (key : Str) : (l.allow key now).2.Tidy (calls ++ [(key, now)]) := by
  have hlast := h.lastGC_le hzero hcalls
  have hrecent := h.toRecent.gcLocked hlast h.idle.2 hcalls
  have hparams : (l.allow key now).2.idleFor = l.idleFor := (l.allow_params key now).2.2
  have hgc : (l.gcLocked now).idleFor = l.idleFor := (l.gcLocked_params now).2.2
  have hsearch : (l.allow key now).2.lastGC ≤ now ∧ now - (l.allow key now).2.lastGC < l.idleFor ∧
      ((l.allow key now).2.lastGC = l.lastGC ∨ (l.allow key now).2.lastGC = now) := by
    change (l.gcLocked now).lastGC ≤ now ∧ now - (l.gcLocked now).lastGC < l.idleFor ∧
      ((l.gcLocked now).lastGC = l.lastGC ∨ (l.gcLocked now).lastGC = now)
    rcases gcLocked_cases hlast h.idle.2 with ⟨hsoon, heq⟩ | ⟨-, heq⟩
    · rw [heq]
      exact ⟨hlast, hsoon, .inl rfl⟩
    · rw [heq]
      exact ⟨le_rfl, by simpa using h.idle.1, .inr rfl⟩
  obtain ⟨hle, hsoon, hwhen⟩ := hsearch
  have hidle : 0 < (l.gcLocked now).idleFor := by
    rw [hgc]
    exact h.idle.1
  refine ⟨hrecent.insert hidle hle hcalls key (hrecent.served_last hcalls key), ?_, ?_, ?_⟩
  · rw [hparams]
    exact h.idle
  · rcases hwhen with heq | heq
    · rw [heq]
      rcases h.searched with hnone | ⟨call, hcall, hat⟩
      · exact .inl hnone
      · exact .inr ⟨call, List.mem_append_left _ hcall, hat⟩
    · exact .inr ⟨(key, now), by simp, heq.symm⟩
  · intro call hcall
    rw [hparams]
    have hnow : call.2 ≤ now := by
      rcases List.mem_append.mp hcall with hold | hnew
      · exact hcalls call hold
      · rw [List.mem_singleton.mp hnew]
    exact (sub_le_sub_right hnow _).trans_lt hsoon

theorem after_concat (l : RateLimiter) (calls : List (Str × Time)) (key : Str) (now : Time) :
    l.after (calls ++ [(key, now)]) = ((l.after calls).allow key now).2 := by
  induction calls generalizing l with
  | nil => rfl
  | cons call calls ih =>
      obtain ⟨key', t⟩ := call
      exact ih (l.allow key' t).2

theorem after_idleFor (l : RateLimiter) (calls : List (Str × Time)) :
    (l.after calls).idleFor = l.idleFor := by
  induction calls generalizing l with
  | nil => rfl
  | cons call calls ih =>
      obtain ⟨key, t⟩ := call
      exact (ih (l.allow key t).2).trans (l.allow_params key t).2.2

/-- Calls in the order of their times keep the limiter tidy. -/
theorem tidy_after (hl : l.Tidy []) (hzero : ∀ call ∈ calls, zeroTime ≤ call.2)
    (hcalls : (calls.map Prod.snd).Pairwise (· ≤ ·)) : (l.after calls).Tidy calls := by
  induction calls using List.reverseRecOn with
  | nil => exact hl
  | append_singleton calls call ih =>
      obtain ⟨key, now⟩ := call
      rw [List.map_append, List.pairwise_append] at hcalls
      have hbefore : ∀ call ∈ calls, call.2 ≤ now := fun call hcall =>
        hcalls.2.2 call.2 (List.mem_map_of_mem hcall) now (by simp)
      have htidy := ih (fun call hcall => hzero call (List.mem_append_left _ hcall)) hcalls.1
      rw [after_concat]
      exact htidy.allow (hzero (key, now) (by simp)) hbefore key

end

end RateLimiter

section
variable (rate burst : ℚ) {earlier : List (Str × Time)} {key : Str} {now : Time}

/-- After a call the limiter holds a bucket for every key that called within the idle time and for
no key that has not called within twice that time, so no more buckets than there were calls in
it. -/
theorem held_recent (hzero : ∀ call ∈ earlier ++ [(key, now)], zeroTime ≤ call.2)
    (hcalls : ((earlier ++ [(key, now)]).map Prod.snd).Pairwise (· ≤ ·)) :
    (∀ k t, (k, t) ∈ earlier ++ [(key, now)] → now - t ≤ (limiterWith rate burst).idleFor →
        k ∈ ((limiterWith rate burst).after (earlier ++ [(key, now)])).buckets) ∧
      (∀ k ∈ ((limiterWith rate burst).after (earlier ++ [(key, now)])).buckets, ∃ t,
        (k, t) ∈ earlier ++ [(key, now)] ∧ now - t < 2 * (limiterWith rate burst).idleFor) ∧
      ((limiterWith rate burst).after (earlier ++ [(key, now)])).buckets.keys.card ≤
        ((earlier ++ [(key, now)]).filter fun call =>
          now - call.2 < 2 * (limiterWith rate burst).idleFor).length := by
  have htidy := RateLimiter.tidy_after (RateLimiter.tidy_limiterWith rate burst) hzero hcalls
  have hidle := (limiterWith rate burst).after_idleFor (earlier ++ [(key, now)])
  have hlatest : ∀ call ∈ earlier ++ [(key, now)], call.2 ≤ now := by
    intro call hcall
    rw [List.map_append, List.pairwise_append] at hcalls
    rcases List.mem_append.mp hcall with hold | hnew
    · exact hcalls.2.2 call.2 (List.mem_map_of_mem hold) now (by simp)
    · rw [List.mem_singleton.mp hnew]
  have hlast := htidy.lastGC_le (hzero (key, now) (by simp)) hlatest
  have hsoon := htidy.soon (key, now) (by simp)
  generalize (limiterWith rate burst).after (earlier ++ [(key, now)]) = l at *
  rw [← hidle]
  have hheld : ∀ k ∈ l.buckets, ∃ t, (k, t) ∈ earlier ++ [(key, now)] ∧
      now - t < 2 * l.idleFor := by
    intro k hk
    obtain ⟨b, hb⟩ := Finmap.mem_iff.mp hk
    obtain ⟨hmem, hrecent⟩ := htidy.dated k b hb
    refine ⟨b.last, hmem, ?_⟩
    have hsum : now - b.last = (now - l.lastGC) + (l.lastGC - b.last) :=
      (sub_add_sub_cancel _ _ _).symm
    rw [hsum, two_mul]
    exact add_lt_add_of_lt_of_le hsoon hrecent
  refine ⟨?_, hheld, ?_⟩
  · intro k t ht hrecent
    obtain ⟨b, hb, -⟩ := htidy.kept k t ht ((sub_le_sub_right hlast t).trans hrecent)
    exact Finmap.mem_iff.mpr ⟨b, hb⟩
  · have hsubset : l.buckets.keys ⊆ (((earlier ++ [(key, now)]).filter fun call =>
        now - call.2 < 2 * l.idleFor).map Prod.fst).toFinset := by
      intro k hk
      obtain ⟨t, ht, hrecent⟩ := hheld k (Finmap.mem_keys.mp hk)
      rw [List.mem_toFinset]
      exact List.mem_map.mpr ⟨(k, t), List.mem_filter.mpr ⟨ht, by simpa using hrecent⟩, rfl⟩
    refine (Finset.card_le_card hsubset).trans ((List.toFinset_card_le _).trans ?_)
    rw [List.length_map]

/-- Two callers, the second half an hour after the first. -/
theorem held_recent_login_routes :
    ((newRateLimiter 20 10).after [(str "a", 0), (str "b", 1800 * second)]).buckets.keys.card ≤
      1 := by
  have hzero : ∀ call ∈ [(str "a", (0 : Time))] ++
      [(str "b", 1800 * second)], zeroTime ≤ call.2 := by decide
  have hbound := (held_recent (20 / 60) 10 hzero (by decide)).2.2
  exact hbound

end

end PierGateway.WebUI
