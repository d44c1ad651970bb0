import Mathlib.Data.Finmap
import PierGateway.TokenBuckets
import PierGateway.UiMessages

/-!
# The rate limiter of the login routes

One map holds a token bucket for every key, and any call may drop the buckets that
have been idle for long. As long as a bucket fills up within that time, a dropped
bucket is one that would be full at its next use, so every key is served as if it had
a bucket of its own that nobody drops.
-/
namespace PierGateway.WebUI
open GoStrings TokenBuckets

/-- The longest `Duration`. -/
def maxDuration : Time := 2 ^ 63 - 1

/-- `t.Sub(u)`: a difference that is no `Duration` becomes the nearest one. -/
def timeSub (t u : Time) : Time := max (-2 ^ 63) (min maxDuration (t - u))

/-- `d.Seconds()`, exactly. -/
def seconds (d : Time) : ℚ := d / second

structure TokenBucket where
  tokens : ℚ
  last : Time

structure RateLimiter where
  buckets : Finmap fun _ : Str => TokenBucket := ∅
  rate : ℚ
  burst : ℚ
  idleFor : Time
  lastGC : Time := zeroTime

/-- A limiter as `newRateLimiter` builds it, for any rate a second and any burst. -/
def limiterWith (rate burst : ℚ) : RateLimiter where
  rate := rate
  burst := burst
  idleFor := 10 * 60 * second

def newRateLimiter (ratePerMinute burst : ℤ) : RateLimiter :=
  limiterWith (ratePerMinute / 60) burst

/-- The loop that deletes the buckets idle for longer than the time. -/
def dropIdle (now idleFor : Time) (buckets : Finmap fun _ : Str => TokenBucket) :
    Finmap fun _ : Str => TokenBucket where
  entries := buckets.entries.filter fun e => ¬idleFor < timeSub now e.2.last
  nodupKeys := by
    rw [← Multiset.nodup_keys]
    refine Multiset.nodup_of_le (Multiset.map_le_map (Multiset.filter_le _ _)) ?_
    exact Multiset.nodup_keys.mpr buckets.nodupKeys

def RateLimiter.gcLocked (l : RateLimiter) (now : Time) : RateLimiter :=
  if timeSub now l.lastGC < l.idleFor then l
  else { l with lastGC := now, buckets := dropIdle now l.idleFor l.buckets }

/-- Refill based on elapsed time, capped at the burst. -/
def TokenBucket.refill (b : TokenBucket) (rate burst : ℚ) (now : Time) : TokenBucket :=
  let elapsed := seconds (timeSub now b.last)
  if 0 < elapsed then
    let tokens := b.tokens + elapsed * rate
    { tokens := if burst < tokens then burst else tokens, last := now }
  else b

def TokenBucket.spend (b : TokenBucket) : Bool × TokenBucket :=
  if b.tokens < 1 then (false, b) else (true, { b with tokens := b.tokens - 1 })

/-- The bucket of the key, new and full if there is none. -/
def RateLimiter.bucket (l : RateLimiter) (key : Str) (now : Time) : TokenBucket :=
  (l.buckets.lookup key).getD { tokens := l.burst, last := now }

def RateLimiter.allow (l : RateLimiter) (key : Str) (now : Time) : Bool × RateLimiter :=
  let l := l.gcLocked now
  let served := ((l.bucket key now).refill l.rate l.burst now).spend
  (served.1, { l with buckets := l.buckets.insert key served.2 })

/-- The answers to a list of calls, each with its key and time. -/
def RateLimiter.log : RateLimiter → List (Str × Time) → List (Str × Time × Bool)
  | _, [] => []
  | l, (key, now) :: calls => (key, now, (l.allow key now).1) :: (l.allow key now).2.log calls

/-- The limiter after a list of calls. -/
def RateLimiter.after : RateLimiter → List (Str × Time) → RateLimiter
  | l, [] => l
  | l, (key, now) :: calls => (l.allow key now).2.after calls

/-- The calls for one key, with their times in seconds. -/
def timesOf (k : Str) (calls : List (Str × Time)) : List ℚ :=
  calls.filterMap fun c => if c.1 = k then some (seconds c.2) else none

/-- The answers to one key, with their times in seconds. -/
def answersTo (k : Str) (log : List (Str × Time × Bool)) : List (ℚ × Bool) :=
  log.filterMap fun c => if c.1 = k then some (seconds c.2.1, c.2.2) else none

/-! ### Times -/

theorem seconds_sub (t u : Time) : seconds (t - u) = seconds t - seconds u := by
  unfold seconds
  push_cast
  ring

theorem seconds_le_seconds {t u : Time} : seconds t ≤ seconds u ↔ t ≤ u := by
  have hsecond : (0 : ℚ) < second := by norm_num [second]
  unfold seconds
  rw [div_le_div_iff_of_pos_right hsecond]
  exact Int.cast_le

theorem seconds_pos {d : Time} : 0 < seconds d ↔ 0 < d := by
  have hzero : seconds 0 = 0 := by simp [seconds]
  rw [← not_le, ← not_le, ← hzero, seconds_le_seconds]

theorem timeSub_eq {t u : Time} (hu : u ≤ t) (ht : t - u ≤ maxDuration) : timeSub t u = t - u := by
  unfold timeSub
  rw [min_eq_right ht, max_eq_right]
  exact le_trans (by norm_num) (sub_nonneg.mpr hu)

theorem timeSub_eq_max {t u : Time} (ht : maxDuration ≤ t - u) : timeSub t u = maxDuration := by
  unfold timeSub
  rw [min_eq_left ht, max_eq_right]
  decide

theorem timeSub_le {t u : Time} (hu : u ≤ t) : timeSub t u ≤ t - u := by
  unfold timeSub
  refine max_le ?_ (min_le_right _ _)
  exact le_trans (by norm_num) (sub_nonneg.mpr hu)

/-! ### One bucket -/

/-- The bucket as one of its own. -/
def TokenBucket.ideal (b : TokenBucket) : Bucket ℚ := ⟨b.tokens, seconds b.last⟩

theorem TokenBucket.ideal_spend (b : TokenBucket) :
    (b.spend.1, b.spend.2.ideal) = b.ideal.spend := by
  by_cases h : b.tokens < 1
  · simp [spend, ideal, Bucket.spend, h, not_le.mpr h]
  · simp [spend, ideal, Bucket.spend, h, not_lt.mp h]

/-- The limits of a limiter: buckets fill up within the time after which they are dropped. -/
structure RateLimiter.Ample (l : RateLimiter) : Prop where
  burst : 0 ≤ l.burst
  rate : 0 ≤ l.rate
  idleFor : l.idleFor ≤ maxDuration
  fills : l.burst ≤ l.rate * seconds l.idleFor

theorem ample_limiterWith {rate burst : ℚ} (hburst : 0 ≤ burst)
    (hfills : burst ≤ rate * seconds (limiterWith rate burst).idleFor) :
    (limiterWith rate burst).Ample := by
  have hlong : (0 : Time) < 10 * 60 * second ∧ 10 * 60 * second ≤ maxDuration := by decide
  have hidle : 0 < seconds (limiterWith rate burst).idleFor := seconds_pos.mpr hlong.1
  exact ⟨hburst, nonneg_of_mul_nonneg_left (hburst.trans hfills) hidle, hlong.2, hfills⟩

theorem cap_eq_min (burst tokens : ℚ) :
    (if burst < tokens then burst else tokens) = min burst tokens := by
  split_ifs with h
  · exact (min_eq_left h.le).symm
  · exact (min_eq_right (not_lt.mp h)).symm

section
variable {l : RateLimiter}

theorem RateLimiter.Ample.full (hl : l.Ample) {b : TokenBucket} (hb : b.ideal.Within l.burst)
    {now : Time} (hidle : l.idleFor ≤ now - b.last) :
    b.ideal.refill l.rate l.burst (seconds now) = ⟨l.burst, seconds now⟩ := by
  refine Bucket.refill_eq_full ?_
  have hgain : l.rate * seconds l.idleFor ≤ l.rate * seconds (now - b.last) :=
    mul_le_mul_of_nonneg_left (seconds_le_seconds.mpr hidle) hl.rate
  rw [seconds_sub] at hgain
  exact hl.fills.trans (hgain.trans (le_add_of_nonneg_left hb.1))

/-- The refill of the limiter is that of the bucket as one of its own. -/
theorem RateLimiter.Ample.ideal_refill (hl : l.Ample) {b : TokenBucket}
    (hb : b.ideal.Within l.burst) {now : Time} (hnow : b.last ≤ now) :
    (b.refill l.rate l.burst now).ideal = b.ideal.refill l.rate l.burst (seconds now) := by
  unfold TokenBucket.refill
  dsimp only
  rcases hnow.eq_or_lt with heq | hlt
  · -- no time has passed
    have hzero : ¬0 < seconds (timeSub now b.last) := by
      rw [seconds_pos, timeSub_eq hnow (by simp [heq, maxDuration])]
      simp [heq]
    rw [if_neg hzero]
    have hfits : b.tokens ≤ l.burst := hb.2
    simp only [Bucket.refill, TokenBucket.ideal, heq, sub_self, mul_zero, add_zero]
    rw [min_eq_right hfits]
  · by_cases hmax : now - b.last ≤ maxDuration
    · have helapsed := timeSub_eq hnow hmax
      have hpos : 0 < seconds (timeSub now b.last) := by
        rw [helapsed, seconds_pos]
        exact sub_pos.mpr hlt
      rw [if_pos hpos, helapsed, seconds_sub, cap_eq_min]
      simp only [Bucket.refill, TokenBucket.ideal, mul_comm l.rate]
    · -- the time that has passed is cut, and is long enough all the same
      have hlong : maxDuration ≤ now - b.last := (not_le.mp hmax).le
      have helapsed := timeSub_eq_max hlong
      have hpos : 0 < seconds (timeSub now b.last) := by
        rw [helapsed, seconds_pos]
        decide
      have hgain : l.burst ≤ b.tokens + seconds maxDuration * l.rate := by
        have hmore := mul_le_mul_of_nonneg_left (seconds_le_seconds.mpr hl.idleFor) hl.rate
        rw [mul_comm (seconds maxDuration)]
        exact hl.fills.trans (hmore.trans (le_add_of_nonneg_left hb.1))
      rw [if_pos hpos, helapsed, hl.full hb (hl.idleFor.trans hlong), cap_eq_min, min_eq_left hgain]
      rfl

end

end PierGateway.WebUI
