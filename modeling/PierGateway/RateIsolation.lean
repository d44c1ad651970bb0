import PierGateway.RateLimiter

/-!
# Every key has a bucket of its own

The limiter shadows a bucket for each key: what the map holds for the key, or a new
bucket when it holds none, is at every later time filled like the bucket that the key
would have alone. Dropping idle buckets keeps this, since they are full, and so do the
calls for other keys. The answers to a key are then those of its own bucket, and what
bounds these bounds the limiter.
-/
namespace PierGateway.WebUI
open GoStrings TokenBuckets

theorem lookup_dropIdle (now idleFor : Time) (buckets : Finmap fun _ : Str => TokenBucket)
    (k : Str) :
    (dropIdle now idleFor buckets).lookup k =
      (buckets.lookup k).filter fun b => ¬idleFor < timeSub now b.last := by
  refine Option.ext fun b => ?_
  rw [Finmap.lookup_eq_some_iff, Option.filter_eq_some_iff, Finmap.lookup_eq_some_iff]
  simp [dropIdle]

namespace RateLimiter

theorem gcLocked_params (l : RateLimiter) (now : Time) :
    (l.gcLocked now).rate = l.rate ∧ (l.gcLocked now).burst = l.burst ∧
      (l.gcLocked now).idleFor = l.idleFor := by
  unfold gcLocked
  split_ifs <;> exact ⟨rfl, rfl, rfl⟩

theorem lookup_gcLocked (l : RateLimiter) (now : Time) (k : Str) :
    (l.gcLocked now).buckets.lookup k = l.buckets.lookup k ∨
      ((l.gcLocked now).buckets.lookup k = none ∧
        ∃ b, l.buckets.lookup k = some b ∧ l.idleFor < timeSub now b.last) := by
  unfold gcLocked
  split_ifs
  · exact .inl rfl
  · dsimp only
    rw [lookup_dropIdle]
    cases l.buckets.lookup k with
    | none => exact .inl rfl
    | some b =>
        by_cases hidle : l.idleFor < timeSub now b.last
        · exact .inr ⟨by simp [hidle], b, rfl, hidle⟩
        · exact .inl (by simp [not_lt.mp hidle])

theorem Ample.gcLocked {l : RateLimiter} (hl : l.Ample) (now : Time) : (l.gcLocked now).Ample := by
  obtain ⟨hrate, hburst, hidle⟩ := l.gcLocked_params now
  exact ⟨by rw [hburst]; exact hl.burst, by rw [hrate]; exact hl.rate,
    by rw [hidle]; exact hl.idleFor, by rw [hrate, hburst, hidle]; exact hl.fills⟩

/-! ### Buckets within their limits -/

/-- Every bucket holds between none and a burst of tokens and was last used in the past. -/
def Sound (l : RateLimiter) (now : Time) : Prop :=
  ∀ k b, l.buckets.lookup k = some b → b.ideal.Within l.burst ∧ b.last ≤ now

section
variable {l : RateLimiter} {now now' : Time}

theorem sound_limiterWith (rate burst : ℚ) (now : Time) : (limiterWith rate burst).Sound now := by
  intro k b hb
  exact absurd hb (by simp [limiterWith])

theorem Sound.gcLocked (hs : l.Sound now) (hnow : now ≤ now') : (l.gcLocked now').Sound now' := by
  intro k b hb
  rw [(l.gcLocked_params now').2.1]
  rcases l.lookup_gcLocked now' k with hsame | ⟨hnone, -⟩
  · obtain ⟨hwithin, hlast⟩ := hs k b (hsame.symm.trans hb)
    exact ⟨hwithin, hlast.trans hnow⟩
  · rw [hnone] at hb
    cases hb

theorem Sound.bucket (hs : l.Sound now) (hl : l.Ample) (k : Str) :
    (l.bucket k now).ideal.Within l.burst ∧ (l.bucket k now).last ≤ now := by
  unfold RateLimiter.bucket
  cases hb : l.buckets.lookup k with
  | none => exact ⟨⟨hl.burst, le_refl _⟩, le_refl _⟩
  | some b => exact hs k b hb

theorem allow_params (l : RateLimiter) (key : Str) (now : Time) :
    (l.allow key now).2.rate = l.rate ∧ (l.allow key now).2.burst = l.burst ∧
      (l.allow key now).2.idleFor = l.idleFor := l.gcLocked_params now

theorem Ample.allow (hl : l.Ample) (key : Str) (now : Time) : (l.allow key now).2.Ample := by
  obtain ⟨hburst, hrate, hidle, hfills⟩ := hl.gcLocked now
  exact ⟨hburst, hrate, hidle, hfills⟩

/-- What is left of the bucket a key was served from. -/
def served (l : RateLimiter) (key : Str) (now : Time) : Bool × TokenBucket :=
  ((l.bucket key now).refill l.rate l.burst now).spend

theorem ideal_served (hs : l.Sound now) (hl : l.Ample) (k : Str) :
    ((l.served k now).1, (l.served k now).2.ideal) =
      (l.bucket k now).ideal.serve l.rate l.burst (seconds now) := by
  obtain ⟨hwithin, hlast⟩ := hs.bucket hl k
  unfold served
  rw [TokenBucket.ideal_spend, hl.ideal_refill hwithin hlast]
  rfl

theorem bucket_allow_self (l : RateLimiter) (key : Str) (now t : Time) :
    (l.allow key now).2.bucket key t = ((l.gcLocked now).served key now).2 := by
  have hlookup : (l.allow key now).2.buckets.lookup key =
      some ((l.gcLocked now).served key now).2 :=
    Finmap.lookup_insert _
  unfold RateLimiter.bucket
  rw [hlookup, Option.getD_some]

theorem lookup_allow_of_ne (l : RateLimiter) {k key : Str} (hk : k ≠ key) (now : Time) :
    (l.allow key now).2.buckets.lookup k = (l.gcLocked now).buckets.lookup k :=
  Finmap.lookup_insert_of_ne _ hk

theorem Sound.allow (hs : l.Sound now) (hl : l.Ample) (hnow : now ≤ now') (key : Str) :
    (l.allow key now').2.Sound now' := by
  have hs' := hs.gcLocked hnow
  have hl' := hl.gcLocked now'
  intro k b hb
  by_cases hk : k = key
  · subst hk
    obtain rfl : ((l.gcLocked now').served k now').2 = b :=
      Option.some.inj ((Finmap.lookup_insert _).symm.trans hb)
    obtain ⟨hwithin, hlast⟩ := hs'.bucket hl' k
    have hideal := congrArg Prod.snd (ideal_served hs' hl' k)
    dsimp only at hideal
    constructor
    · rw [hideal]
      exact hwithin.serve hl'.rate (seconds_le_seconds.mpr hlast)
    · have hsame := congrArg Bucket.last hideal
      rw [Bucket.serve_last] at hsame
      exact seconds_le_seconds.mp hsame.le
  · rw [lookup_allow_of_ne l hk] at hb
    exact hs' k b hb

/-! ### Buckets of their own -/

/-- From now on the bucket of the key is filled like this one. -/
def Shadows (l : RateLimiter) (now : Time) (k : Str) (p : Bucket ℚ) : Prop :=
  ∀ t, now ≤ t → (l.bucket k t).ideal.refill l.rate l.burst (seconds t) =
    p.refill l.rate l.burst (seconds t)

variable {k : Str} {p : Bucket ℚ}

theorem refill_new (rate burst : ℚ) (t : Time) :
    (TokenBucket.ideal ⟨burst, t⟩).refill rate burst (seconds t) = ⟨burst, seconds t⟩ :=
  Bucket.refill_eq_full (by simp [TokenBucket.ideal])

theorem shadows_limiterWith {rate burst : ℚ} (hrate : 0 ≤ rate) (k : Str) (now : Time) :
    (limiterWith rate burst).Shadows now k ⟨burst, seconds now⟩ := by
  intro t ht
  have hgain : 0 ≤ rate * (seconds t - seconds now) :=
    mul_nonneg hrate (sub_nonneg.mpr (seconds_le_seconds.mpr ht))
  exact (refill_new rate burst t).trans
    (Bucket.refill_eq_full (le_add_of_nonneg_right hgain)).symm

/-- Dropping idle buckets does not show: they would be full. -/
theorem Shadows.gcLocked (hp : l.Shadows now k p) (hs : l.Sound now) (hl : l.Ample)
    (hnow : now ≤ now') : (l.gcLocked now').Shadows now' k p := by
  intro t ht
  obtain ⟨hrate, hburst, -⟩ := l.gcLocked_params now'
  have hsame := hp t (hnow.trans ht)
  rw [hrate, hburst, ← hsame]
  unfold RateLimiter.bucket
  rw [hburst]
  rcases l.lookup_gcLocked now' k with hlookup | ⟨hnone, b, hb, hidle⟩
  · rw [hlookup]
  · have hlong : l.idleFor ≤ t - b.last := by
      have hcut := timeSub_le ((hs k b hb).2.trans hnow)
      exact hidle.le.trans (hcut.trans (sub_le_sub_right ht _))
    rw [hnone, hb, Option.getD_none, Option.getD_some, refill_new, hl.full (hs k b hb).1 hlong]

theorem Shadows.allow_self (hp : l.Shadows now k p) (hs : l.Sound now) (hl : l.Ample)
    (hnow : now ≤ now') :
    (l.allow k now').1 = (p.serve l.rate l.burst (seconds now')).1 ∧
      (l.allow k now').2.Shadows now' k (p.serve l.rate l.burst (seconds now')).2 := by
  obtain ⟨hrate, hburst, -⟩ := l.gcLocked_params now'
  have hgc := hp.gcLocked hs hl hnow now' (le_refl _)
  have hideal := ideal_served (hs.gcLocked hnow) (hl.gcLocked now') k
  unfold Bucket.serve at hideal ⊢
  rw [hgc, hrate, hburst] at hideal
  rw [← hideal]
  refine ⟨rfl, fun t _ => ?_⟩
  obtain ⟨hrate', hburst', -⟩ := l.allow_params k now'
  rw [bucket_allow_self, hrate', hburst']

/-- A call for another key does not show. -/
theorem Shadows.allow_other (hp : l.Shadows now k p) (hs : l.Sound now) (hl : l.Ample)
    (hnow : now ≤ now') {key : Str} (hk : k ≠ key) : (l.allow key now').2.Shadows now' k p := by
  intro t ht
  have hother : (l.allow key now').2.bucket k t = (l.gcLocked now').bucket k t := by
    unfold RateLimiter.bucket
    rw [lookup_allow_of_ne l hk]
    rfl
  rw [hother]
  exact hp.gcLocked hs hl hnow t ht

/-- In a run the answers to a key are those of its own bucket. -/
theorem answersTo_log (hp : l.Shadows now k p) (hs : l.Sound now) (hl : l.Ample)
    {calls : List (Str × Time)} (hcalls : (now :: calls.map Prod.snd).Pairwise (· ≤ ·)) :
    answersTo k (l.log calls) = Bucket.serveAll l.rate l.burst p (timesOf k calls) := by
  induction calls generalizing l now p with
  | nil => rfl
  | cons call calls ih =>
      obtain ⟨key, t⟩ := call
      obtain ⟨hfirst, hrest⟩ := List.pairwise_cons.mp hcalls
      have hnow : now ≤ t := hfirst t List.mem_cons_self
      obtain ⟨hrate, hburst, -⟩ := l.allow_params key t
      by_cases hk : k = key
      · subst hk
        obtain ⟨hanswer, hp'⟩ := hp.allow_self hs hl hnow
        have hih := ih hp' (hs.allow hl hnow k) (hl.allow k t) hrest
        rw [hrate, hburst] at hih
        unfold answersTo timesOf at hih ⊢
        simp only [RateLimiter.log, List.filterMap_cons, ↓reduceIte, Bucket.serveAll, hih, hanswer]
      · have hih := ih (hp.allow_other hs hl hnow hk) (hs.allow hl hnow key) (hl.allow key t) hrest
        rw [hrate, hburst] at hih
        unfold answersTo timesOf at hih ⊢
        simpa only [RateLimiter.log, List.filterMap_cons, Ne.symm hk, ↓reduceIte] using hih

theorem sound_after (hs : l.Sound now) (hl : l.Ample) {calls : List (Str × Time)}
    (hcalls : (now :: calls.map Prod.snd).Pairwise (· ≤ ·)) :
    (l.after calls).burst = l.burst ∧ ∃ last, (l.after calls).Sound last := by
  induction calls generalizing l now with
  | nil => exact ⟨rfl, now, hs⟩
  | cons call calls ih =>
      obtain ⟨key, t⟩ := call
      obtain ⟨hfirst, hrest⟩ := List.pairwise_cons.mp hcalls
      have hnow : now ≤ t := hfirst t List.mem_cons_self
      obtain ⟨hburst, hsound⟩ := ih (hs.allow hl hnow key) (hl.allow key t) hrest
      exact ⟨hburst.trans (l.allow_params key t).2.1, hsound⟩

end

end RateLimiter

/-! ### The limiter in a run -/

theorem mem_timesOf {k : Str} {calls : List (Str × Time)} {t : ℚ} (ht : t ∈ timesOf k calls) :
    ∃ call ∈ calls, t = seconds call.2 := by
  obtain ⟨call, hcall, hct⟩ := List.mem_filterMap.mp ht
  split_ifs at hct
  exact ⟨call, hcall, (Option.some.inj hct).symm⟩

theorem sorted_from_first {call : Str × Time} {calls : List (Str × Time)}
    (h : ((call :: calls).map Prod.snd).Pairwise (· ≤ ·)) :
    (call.2 :: (call :: calls).map Prod.snd).Pairwise (· ≤ ·) := by
  refine List.pairwise_cons.mpr ⟨fun t ht => ?_, h⟩
  rcases List.mem_cons.mp ht with rfl | ht
  · exact le_refl _
  · exact (List.pairwise_cons.mp h).1 t ht

section
variable {rate burst : ℚ} {calls : List (Str × Time)}

/-- The answers to a key are those of a bucket that serves this key alone and is never dropped. -/
theorem answersTo_eq_run (hburst : 0 ≤ burst)
    (hfills : burst ≤ rate * seconds (limiterWith rate burst).idleFor)
    (hcalls : (calls.map Prod.snd).Pairwise (· ≤ ·)) (k : Str) :
    answersTo k ((limiterWith rate burst).log calls) = Bucket.run rate burst (timesOf k calls) := by
  have hl := ample_limiterWith hburst hfills
  have hrate : 0 ≤ rate := hl.rate
  cases calls with
  | nil => rfl
  | cons call calls =>
      have hsorted := sorted_from_first hcalls
      have hown : answersTo k ((limiterWith rate burst).log (call :: calls)) =
          Bucket.serveAll rate burst ⟨burst, seconds call.2⟩ (timesOf k (call :: calls)) :=
        RateLimiter.answersTo_log (RateLimiter.shadows_limiterWith hrate k call.2)
          (RateLimiter.sound_limiterWith rate burst call.2) hl hsorted
      rw [hown]
      refine Bucket.serveAll_full hrate fun t ht => ?_
      obtain ⟨c, hc, rfl⟩ := mem_timesOf ht
      exact seconds_le_seconds.mpr
        ((List.pairwise_cons.mp hsorted).1 c.2 (List.mem_map.mpr ⟨c, hc, rfl⟩))

/-- Every key is served as by a bucket of its own, when a bucket fills up before it is dropped. -/
theorem key_isolated (hburst : 1 ≤ burst)
    (hfills : burst ≤ rate * seconds (limiterWith rate burst).idleFor)
    (hcalls : (calls.map Prod.snd).Pairwise (· ≤ ·)) (k : Str) :
    answersTo k ((limiterWith rate burst).log calls) = Bucket.run rate burst (timesOf k calls) :=
  answersTo_eq_run (zero_le_one.trans hburst) hfills hcalls k

theorem key_isolated_login_routes :
    answersTo (str "a") ((newRateLimiter 20 10).log
        [(str "a", 0), (str "b", second), (str "a", 2000 * second)]) =
      Bucket.run (newRateLimiter 20 10).rate (newRateLimiter 20 10).burst
        (timesOf (str "a") [(str "a", 0), (str "b", second), (str "a", 2000 * second)]) :=
  key_isolated (by norm_num) (by norm_num [seconds, limiterWith, second]) (by decide) _

/-- The calls for the key in the interval that are answered with yes. -/
def grants (k : Str) (t₁ t₂ : Time) (log : List (Str × Time × Bool)) : ℕ :=
  log.countP fun c => decide (c.1 = k ∧ c.2.2 = true ∧ t₁ ≤ c.2.1 ∧ c.2.1 ≤ t₂)

theorem grants_eq_accepted (k : Str) (t₁ t₂ : Time) (log : List (Str × Time × Bool)) :
    grants k t₁ t₂ log = Bucket.accepted (seconds t₁) (seconds t₂) (answersTo k log) := by
  induction log with
  | nil => rfl
  | cons c log ih =>
      unfold grants at ih ⊢
      by_cases hk : c.1 = k
      · have hcons : answersTo k (c :: log) = (seconds c.2.1, c.2.2) :: answersTo k log := by
          simp [answersTo, hk]
        rw [hcons, Bucket.accepted_cons, List.countP_cons, ih]
        simp only [seconds_le_seconds, hk, true_and, decide_eq_true_eq]
      · have hcons : answersTo k (c :: log) = answersTo k log := by simp [answersTo, hk]
        rw [hcons, List.countP_cons, ih]
        simp [hk]

/-- In any interval a key is granted at most a burst and what the rate yields over it, and in
every state a bucket holds between none and a burst of tokens. -/
theorem grants_le (hburst : 0 ≤ burst)
    (hfills : burst ≤ rate * seconds (limiterWith rate burst).idleFor)
    (hcalls : (calls.map Prod.snd).Pairwise (· ≤ ·)) :
    (∀ k t₁ t₂, t₁ ≤ t₂ →
      (grants k t₁ t₂ ((limiterWith rate burst).log calls) : ℚ) ≤
      burst + rate * seconds (t₂ - t₁)) ∧
      ∀ k b, ((limiterWith rate burst).after calls).buckets.lookup k = some b →
        0 ≤ b.tokens ∧ b.tokens ≤ burst := by
  have hl := ample_limiterWith hburst hfills
  constructor
  · intro k t₁ t₂ ht
    have hsorted : (timesOf k calls).Pairwise (· ≤ ·) := by
      refine List.Pairwise.filterMap _ ?_ (List.pairwise_map.mp hcalls)
      intro c c' hc t hct t' hct'
      split_ifs at hct hct'
      obtain rfl := Option.some.inj hct
      obtain rfl := Option.some.inj hct'
      exact seconds_le_seconds.mpr hc
    rw [grants_eq_accepted, answersTo_eq_run hburst hfills hcalls, seconds_sub]
    exact Bucket.accepted_run_le hl.rate hburst hsorted (seconds_le_seconds.mpr ht)
  · intro k b hb
    cases calls with
    | nil => exact absurd hb (by simp [RateLimiter.after, limiterWith])
    | cons call calls =>
        obtain ⟨hsame, last, hsound⟩ := RateLimiter.sound_after
          (RateLimiter.sound_limiterWith rate burst call.2) hl (sorted_from_first hcalls)
        have hwithin := (hsound k b hb).1
        rw [hsame] at hwithin
        exact hwithin

theorem grants_le_login_routes :
    (∀ k t₁ t₂, t₁ ≤ t₂ →
      (grants k t₁ t₂ ((newRateLimiter 20 10).log [(str "a", 0), (str "a", second)]) : ℚ) ≤
        (newRateLimiter 20 10).burst + (newRateLimiter 20 10).rate * seconds (t₂ - t₁)) ∧
      ∀ k b, ((newRateLimiter 20 10).after
          [(str "a", 0), (str "a", second)]).buckets.lookup k = some b →
        0 ≤ b.tokens ∧ b.tokens ≤ (newRateLimiter 20 10).burst :=
  grants_le (by norm_num) (by norm_num [seconds, limiterWith, second]) (by decide)

/-- With a burst below zero nothing is granted, and that is still more than the bound. -/
theorem bound_needs_burst :
    ¬∀ rate burst : ℚ, burst ≤ rate * seconds (limiterWith rate burst).idleFor →
      ∀ calls : List (Str × Time), (calls.map Prod.snd).Pairwise (· ≤ ·) →
        (∀ k t₁ t₂, t₁ ≤ t₂ → (grants k t₁ t₂ ((limiterWith rate burst).log calls) : ℚ) ≤
          burst + rate * seconds (t₂ - t₁)) ∧
          ∀ k b, ((limiterWith rate burst).after calls).buckets.lookup k = some b →
            0 ≤ b.tokens ∧ b.tokens ≤ burst := by
  intro hall
  have hbound := (hall 0 (-1) (by norm_num) [] List.Pairwise.nil).1 [] 0 0 (le_refl _)
  norm_num [grants, RateLimiter.log] at hbound

end
end PierGateway.WebUI
