import Mathlib.Algebra.Order.Field.Basic
import Mathlib.Data.List.Sort
import Mathlib.Tactic

/-!
# Token buckets

A bucket holds tokens up to a burst, gains them at a rate as time passes and gives one
away for every request that it accepts. A bucket on its own starts full at its first
request. Whatever the times of its requests, the ones it accepts in an interval are at
most the burst and what the rate yields over the interval: the tokens it holds are the
potential that pays for them.
-/
namespace PierGateway.TokenBuckets

structure Bucket (K : Type) where
  tokens : K
  last : K

namespace Bucket
variable {K : Type} [Field K] [LinearOrder K]

def refill (rate burst : K) (b : Bucket K) (now : K) : Bucket K :=
  ⟨min burst (b.tokens + rate * (now - b.last)), now⟩

/-- Whether there is a token to spend, and the bucket without it. -/
def spend (b : Bucket K) : Bool × Bucket K :=
  if 1 ≤ b.tokens then (true, { b with tokens := b.tokens - 1 }) else (false, b)

def serve (rate burst : K) (b : Bucket K) (now : K) : Bool × Bucket K :=
  (b.refill rate burst now).spend

/-- Requests at these times, each with its answer. -/
def serveAll (rate burst : K) : Bucket K → List K → List (K × Bool)
  | _, [] => []
  | b, t :: ts =>
      (t, (b.serve rate burst t).1) :: serveAll rate burst (b.serve rate burst t).2 ts

/-- The answers of a bucket that is full at its first request. -/
def run (rate burst : K) : List K → List (K × Bool)
  | [] => []
  | t :: ts => serveAll rate burst ⟨burst, t⟩ (t :: ts)

/-! ### One request -/

theorem spend_last (b : Bucket K) : b.spend.2.last = b.last := by
  unfold spend
  split_ifs <;> rfl

theorem spend_tokens (b : Bucket K) :
    b.tokens = b.spend.2.tokens + if b.spend.1 then 1 else 0 := by
  by_cases h : 1 ≤ b.tokens
  · simp [spend, h]
  · simp [spend, h]

theorem serve_last (rate burst : K) (b : Bucket K) (now : K) :
    (b.serve rate burst now).2.last = now := spend_last _

theorem fst_of_mem_serveAll {rate burst : K} {b : Bucket K} {ts : List K} {x : K × Bool}
    (h : x ∈ serveAll rate burst b ts) : x.1 ∈ ts := by
  induction ts generalizing b with
  | nil => cases h
  | cons t ts ih =>
      rcases List.mem_cons.mp h with rfl | h
      · exact List.mem_cons_self
      · exact List.mem_cons_of_mem _ (ih h)

/-- Buckets that are alike at the next request are alike from then on. -/
theorem serveAll_congr {rate burst : K} {b b' : Bucket K} {ts : List K}
    (h : ∀ t ∈ ts.head?, b.refill rate burst t = b'.refill rate burst t) :
    serveAll rate burst b ts = serveAll rate burst b' ts := by
  cases ts with
  | nil => rfl
  | cons t ts =>
      unfold serveAll serve
      rw [h t rfl]

theorem refill_eq_full {rate burst : K} {b : Bucket K} {now : K}
    (h : burst ≤ b.tokens + rate * (now - b.last)) : b.refill rate burst now = ⟨burst, now⟩ := by
  unfold refill
  rw [min_eq_left h]

/-- How many requests in the interval are accepted. -/
def accepted (t₁ t₂ : K) (log : List (K × Bool)) : ℕ :=
  log.countP fun x => decide (x.2 = true ∧ t₁ ≤ x.1 ∧ x.1 ≤ t₂)

omit [Field K] in
theorem accepted_cons (t₁ t₂ : K) (x : K × Bool) (log : List (K × Bool)) :
    accepted t₁ t₂ (x :: log) =
      accepted t₁ t₂ log + if x.2 = true ∧ t₁ ≤ x.1 ∧ x.1 ≤ t₂ then 1 else 0 := by
  simp [accepted, List.countP_cons]

omit [Field K] in
theorem accepted_eq_zero {t₁ t₂ : K} {log : List (K × Bool)} (h : ∀ x ∈ log, t₂ < x.1) :
    accepted t₁ t₂ log = 0 := by
  unfold accepted
  rw [List.countP_eq_zero]
  intro x hx
  simp [not_le.mpr (h x hx)]

theorem accepted_late {rate burst : K} {b : Bucket K} {t t₁ t₂ : K} {ts : List K}
    (hts : (t :: ts).Pairwise (· ≤ ·)) (ht : t₂ < t) :
    accepted t₁ t₂ (serveAll rate burst b (t :: ts)) = 0 := by
  refine accepted_eq_zero fun x hx => ?_
  rcases List.mem_cons.mp (fst_of_mem_serveAll hx) with heq | hmem
  · rw [heq]
    exact ht
  · exact ht.trans_le ((List.pairwise_cons.mp hts).1 _ hmem)

variable [IsStrictOrderedRing K]

/-- The bucket holds between none and a burst of tokens. -/
def Within (burst : K) (b : Bucket K) : Prop := 0 ≤ b.tokens ∧ b.tokens ≤ burst

theorem Within.refill {rate burst : K} {b : Bucket K} (hb : b.Within burst) (hrate : 0 ≤ rate)
    {now : K} (hnow : b.last ≤ now) : (b.refill rate burst now).Within burst := by
  have hgain : 0 ≤ rate * (now - b.last) := mul_nonneg hrate (sub_nonneg.mpr hnow)
  constructor
  · exact le_min (hb.1.trans hb.2) (add_nonneg hb.1 hgain)
  · exact min_le_left _ _

theorem Within.spend {burst : K} {b : Bucket K} (hb : b.Within burst) : b.spend.2.Within burst := by
  unfold Bucket.spend
  split_ifs with h
  · exact ⟨sub_nonneg.mpr h, (sub_le_self _ zero_le_one).trans hb.2⟩
  · exact hb

theorem Within.serve {rate burst : K} {b : Bucket K} (hb : b.Within burst) (hrate : 0 ≤ rate)
    {now : K} (hnow : b.last ≤ now) : (b.serve rate burst now).2.Within burst :=
  (hb.refill hrate hnow).spend

/-! ### Intervals -/

theorem serveAll_full {rate burst t₀ : K} (hrate : 0 ≤ rate) {ts : List K}
    (hts : ∀ t ∈ ts, t₀ ≤ t) :
    serveAll rate burst ⟨burst, t₀⟩ ts = run rate burst ts := by
  cases ts with
  | nil => rfl
  | cons t ts =>
      refine serveAll_congr fun t' ht' => ?_
      obtain rfl : t = t' := by simpa using ht'
      have hgain : 0 ≤ rate * (t - t₀) :=
        mul_nonneg hrate (sub_nonneg.mpr (hts t List.mem_cons_self))
      have hfull : (⟨burst, t₀⟩ : Bucket K).refill rate burst t = ⟨burst, t⟩ :=
        refill_eq_full (le_add_of_nonneg_right hgain)
      have hnew : (⟨burst, t⟩ : Bucket K).refill rate burst t = ⟨burst, t⟩ :=
        refill_eq_full (by simp)
      exact hfull.trans hnew.symm

section
variable {rate burst : K} {b : Bucket K} {ts : List K} {t₁ t₂ : K}

/-- What a bucket accepts up to some time is paid for by what it holds and gains until then. -/
theorem accepted_le_tokens (t₁ : K) (hrate : 0 ≤ rate) (hb : b.Within burst)
    (hts : (b.last :: ts).Pairwise (· ≤ ·)) (ht : b.last ≤ t₂) :
    (accepted t₁ t₂ (serveAll rate burst b ts) : K) ≤ b.tokens + rate * (t₂ - b.last) := by
  induction ts generalizing b with
  | nil =>
      have hgain : 0 ≤ rate * (t₂ - b.last) := mul_nonneg hrate (sub_nonneg.mpr ht)
      simpa [serveAll, accepted] using add_nonneg hb.1 hgain
  | cons t ts ih =>
      obtain ⟨hfirst, hrest⟩ := List.pairwise_cons.mp hts
      have hlast : b.last ≤ t := hfirst t List.mem_cons_self
      by_cases htt : t ≤ t₂
      · have hserve := serve_last rate burst b t
        have hsorted : ((b.serve rate burst t).2.last :: ts).Pairwise (· ≤ ·) := by
          rw [hserve]
          exact hrest
        have hih := ih (hb.serve hrate hlast) hsorted (hserve.le.trans htt)
        rw [hserve] at hih
        have hspend := spend_tokens (b.refill rate burst t)
        have hrefill : (b.refill rate burst t).tokens ≤ b.tokens + rate * (t - b.last) :=
          min_le_right _ _
        have hcount : (accepted t₁ t₂ (serveAll rate burst b (t :: ts)) : K) ≤
            (accepted t₁ t₂ (serveAll rate burst (b.serve rate burst t).2 ts) : K) +
              if (b.serve rate burst t).1 then 1 else 0 := by
          rw [serveAll, accepted_cons, Nat.cast_add]
          refine add_le_add (le_refl _) ?_
          cases (b.serve rate burst t).1 with
          | false => simp
          | true =>
              by_cases hin : t₁ ≤ t ∧ t ≤ t₂
              · simp [hin]
              · simp [hin]
        have hgain : rate * (t₂ - b.last) = rate * (t - b.last) + rate * (t₂ - t) := by ring
        unfold serve at hcount hih
        linarith
      · have hgain : 0 ≤ rate * (t₂ - b.last) := mul_nonneg hrate (sub_nonneg.mpr ht)
        rw [accepted_late hrest (not_le.mp htt)]
        simpa using add_nonneg hb.1 hgain

/-- In any interval a bucket accepts at most a burst and what the rate yields over it. -/
theorem accepted_serveAll_le (hrate : 0 ≤ rate) (hb : b.Within burst)
    (hts : (b.last :: ts).Pairwise (· ≤ ·)) (ht : t₁ ≤ t₂) :
    (accepted t₁ t₂ (serveAll rate burst b ts) : K) ≤ burst + rate * (t₂ - t₁) := by
  have hyield : 0 ≤ rate * (t₂ - t₁) := mul_nonneg hrate (sub_nonneg.mpr ht)
  induction ts generalizing b with
  | nil => simpa [serveAll, accepted] using add_nonneg (hb.1.trans hb.2) hyield
  | cons t ts ih =>
      obtain ⟨hfirst, hrest⟩ := List.pairwise_cons.mp hts
      have hlast : b.last ≤ t := hfirst t List.mem_cons_self
      by_cases hstart : t < t₁
      · -- the interval has not begun
        have hserve := serve_last rate burst b t
        have hskip : accepted t₁ t₂ (serveAll rate burst b (t :: ts)) =
            accepted t₁ t₂ (serveAll rate burst (b.serve rate burst t).2 ts) := by
          rw [serveAll, accepted_cons]
          simp [not_le.mpr hstart]
        rw [hskip]
        refine ih (hb.serve hrate hlast) ?_
        rw [hserve]
        exact hrest
      · by_cases hend : t ≤ t₂
        · -- the first request of the interval finds at most a burst
          have hfull := hb.refill hrate hlast
          have hsame : serveAll rate burst b (t :: ts) =
              serveAll rate burst (b.refill rate burst t) (t :: ts) := by
            refine serveAll_congr fun t' ht' => ?_
            obtain rfl : t = t' := by simpa using ht'
            unfold refill
            simp
          rw [hsame]
          have hpaid := accepted_le_tokens t₁ hrate hfull
            (List.pairwise_cons.mpr ⟨fun t' ht' => ?_, hrest⟩) hend
          · have hlate : rate * (t₂ - t) ≤ rate * (t₂ - t₁) :=
              mul_le_mul_of_nonneg_left (sub_le_sub_left (not_lt.mp hstart) _) hrate
            have hheld := hfull.2
            have hnow : (b.refill rate burst t).last = t := rfl
            rw [hnow] at hpaid
            linarith
          · rcases List.mem_cons.mp ht' with rfl | hmem
            · exact le_refl _
            · exact (List.pairwise_cons.mp hrest).1 t' hmem
        · rw [accepted_late hrest (not_le.mp hend)]
          simpa using add_nonneg (hb.1.trans hb.2) hyield

theorem accepted_run_le (hrate : 0 ≤ rate) (hburst : 0 ≤ burst) (hts : ts.Pairwise (· ≤ ·))
    (ht : t₁ ≤ t₂) : (accepted t₁ t₂ (run rate burst ts) : K) ≤ burst + rate * (t₂ - t₁) := by
  cases ts with
  | nil =>
      have hyield : 0 ≤ rate * (t₂ - t₁) := mul_nonneg hrate (sub_nonneg.mpr ht)
      simpa [run, accepted] using add_nonneg hburst hyield
  | cons t ts =>
      refine accepted_serveAll_le hrate ⟨hburst, le_refl _⟩ ?_ ht
      refine List.pairwise_cons.mpr ⟨fun t' ht' => ?_, hts⟩
      rcases List.mem_cons.mp ht' with rfl | hmem
      · exact le_refl _
      · exact (List.pairwise_cons.mp hts).1 t' hmem

end

end Bucket
end PierGateway.TokenBuckets
