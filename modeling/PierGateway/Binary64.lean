import Mathlib.Algebra.Order.Floor.Ring
import Mathlib.Data.Int.Log
import Mathlib.Data.Rat.Floor
import Mathlib.Tactic

/-!
# Rounding to binary64

The finite numbers of the format are the rationals `m * 2 ^ e` with a significand of
53 bits and `e` at least -1074. `nearest` takes a rational to the nearest of them, to
the one with the even significand from the middle between two, as if the exponent had
no upper end. What overflows is decided on the result.
-/
namespace PierGateway.Binary64

/-- The nearest integer, and the even one from the middle between two. -/
def roundEven (q : ℚ) : ℤ :=
  if q - ⌊q⌋ < 1 / 2 then ⌊q⌋ else if 1 / 2 < q - ⌊q⌋ then ⌊q⌋ + 1 else ⌊q⌋ + ⌊q⌋ % 2

/-- The exponent of the last place of the numbers around `q`. -/
def lastPlace (q : ℚ) : ℤ := max (Int.log 2 |q| - 52) (-1074)

def nearest (q : ℚ) : ℚ := roundEven (q / 2 ^ lastPlace q) * 2 ^ lastPlace q

/-- The rationals that the format has, its largest exponent left open. -/
def Representable (q : ℚ) : Prop := ∃ m e : ℤ, |m| < 2 ^ 53 ∧ -1074 ≤ e ∧ q = m * 2 ^ e

@[simp] theorem roundEven_intCast (n : ℤ) : roundEven n = n := by
  simp [roundEven]

theorem roundEven_bounds (q : ℚ) : ⌊q⌋ ≤ roundEven q ∧ roundEven q ≤ ⌊q⌋ + 1 := by
  unfold roundEven
  split_ifs
  · omega
  · omega
  · omega

theorem roundEven_nonneg {q : ℚ} (hq : 0 ≤ q) : 0 ≤ roundEven q :=
  (Int.floor_nonneg.mpr hq).trans (roundEven_bounds q).1

theorem abs_roundEven_le {q : ℚ} {n : ℤ} (hq : |q| < n) : |roundEven q| ≤ n := by
  have hlt := abs_lt.mp hq
  have hfloor : -n ≤ ⌊q⌋ := Int.le_floor.mpr (by push_cast; exact hlt.1.le)
  have hceil : ⌊q⌋ < n := Int.floor_lt.mpr hlt.2
  have hbounds := roundEven_bounds q
  exact abs_le.mpr ⟨by omega, by omega⟩

theorem zpow_pos_two (e : ℤ) : (0 : ℚ) < 2 ^ e := zpow_pos (by norm_num) e

theorem nearest_nonneg {q : ℚ} (hq : 0 ≤ q) : 0 ≤ nearest q := by
  have hn : 0 ≤ roundEven (q / 2 ^ lastPlace q) :=
    roundEven_nonneg (div_nonneg hq (zpow_pos_two _).le)
  exact mul_nonneg (by exact_mod_cast hn) (zpow_pos_two _).le

/-- Seen from its last place, a number has at most 53 bits. -/
theorem abs_div_lastPlace_lt (q : ℚ) : |q / 2 ^ lastPlace q| < (2 ^ 53 : ℤ) := by
  have hlog : |q| < 2 ^ (Int.log 2 |q| + 1) := by
    have h := Int.lt_zpow_succ_log_self (b := 2) (by norm_num) |q|
    exact_mod_cast h
  have hle : Int.log 2 |q| + 1 ≤ 53 + lastPlace q := by
    unfold lastPlace
    omega
  have hpow : (2 : ℚ) ^ (Int.log 2 |q| + 1) ≤ 2 ^ (53 + lastPlace q) :=
    zpow_le_zpow_right₀ (by norm_num) hle
  rw [abs_div, abs_of_pos (zpow_pos_two _), div_lt_iff₀ (zpow_pos_two _)]
  calc
    |q| < 2 ^ (53 + lastPlace q) := hlog.trans_le hpow
    _ = ((2 ^ 53 : ℤ) : ℚ) * 2 ^ lastPlace q := by
      rw [zpow_add₀ (by norm_num)]
      norm_num

theorem representable_nearest (q : ℚ) : Representable (nearest q) := by
  have hbound := abs_roundEven_le (abs_div_lastPlace_lt q)
  have hexp : -1074 ≤ lastPlace q := le_max_right _ _
  rcases hbound.lt_or_eq with hlt | heq
  · exact ⟨_, _, hlt, hexp, rfl⟩
  · -- the significand has been carried to the next power of two
    have hcarry : ∃ m : ℤ, |m| < 2 ^ 53 ∧ roundEven (q / 2 ^ lastPlace q) = m * 2 := by
      rcases abs_eq (by norm_num) |>.mp heq with h | h
      · exact ⟨2 ^ 52, by norm_num, by rw [h]; norm_num⟩
      · exact ⟨-2 ^ 52, by norm_num, by rw [h]; norm_num⟩
    obtain ⟨m, hm, hround⟩ := hcarry
    refine ⟨m, lastPlace q + 1, hm, by omega, ?_⟩
    rw [nearest, hround, zpow_add_one₀ (by norm_num)]
    push_cast
    ring

theorem nearest_of_representable {q : ℚ} (h : Representable q) : nearest q = q := by
  obtain ⟨m, e, hm, he, rfl⟩ := h
  rcases eq_or_ne m 0 with rfl | hm₀
  · have hzero : roundEven 0 = 0 := mod_cast roundEven_intCast 0
    simp [nearest, hzero]
  · have hplace : lastPlace (m * 2 ^ e) ≤ e := by
      have hpos : 0 < |(m : ℚ) * 2 ^ e| :=
        abs_pos.mpr (mul_ne_zero (by exact_mod_cast hm₀) (zpow_pos_two e).ne')
      have hlt : |(m : ℚ) * 2 ^ e| < (2 : ℕ) ^ (53 + e) := by
        rw [abs_mul, abs_of_pos (zpow_pos_two e), Nat.cast_ofNat, zpow_add₀ (by norm_num)]
        refine mul_lt_mul_of_pos_right ?_ (zpow_pos_two e)
        exact_mod_cast hm
      have hlog := (Int.lt_zpow_iff_log_lt (by norm_num) hpos).mp hlt
      unfold lastPlace
      omega
    obtain ⟨k, hk⟩ := Int.le.dest hplace
    have hquot : (m : ℚ) * 2 ^ e / 2 ^ lastPlace (m * 2 ^ e) = ((m * 2 ^ k : ℤ) : ℚ) := by
      rw [div_eq_iff (zpow_pos_two _).ne']
      push_cast
      rw [mul_assoc, ← zpow_natCast, ← zpow_add₀ (by norm_num), add_comm (k : ℤ), hk]
    unfold nearest
    rw [hquot, roundEven_intCast, ← hquot, div_mul_cancel₀ _ (zpow_pos_two _).ne']

theorem Representable.mul_two_pow {q : ℚ} (h : Representable q) (j : ℕ) :
    Representable (q * 2 ^ j) := by
  obtain ⟨m, e, hm, he, rfl⟩ := h
  refine ⟨m, e + j, hm, by omega, ?_⟩
  rw [zpow_add₀ (by norm_num), zpow_natCast, mul_assoc]

theorem representable_natCast {n : ℕ} (h : n < 2 ^ 53) : Representable n :=
  ⟨n, 0, by simpa using mod_cast h, by norm_num, by simp⟩

end PierGateway.Binary64
