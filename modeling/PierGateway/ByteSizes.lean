import PierGateway.Quotas

/-!
# Sizes that are exact or refused

Which texts `parseByteSize` reads as the number of bytes that they denote. The text
denotes a rational times a power of two. The product with the unit is exact, so two
things can go wrong: a special value or a product past `int64` is converted all the
same, and the literal is rounded before its fraction is cut off.
-/
namespace PierGateway.Settings
open GoStrings Binary64

/-- The text is a finite number `v` of units of `u` bytes. -/
def Denotes (s : Str) (v : ℚ) (u : ℕ) : Prop :=
  quotaUnits.lookup (sizeParts s).2 = some u ∧ readLiteral (sizeParts s).1 = some (.finite v)

/-- A size that is accepted is the whole part of what the text denotes, and fits. -/
def ExactOrRejected (p : Platform) (s : Str) : Prop :=
  ∀ n, parseByteSize p s = .ok n →
    ∃ v u, Denotes s v u ∧ 0 ≤ v ∧ v * u ≤ maxInt64 ∧ n = ⌊v * u⌋ ∧ 0 ≤ n ∧ n ≤ maxInt64

/-- No multiple of a byte lies between a number of units and its rounding. -/
def SameBytes (v : ℚ) (u : ℕ) : Prop := ∀ k : ℤ, (k : ℚ) ≤ v * u ↔ (k : ℚ) ≤ nearest v * u

theorem sameBytes_iff {v : ℚ} {u : ℕ} : SameBytes v u ↔ ⌊nearest v * u⌋ = ⌊v * u⌋ := by
  unfold SameBytes
  constructor
  · intro h
    exact le_antisymm (Int.le_floor.mpr ((h _).mpr (Int.floor_le _)))
      (Int.le_floor.mpr ((h _).mp (Int.floor_le _)))
  · intro h k
    rw [← Int.le_floor, ← Int.le_floor, h]

/-! ### The arithmetic -/

theorem quotaUnits_pow {unit : Str} {u : ℕ} (h : quotaUnits.lookup unit = some u) :
    ∃ j, u = 2 ^ j := by
  have hall : ∀ e ∈ quotaUnits, e.2 ∈ [2 ^ 0, 2 ^ 10, 2 ^ 20, 2 ^ 30, 2 ^ 40] := by decide
  obtain ⟨l₁, l₂, hl, -⟩ := List.lookup_eq_some_iff.mp h
  have hu := hall (unit, u) (by rw [hl]; simp)
  simp only [List.mem_cons, List.not_mem_nil, or_false] at hu
  rcases hu with rfl | rfl | rfl | rfl | rfl
  · exact ⟨0, rfl⟩
  · exact ⟨10, rfl⟩
  · exact ⟨20, rfl⟩
  · exact ⟨30, rfl⟩
  · exact ⟨40, rfl⟩

theorem toInt64_of_le (p : Platform) {q : ℚ} (hq : 0 ≤ q) (hle : ⌊q⌋ ≤ maxInt64) :
    toInt64 p (.finite q) = ⌊q⌋ := by
  have hfloor := Int.floor_nonneg.mpr hq
  have hlow : -2 ^ 63 ≤ ⌊q⌋ := le_trans (by norm_num) hfloor
  have htruncate : truncate q = ⌊q⌋ := if_pos hq
  rw [toInt64, htruncate, if_pos ⟨hlow, hle⟩]

theorem toInt64_of_lt (p : Platform) {q : ℚ} (hq : 0 ≤ q) (hlt : maxInt64 < ⌊q⌋) :
    toInt64 p (.finite q) = p.outOfRange (.finite q) := by
  have htruncate : truncate q = ⌊q⌋ := if_pos hq
  rw [toInt64, htruncate, if_neg fun h => absurd h.2 (not_le.mpr hlt)]

/-- The product of a rounded number with a unit is not rounded again: it is exact, or past the
format and so past `int64`. -/
theorem mulNat_nearest {v : ℚ} {u : ℕ} (hu : ∃ j, u = 2 ^ j) :
    (Float64.finite (nearest v)).mulNat u = .finite (nearest v * u) ∨
      overflowBound ≤ |nearest v * u| ∧
        ∃ negative, (Float64.finite (nearest v)).mulNat u = .infinite negative := by
  obtain ⟨j, rfl⟩ := hu
  have hexact : nearest (nearest v * (2 ^ j : ℕ)) = nearest v * (2 ^ j : ℕ) := by
    push_cast
    exact nearest_of_representable ((representable_nearest v).mul_two_pow j)
  have hmul : (Float64.finite (nearest v)).mulNat (2 ^ j) = ofRat (nearest v * (2 ^ j : ℕ)) := rfl
  rw [hmul, ofRat, hexact]
  split_ifs with hover
  · exact .inr ⟨hover, _, rfl⟩
  · exact .inl rfl

/-- A number of units that is not negative comes out as its whole part where that fits, and as
what the implementation makes of it elsewhere. -/
theorem toInt64_mulNat {v : ℚ} {u : ℕ} (hu : ∃ j, u = 2 ^ j) (hv : 0 ≤ nearest v) :
    (∀ p, toInt64 p ((Float64.finite (nearest v)).mulNat u) = ⌊nearest v * u⌋) ∧
        ⌊nearest v * u⌋ ≤ maxInt64 ∨
      maxInt64 < ⌊nearest v * u⌋ ∧
        ∃ x, ∀ p, toInt64 p ((Float64.finite (nearest v)).mulNat u) = p.outOfRange x := by
  have hnonneg : 0 ≤ nearest v * u := mul_nonneg hv (Nat.cast_nonneg u)
  rcases mulNat_nearest (v := v) hu with heq | ⟨hover, negative, heq⟩
  · rw [heq]
    rcases le_or_gt ⌊nearest v * u⌋ maxInt64 with hle | hlt
    · exact .inl ⟨fun p => toInt64_of_le p hnonneg hle, hle⟩
    · exact .inr ⟨hlt, _, fun p => toInt64_of_lt p hnonneg hlt⟩
  · refine .inr ⟨?_, .infinite negative, fun p => by rw [heq]; rfl⟩
    rw [abs_of_nonneg hnonneg] at hover
    have hbound : (2 : ℚ) ^ 63 ≤ overflowBound := pow_le_pow_right₀ (by norm_num) (by norm_num)
    have hfloor : 2 ^ 63 ≤ ⌊nearest v * u⌋ :=
      Int.le_floor.mpr (by exact_mod_cast hbound.trans hover)
    unfold maxInt64
    omega

/-! ### Accepted texts -/

theorem Denotes.unique {s : Str} {v v' : ℚ} {u u' : ℕ} (h : Denotes s v u) (h' : Denotes s v' u') :
    v = v' ∧ u = u' :=
  ⟨Literal.finite.inj (Option.some.inj (h.2.symm.trans h'.2)),
    Option.some.inj (h.1.symm.trans h'.1)⟩

theorem parseByteSize_of_denotes (p : Platform) {s : Str} {v : ℚ} {u : ℕ} (h : Denotes s v u) :
    parseByteSize p s =
      if overflowBound ≤ |nearest v| ∨ nearest v < 0 then .error (.invalid s)
      else .ok (toInt64 p ((Float64.finite (nearest v)).mulNat u)) := by
  unfold parseByteSize parseFloat
  rw [h.1, h.2]
  dsimp only
  by_cases hover : overflowBound ≤ |nearest v|
  · simp [hover]
  · simp [hover, Float64.isNegative]

/-- What a text must be for its size to be exact or refused on every implementation: not one of the
special values that are let through, and a number that is refused, or that fits and keeps its
whole bytes when it is rounded. -/
def SafeSize (s : Str) : Prop :=
  ∀ u, quotaUnits.lookup (sizeParts s).2 = some u →
    ∀ x, readLiteral (sizeParts s).1 = some x → x = .infinite true ∨
      ∃ v, x = .finite v ∧ (overflowBound ≤ |nearest v| ∨ nearest v < 0 ∨
        (0 ≤ v ∧ v * u ≤ maxInt64 ∧ SameBytes v u))

/-- A special value that is not negative is never refused, and denotes no size. -/
theorem not_exact_of_special (p : Platform) {s : Str} {u : ℕ} {x : Literal}
    (hu : quotaUnits.lookup (sizeParts s).2 = some u) (hx : readLiteral (sizeParts s).1 = some x)
    (hspecial : x = .infinite false ∨ x = .nan) : ¬ExactOrRejected p s := by
  intro h
  have haccepted : ∃ n, parseByteSize p s = .ok n := by
    unfold parseByteSize parseFloat
    rw [hu, hx]
    rcases hspecial with rfl | rfl
    · exact ⟨_, rfl⟩
    · exact ⟨_, rfl⟩
  obtain ⟨n, hn⟩ := haccepted
  obtain ⟨v, u', hdenotes, -⟩ := h n hn
  have hfinite := Option.some.inj (hx.symm.trans hdenotes.2)
  rcases hspecial with rfl | rfl
  · cases hfinite
  · cases hfinite

theorem exists_literal_of_ok {p : Platform} {s : Str} {n : ℤ} (h : parseByteSize p s = .ok n) :
    ∃ u x, quotaUnits.lookup (sizeParts s).2 = some u ∧ readLiteral (sizeParts s).1 = some x ∧
      x ≠ .infinite true := by
  unfold parseByteSize at h
  cases hu : quotaUnits.lookup (sizeParts s).2 with
  | none =>
      rw [hu] at h
      cases h
  | some u =>
      cases hx : readLiteral (sizeParts s).1 with
      | none =>
          rw [hu, parseFloat, hx] at h
          cases h
      | some x =>
          refine ⟨u, x, rfl, rfl, ?_⟩
          rintro rfl
          rw [hu, parseFloat, hx] at h
          cases h

/-- An implementation that gives every value out of range the same number. -/
def constantPlatform (n : ℤ) (h : -2 ^ 63 ≤ n ∧ n ≤ maxInt64) : Platform := ⟨fun _ => n, fun _ => h⟩

/-- A finite number of units that is accepted is exact on every implementation if and only if it is
not negative, fits, and keeps its whole bytes. -/
theorem exact_finite_iff {s : Str} {v : ℚ} {u : ℕ} (h : Denotes s v u)
    (hover : ¬overflowBound ≤ |nearest v|) (hneg : ¬nearest v < 0) :
    (∀ p, ExactOrRejected p s) ↔ 0 ≤ v ∧ v * u ≤ maxInt64 ∧ SameBytes v u := by
  have hok : ∀ p, parseByteSize p s = .ok (toInt64 p ((Float64.finite (nearest v)).mulNat u)) := by
    intro p
    rw [parseByteSize_of_denotes p h, if_neg (by simp [hover, hneg])]
  have hlaw : ∀ p, ExactOrRejected p s ↔ 0 ≤ v ∧ v * u ≤ maxInt64 ∧
      toInt64 p ((Float64.finite (nearest v)).mulNat u) = ⌊v * u⌋ := by
    intro p
    constructor
    · intro hexact
      obtain ⟨v', u', hdenotes, hv, hle, hn, -⟩ := hexact _ (hok p)
      obtain ⟨rfl, rfl⟩ := h.unique hdenotes
      exact ⟨hv, hle, hn⟩
    · rintro ⟨hv, hle, hn⟩ n hn'
      obtain rfl := Except.ok.inj ((hok p).symm.trans hn')
      have hfloor : 0 ≤ ⌊v * u⌋ := Int.floor_nonneg.mpr (mul_nonneg hv (Nat.cast_nonneg u))
      have hmax : ⌊v * u⌋ ≤ maxInt64 := Int.cast_le.mp ((Int.floor_le (v * u)).trans hle)
      exact ⟨v, u, h, hv, hle, hn, hn ▸ hfloor, hn ▸ hmax⟩
  rcases toInt64_mulNat (quotaUnits_pow h.1) (not_lt.mp hneg) with ⟨hfloor, -⟩ | ⟨hlt, x, hx⟩
  · rw [sameBytes_iff]
    constructor
    · intro hexact
      obtain ⟨hv, hle, hn⟩ := (hlaw (constantPlatform 0 (by decide))).mp (hexact _)
      exact ⟨hv, hle, (hfloor _).symm.trans hn⟩
    · rintro ⟨hv, hle, hsame⟩ p
      exact (hlaw p).mpr ⟨hv, hle, (hfloor p).trans hsame⟩
  · -- past the range two implementations differ, and the rounding has gained a byte
    refine iff_of_false (fun hexact => ?_) fun hsafe => ?_
    · obtain ⟨hv, -, hn⟩ := (hlaw (constantPlatform (-1) (by decide))).mp (hexact _)
      have hfloor : 0 ≤ ⌊v * u⌋ := Int.floor_nonneg.mpr (mul_nonneg hv (Nat.cast_nonneg u))
      rw [hx] at hn
      have hminus : (constantPlatform (-1) (by decide)).outOfRange x = -1 := rfl
      omega
    · have hmax : ⌊v * u⌋ ≤ maxInt64 := Int.cast_le.mp ((Int.floor_le (v * u)).trans hsafe.2.1)
      rw [sameBytes_iff.mp hsafe.2.2] at hlt
      omega

/-- Every size is exact or refused, whatever the implementation, for the safe texts and no
others. -/
theorem exactOrRejected_iff (s : Str) : (∀ p, ExactOrRejected p s) ↔ SafeSize s := by
  unfold SafeSize
  constructor
  · intro h u hu x hx
    cases x with
    | infinite negative =>
        cases negative with
        | true => exact .inl rfl
        | false =>
            have p := constantPlatform 0 (by decide)
            exact absurd (h p) (not_exact_of_special p hu hx (.inl rfl))
    | nan =>
        have p := constantPlatform 0 (by decide)
        exact absurd (h p) (not_exact_of_special p hu hx (.inr rfl))
    | finite v =>
        refine .inr ⟨v, rfl, ?_⟩
        by_cases hover : overflowBound ≤ |nearest v|
        · exact .inl hover
        · by_cases hneg : nearest v < 0
          · exact .inr (.inl hneg)
          · exact .inr (.inr ((exact_finite_iff ⟨hu, hx⟩ hover hneg).mp h))
  · intro h p n hn
    obtain ⟨u, x, hu, hx, hne⟩ := exists_literal_of_ok hn
    obtain ⟨v, rfl, hv⟩ := (h u hu x hx).resolve_left hne
    have hdenotes : Denotes s v u := ⟨hu, hx⟩
    by_cases hrefused : overflowBound ≤ |nearest v| ∨ nearest v < 0
    · rw [parseByteSize_of_denotes p hdenotes, if_pos hrefused] at hn
      cases hn
    · obtain ⟨hover, hneg⟩ := not_or.mp hrefused
      have hsafe := (hv.resolve_left hover).resolve_left hneg
      exact (exact_finite_iff hdenotes hover hneg).mpr hsafe p n hn

/-- The infinite literal is accepted, and its size is what the implementation makes of it. -/
theorem inf_not_exact :
    ¬ExactOrRejected (constantPlatform (-2 ^ 63) (by decide)) (str "inf") := by
  have hparts : sizeParts (str "inf") = (str "INF", []) := by decide
  refine not_exact_of_special (u := 1) (x := .infinite false) _ ?_ ?_ (.inl rfl)
  · rw [hparts]
    rfl
  · rw [hparts]
    decide

theorem parseByteSize_natCast (p : Platform) {s : Str} {n u : ℕ} (h : Denotes s n u)
    (hn : n < 2 ^ 53) (hfits : (n * u : ℤ) ≤ maxInt64) : parseByteSize p s = .ok (n * u) := by
  have hexact : nearest n = n := nearest_of_representable (representable_natCast hn)
  have hsmall : (n : ℚ) < overflowBound := by
    have hpow : (2 : ℚ) ^ 53 ≤ overflowBound := pow_le_pow_right₀ (by norm_num) (by norm_num)
    have hlt : (n : ℚ) < 2 ^ 53 := by exact_mod_cast hn
    exact hlt.trans_le hpow
  have hnonneg : (0 : ℚ) ≤ n := Nat.cast_nonneg n
  have haccepted : ¬(overflowBound ≤ |nearest (n : ℚ)| ∨ nearest (n : ℚ) < 0) := by
    rw [hexact, abs_of_nonneg hnonneg]
    exact not_or.mpr ⟨not_le.mpr hsmall, not_lt.mpr hnonneg⟩
  have hfloor : ⌊nearest (n : ℚ) * u⌋ = n * u := by
    rw [hexact, ← Nat.cast_mul, Int.floor_natCast]
    push_cast
    rfl
  rw [parseByteSize_of_denotes p h, if_neg haccepted]
  rcases toInt64_mulNat (quotaUnits_pow h.1) (nearest_nonneg hnonneg) with ⟨heq, -⟩ | ⟨hlt, -⟩
  · rw [heq, hfloor]
  · omega

end PierGateway.Settings
