import PierGateway.RuneLaws

/-!
# Encoding runes

What is encoded is decoded again, whatever stands behind it, and what is decoded is a
scalar value. A value below U+0080 has a single byte, and no other encoding holds a byte
below 0x80.
-/
namespace PierGateway.GoUnicode
open GoStrings

theorem encodeRune_eq {v : ℕ} (h : v.isValidChar) : encodeRune v =
    if v ≤ 0x7F then [UInt8.ofNat v]
    else if v ≤ 0x7FF then [UInt8.ofNat (v / 64 % 32 + 0xC0), UInt8.ofNat (v % 64 + 0x80)]
    else if v ≤ 0xFFFF then [UInt8.ofNat (v / 4096 % 16 + 0xE0), UInt8.ofNat (v / 64 % 64 + 0x80),
      UInt8.ofNat (v % 64 + 0x80)]
    else [UInt8.ofNat (v / 262144 % 8 + 0xF0), UInt8.ofNat (v / 4096 % 64 + 0x80),
      UInt8.ofNat (v / 64 % 64 + 0x80), UInt8.ofNat (v % 64 + 0x80)] := by
  have hval : (Char.ofNat v).val.toNat = v := by
    rw [Char.ofNat, dif_pos h]
    rfl
  unfold encodeRune String.utf8EncodeChar
  rw [hval]

theorem encodeRune_ascii {c : UInt8} (hc : c < 0x80) : encodeRune c.toNat = [c] := by
  have hlow : c.toNat < 0x80 := UInt8.lt_iff_toNat_lt.mp hc
  rw [encodeRune_eq (.inl (by omega)), if_pos (by omega), UInt8.ofNat_toNat]

theorem between_iff {lo hi b : UInt8} :
    (lo ≤ b && b ≤ hi) = true ↔ lo.toNat ≤ b.toNat ∧ b.toNat ≤ hi.toNat := by
  rw [Bool.and_eq_true, decide_eq_true_iff, decide_eq_true_iff]
  rfl

theorem isCont_iff {b : UInt8} : isCont b = true ↔ 0x80 ≤ b.toNat ∧ b.toNat ≤ 0xBF := between_iff

theorem secondOk_iff {b₀ b₁ : UInt8} : secondOk b₀ b₁ = true ↔
    0x80 ≤ b₁.toNat ∧ b₁.toNat ≤ 0xBF ∧ (b₀.toNat = 0xE0 → 0xA0 ≤ b₁.toNat) ∧
      (b₀.toNat = 0xED → b₁.toNat ≤ 0x9F) ∧ (b₀.toNat = 0xF0 → 0x90 ≤ b₁.toNat) ∧
      (b₀.toNat = 0xF4 → b₁.toNat ≤ 0x8F) := by
  have hnum : ∀ n : UInt8, b₀ = n ↔ b₀.toNat = n.toNat := fun n => UInt8.toNat_inj.symm
  unfold secondOk isCont
  simp only [hnum]
  split_ifs <;> rw [between_iff] <;> simp_all <;> omega

/-! ### Sequences by their length -/

section
variable {b₀ b₁ b₂ b₃ : UInt8}

theorem sequence_two (h₀ : 0xC2 ≤ b₀.toNat ∧ b₀.toNat ≤ 0xDF) (h₁ : isCont b₁ = true) (s : Str) :
    sequence b₀ (b₁ :: s) =
      some ⟨(b₀.toNat - 0xC0) * 64 + (b₁.toNat - 0x80), [b₀, b₁]⟩ := by
  have hfirst : (0xC2 ≤ b₀ && b₀ ≤ 0xDF) = true := between_iff.mpr h₀
  simp only [sequence, hfirst, h₁, if_true]

theorem sequence_three (h₀ : 0xE0 ≤ b₀.toNat ∧ b₀.toNat ≤ 0xEF) (h₁ : secondOk b₀ b₁ = true)
    (h₂ : isCont b₂ = true) (s : Str) :
    sequence b₀ (b₁ :: b₂ :: s) =
      some ⟨((b₀.toNat - 0xE0) * 64 + (b₁.toNat - 0x80)) * 64 + (b₂.toNat - 0x80),
        [b₀, b₁, b₂]⟩ := by
  have hfirst : (0xE0 ≤ b₀ && b₀ ≤ 0xEF) = true := between_iff.mpr h₀
  have htwo : ¬(0xC2 ≤ b₀ && b₀ ≤ 0xDF) = true := by
    rw [between_iff]
    change ¬(0xC2 ≤ b₀.toNat ∧ b₀.toNat ≤ 0xDF)
    omega
  simp only [sequence, htwo, hfirst, h₁, h₂, Bool.and_self, Bool.false_eq_true, if_true, if_false]

theorem sequence_four (h₀ : 0xF0 ≤ b₀.toNat ∧ b₀.toNat ≤ 0xF4) (h₁ : secondOk b₀ b₁ = true)
    (h₂ : isCont b₂ = true) (h₃ : isCont b₃ = true) (s : Str) :
    sequence b₀ (b₁ :: b₂ :: b₃ :: s) =
      some ⟨(((b₀.toNat - 0xF0) * 64 + (b₁.toNat - 0x80)) * 64 + (b₂.toNat - 0x80)) * 64
        + (b₃.toNat - 0x80), [b₀, b₁, b₂, b₃]⟩ := by
  have hfirst : (0xF0 ≤ b₀ && b₀ ≤ 0xF4) = true := between_iff.mpr h₀
  have htwo : ¬(0xC2 ≤ b₀ && b₀ ≤ 0xDF) = true := by
    rw [between_iff]
    change ¬(0xC2 ≤ b₀.toNat ∧ b₀.toNat ≤ 0xDF)
    omega
  have hthree : ¬(0xE0 ≤ b₀ && b₀ ≤ 0xEF) = true := by
    rw [between_iff]
    change ¬(0xE0 ≤ b₀.toNat ∧ b₀.toNat ≤ 0xEF)
    omega
  simp only [sequence, htwo, hthree, hfirst, h₁, h₂, h₃, Bool.and_self, Bool.false_eq_true, if_true,
    if_false]

end

/-! ### Decoding undoes encoding -/

theorem decodeRune_long {b : UInt8} (hb : 0x80 ≤ b.toNat) {s : Str} {r : Rune}
    (h : sequence b s = some r) : decodeRune b s = r := by
  have hlow : ¬b < 0x80 := by
    rw [UInt8.lt_iff_toNat_lt]
    exact Nat.not_lt.mpr hb
  rw [decodeRune, if_neg hlow, h]
  rfl

theorem toNat_byte {n : ℕ} (h : n < 256) : (UInt8.ofNat n).toNat = n := by
  rw [UInt8.toNat_ofNat']
  omega

theorem decodeRune_encodeRune {v : ℕ} (h : v.isValidChar) (s : Str) :
    ∃ b t, encodeRune v = b :: t ∧ decodeRune b (t ++ s) = ⟨v, b :: t⟩ := by
  have hrange : v < 0x110000 := by
    rcases h with h | h <;> omega
  rw [encodeRune_eq h]
  split_ifs with h₁ h₂ h₃
  · refine ⟨_, [], rfl, ?_⟩
    have hbyte : (UInt8.ofNat v).toNat = v := toNat_byte (by omega)
    have hlow : UInt8.ofNat v < 0x80 := by
      rw [UInt8.lt_iff_toNat_lt, hbyte]
      exact Nat.lt_succ_of_le h₁
    rw [decodeRune_ascii hlow, hbyte]
  · refine ⟨_, _, rfl, ?_⟩
    have hb₀ := toNat_byte (n := v / 64 % 32 + 0xC0) (by omega)
    have hb₁ := toNat_byte (n := v % 64 + 0x80) (by omega)
    apply decodeRune_long (by omega)
    rw [List.singleton_append, sequence_two (by omega) (isCont_iff.mpr (by omega)), hb₀, hb₁]
    have hvalue : (v / 64 % 32 + 0xC0 - 0xC0) * 64 + (v % 64 + 0x80 - 0x80) = v := by omega
    rw [hvalue]
  · refine ⟨_, _, rfl, ?_⟩
    have hb₀ := toNat_byte (n := v / 4096 % 16 + 0xE0) (by omega)
    have hb₁ := toNat_byte (n := v / 64 % 64 + 0x80) (by omega)
    have hb₂ := toNat_byte (n := v % 64 + 0x80) (by omega)
    apply decodeRune_long (by omega)
    have hsecond : secondOk (UInt8.ofNat (v / 4096 % 16 + 0xE0))
        (UInt8.ofNat (v / 64 % 64 + 0x80)) = true := by
      rw [secondOk_iff, hb₀, hb₁]
      rcases h with h | h <;> omega
    rw [List.cons_append, List.singleton_append,
      sequence_three (by omega) hsecond (isCont_iff.mpr (by omega)), hb₀, hb₁, hb₂]
    have hvalue : ((v / 4096 % 16 + 0xE0 - 0xE0) * 64 + (v / 64 % 64 + 0x80 - 0x80)) * 64 +
        (v % 64 + 0x80 - 0x80) = v := by omega
    rw [hvalue]
  · refine ⟨_, _, rfl, ?_⟩
    have hb₀ := toNat_byte (n := v / 262144 % 8 + 0xF0) (by omega)
    have hb₁ := toNat_byte (n := v / 4096 % 64 + 0x80) (by omega)
    have hb₂ := toNat_byte (n := v / 64 % 64 + 0x80) (by omega)
    have hb₃ := toNat_byte (n := v % 64 + 0x80) (by omega)
    apply decodeRune_long (by omega)
    have hsecond : secondOk (UInt8.ofNat (v / 262144 % 8 + 0xF0))
        (UInt8.ofNat (v / 4096 % 64 + 0x80)) = true := by
      rw [secondOk_iff, hb₀, hb₁]
      omega
    rw [List.cons_append, List.cons_append, List.singleton_append,
      sequence_four (by omega) hsecond (isCont_iff.mpr (by omega)) (isCont_iff.mpr (by omega)),
      hb₀, hb₁, hb₂, hb₃]
    have hvalue : (((v / 262144 % 8 + 0xF0 - 0xF0) * 64 + (v / 4096 % 64 + 0x80 - 0x80)) * 64 +
        (v / 64 % 64 + 0x80 - 0x80)) * 64 + (v % 64 + 0x80 - 0x80) = v := by omega
    rw [hvalue]

theorem runes_encodeRune {v : ℕ} (h : v.isValidChar) (s : Str) :
    runes (encodeRune v ++ s) = ⟨v, encodeRune v⟩ :: runes s := by
  obtain ⟨b, t, hv, hdecode⟩ := decodeRune_encodeRune h s
  rw [hv, List.cons_append, runes_decodeRune, hdecode, List.length_cons, Nat.add_sub_cancel,
    List.drop_left]

theorem runes_encode {l : List ℕ} (h : ∀ v ∈ l, v.isValidChar) :
    runes (l.flatMap encodeRune) = l.map fun v => ⟨v, encodeRune v⟩ := by
  induction l with
  | nil => rfl
  | cons v l ih =>
      rw [List.flatMap_cons, runes_encodeRune (h v List.mem_cons_self),
        ih fun x hx => h x (List.mem_cons_of_mem _ hx), List.map_cons]

/-! ### Decoded values -/

theorem sequence_valid {b : UInt8} {s : Str} {r : Rune} (h : sequence b s = some r) :
    r.value.isValidChar ∧ 0x80 ≤ r.value := by
  unfold sequence at h
  split_ifs at h with h₁ h₂ h₃
  · rw [between_iff] at h₁
    split at h
    · rename_i b₁ u
      split_ifs at h with hc
      rw [isCont_iff] at hc
      rw [← Option.some.inj h]
      simp only [Nat.isValidChar]
      simp at h₁
      omega
    · cases h
  · rw [between_iff] at h₂
    split at h
    · rename_i b₁ b₂ u
      split_ifs at h with hc
      rw [Bool.and_eq_true, secondOk_iff, isCont_iff] at hc
      rw [← Option.some.inj h]
      simp only [Nat.isValidChar]
      simp at h₂
      omega
    · cases h
  · rw [between_iff] at h₃
    split at h
    · rename_i b₁ b₂ b₃ u
      split_ifs at h with hc
      rw [Bool.and_eq_true, Bool.and_eq_true, secondOk_iff, isCont_iff, isCont_iff] at hc
      rw [← Option.some.inj h]
      simp only [Nat.isValidChar]
      simp at h₃
      omega
    · cases h

/-- A decoded value is a scalar value, and below U+0080 it is the byte itself. -/
theorem decodeRune_value (b : UInt8) (s : Str) :
    (decodeRune b s).value.isValidChar ∧
      ((decodeRune b s).value < 0x80 → (decodeRune b s).value = b.toNat) := by
  unfold decodeRune
  split_ifs with hb
  · rw [UInt8.lt_iff_toNat_lt] at hb
    have hlow : b.toNat < 0x80 := hb
    have hvalid : b.toNat.isValidChar := Or.inl (by omega)
    exact ⟨hvalid, fun _ => rfl⟩
  · cases hs : sequence b s with
    | none =>
        have hvalid : runeError.isValidChar := by decide
        have hhigh : ¬runeError < 0x80 := by decide
        exact ⟨hvalid, fun hlow => absurd hlow hhigh⟩
    | some r =>
        obtain ⟨hvalid, hhigh⟩ := sequence_valid hs
        exact ⟨hvalid, fun hlow => absurd hlow (by simpa using hhigh)⟩

/-! ### Encoding undoes decoding -/

theorem ofNat_eq {n : ℕ} {b : UInt8} (h : n = b.toNat) : UInt8.ofNat n = b := by
  rw [h, UInt8.ofNat_toNat]

theorem encodeRune_sequence {b : UInt8} {s : Str} {r : Rune} (h : sequence b s = some r) :
    encodeRune r.value = r.bytes := by
  rw [encodeRune_eq (sequence_valid h).1]
  unfold sequence at h
  split_ifs at h with h₁ h₂ h₃
  · rw [between_iff] at h₁
    change 0xC2 ≤ b.toNat ∧ b.toNat ≤ 0xDF at h₁
    split at h
    · rename_i b₁ u
      split_ifs at h with hc
      rw [isCont_iff] at hc
      rw [← Option.some.inj h]
      dsimp only
      rw [if_neg (by omega), if_pos (by omega), ofNat_eq (b := b) (by omega),
        ofNat_eq (b := b₁) (by omega)]
    · cases h
  · rw [between_iff] at h₂
    change 0xE0 ≤ b.toNat ∧ b.toNat ≤ 0xEF at h₂
    split at h
    · rename_i b₁ b₂ u
      split_ifs at h with hc
      rw [Bool.and_eq_true, secondOk_iff, isCont_iff] at hc
      rw [← Option.some.inj h]
      dsimp only
      rw [if_neg (by omega), if_neg (by omega), if_pos (by omega), ofNat_eq (b := b) (by omega),
        ofNat_eq (b := b₁) (by omega), ofNat_eq (b := b₂) (by omega)]
    · cases h
  · rw [between_iff] at h₃
    change 0xF0 ≤ b.toNat ∧ b.toNat ≤ 0xF4 at h₃
    split at h
    · rename_i b₁ b₂ b₃ u
      split_ifs at h with hc
      rw [Bool.and_eq_true, Bool.and_eq_true, secondOk_iff, isCont_iff, isCont_iff] at hc
      rw [← Option.some.inj h]
      dsimp only
      rw [if_neg (by omega), if_neg (by omega), if_neg (by omega), ofNat_eq (b := b) (by omega),
        ofNat_eq (b := b₁) (by omega), ofNat_eq (b := b₂) (by omega), ofNat_eq (b := b₃) (by omega)]
    · cases h

/-- A decoded rune: an ASCII byte, a byte that is no UTF-8, or a longer sequence. -/
inductive Rune.Decoded (r : Rune) : Prop
  | ascii {c : UInt8} (hc : c < 0x80) (h : r = ⟨c.toNat, [c]⟩)
  | invalid {c : UInt8} (hc : 0x80 ≤ c) (h : r = ⟨runeError, [c]⟩)
  | long (hbytes : encodeRune r.value = r.bytes) (hlen : 1 < r.bytes.length)
      (hhigh : ∀ c ∈ r.bytes, 0x80 ≤ c) (hvalid : r.value.isValidChar)

theorem decodeRune_decoded (b : UInt8) (s : Str) : (decodeRune b s).Decoded := by
  by_cases hb : b < 0x80
  · exact .ascii hb (decodeRune_ascii hb s)
  · have hhigh : 0x80 ≤ b := UInt8.not_lt.mp hb
    unfold decodeRune
    rw [if_neg hb]
    cases hs : sequence b s with
    | none => exact .invalid hhigh rfl
    | some r =>
        obtain ⟨t, ht, -, hge⟩ := sequence_bytes hs
        have hwidth := sequence_length hs
        have hlong : 1 < width b := by
          unfold width
          split_ifs <;> omega
        rw [Option.getD_some]
        refine .long (encodeRune_sequence hs) (by omega) ?_ (sequence_valid hs).1
        rw [ht]
        intro c hc
        rcases List.mem_cons.mp hc with rfl | hmem
        · exact hhigh
        · exact hge c hmem

theorem decoded_of_mem_runes {s : Str} {r : Rune} (h : r ∈ runes s) : r.Decoded := by
  induction hlen : s.length using Nat.strong_induction_on generalizing s with
  | _ n ih =>
      cases s with
      | nil => cases h
      | cons b s =>
          obtain ⟨t, u, rfl, -, -, hruns⟩ := runes_cases b s
          rw [hruns] at h
          rcases List.mem_cons.mp h with rfl | hmem
          · exact decodeRune_decoded b (t ++ u)
          · refine ih u.length ?_ hmem rfl
            simp only [List.length_cons, List.length_append] at hlen
            omega

theorem Rune.Decoded.valid {r : Rune} (h : r.Decoded) : r.value.isValidChar := by
  cases h with
  | @ascii c hc h =>
      rw [h]
      rw [UInt8.lt_iff_toNat_lt] at hc
      change c.toNat < 0x80 at hc
      exact .inl (by dsimp only; omega)
  | invalid hc h =>
      have hvalid : runeError.isValidChar := by decide
      rw [h]
      exact hvalid
  | long _ _ _ hvalid => exact hvalid

end PierGateway.GoUnicode
