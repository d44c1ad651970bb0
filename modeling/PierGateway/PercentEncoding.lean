import PierGateway.UrlLaws

/-!
# Percent-encoding with a set of bytes that are kept

The encoders of the program differ only in the bytes they leave alone. As long as
the percent sign is not among them, unescaping a path undoes the encoder, also in
front of other text, and nothing but the bytes that are kept, percent signs and
hexadecimal digits comes out.
-/
namespace PierGateway.PercentEncoding
open GoStrings NetUrl UrlLaws

variable (keep : UInt8 → Bool)

def percentEncodeByte (c : UInt8) : Str :=
  if keep c then [c] else [percent, upperHex (c / 16), upperHex (c % 16)]

def percentEncode (s : Str) : Str := s.flatMap (percentEncodeByte keep)

@[simp] theorem percentEncode_nil : percentEncode keep [] = [] := rfl

theorem percentEncode_cons (c : UInt8) (s : Str) :
    percentEncode keep (c :: s) = percentEncodeByte keep c ++ percentEncode keep s := rfl

variable {keep}

theorem unescape_percentEncode_append (hk : keep percent = false) (s t : Str) :
    unescape .path (percentEncode keep s ++ t) = (unescape .path t).map (s ++ ·) := by
  induction s with
  | nil => simp
  | cons c s ih =>
      have hassoc : percentEncode keep (c :: s) ++ t =
          percentEncodeByte keep c ++ (percentEncode keep s ++ t) := by
        rw [percentEncode_cons, List.append_assoc]
      rw [hassoc]
      cases hc : keep c with
      | true =>
          have hp : c ≠ percent := by
            intro he
            rw [he, hk] at hc
            cases hc
          have hbyte : percentEncodeByte keep c = [c] := if_pos hc
          rw [hbyte, List.singleton_append, unescape_cons_self plain_path hp (by simp), ih,
            Option.map_map]
          rfl
      | false =>
          obtain ⟨h₁, h₂, h₃⟩ := unhex_upperHex c
          have hbyte : percentEncodeByte keep c = [percent, upperHex (c / 16), upperHex (c % 16)] :=
            if_neg (by simp [hc])
          rw [hbyte]
          simp only [List.cons_append, List.nil_append]
          rw [unescape_cons_percent plain_path h₁ h₂, h₃, ih, Option.map_map]
          rfl

theorem unescape_percentEncode (hk : keep percent = false) (s : Str) :
    unescape .path (percentEncode keep s) = some s := by
  have h := unescape_percentEncode_append hk s []
  simpa [unescape] using h

theorem percentEncode_injective (hk : keep percent = false) :
    Function.Injective (percentEncode keep) := by
  intro s t h
  have hs := unescape_percentEncode hk s
  rw [h, unescape_percentEncode hk t] at hs
  exact (Option.some.inj hs).symm

/-- What holds of the bytes that are kept, of percent signs and of digits holds of the output. -/
theorem forall_percentEncode {P : UInt8 → Prop} (hkeep : ∀ c, keep c = true → P c)
    (hpercent : P percent) (hhex : ∀ n, P (upperHex (n / 16)) ∧ P (upperHex (n % 16))) {s : Str}
    {c : UInt8} (hc : c ∈ percentEncode keep s) : P c := by
  obtain ⟨d, -, hd⟩ := List.mem_flatMap.mp hc
  unfold percentEncodeByte at hd
  split_ifs at hd with hk
  · rw [List.mem_singleton.mp hd]
    exact hkeep d hk
  · simp only [List.mem_cons, List.not_mem_nil, or_false] at hd
    rcases hd with rfl | rfl | rfl
    · exact hpercent
    · exact (hhex d).1
    · exact (hhex d).2

end PierGateway.PercentEncoding
