import PierGateway.GoStrings

/-!
# SHA-256 and unpadded base64

The digest of `crypto/sha256` and the URL-safe base64 alphabet without padding, which
the login flow needs for its code challenge.
-/
namespace PierGateway.Digest
open GoStrings

def rotr (x : UInt32) (n : UInt32) : UInt32 := (x >>> n) ||| (x <<< (32 - n))

def roundConstants : List UInt32 :=
  [0x428A2F98, 0x71374491, 0xB5C0FBCF, 0xE9B5DBA5, 0x3956C25B, 0x59F111F1,
    0x923F82A4, 0xAB1C5ED5, 0xD807AA98, 0x12835B01, 0x243185BE, 0x550C7DC3,
    0x72BE5D74, 0x80DEB1FE, 0x9BDC06A7, 0xC19BF174, 0xE49B69C1, 0xEFBE4786,
    0x0FC19DC6, 0x240CA1CC, 0x2DE92C6F, 0x4A7484AA, 0x5CB0A9DC, 0x76F988DA,
    0x983E5152, 0xA831C66D, 0xB00327C8, 0xBF597FC7, 0xC6E00BF3, 0xD5A79147,
    0x06CA6351, 0x14292967, 0x27B70A85, 0x2E1B2138, 0x4D2C6DFC, 0x53380D13,
    0x650A7354, 0x766A0ABB, 0x81C2C92E, 0x92722C85, 0xA2BFE8A1, 0xA81A664B,
    0xC24B8B70, 0xC76C51A3, 0xD192E819, 0xD6990624, 0xF40E3585, 0x106AA070,
    0x19A4C116, 0x1E376C08, 0x2748774C, 0x34B0BCB5, 0x391C0CB3, 0x4ED8AA4A,
    0x5B9CCA4F, 0x682E6FF3, 0x748F82EE, 0x78A5636F, 0x84C87814, 0x8CC70208,
    0x90BEFFFA, 0xA4506CEB, 0xBEF9A3F7, 0xC67178F2]

def initialHash : List UInt32 :=
  [0x6A09E667, 0xBB67AE85, 0x3C6EF372, 0xA54FF53A,
    0x510E527F, 0x9B05688C, 0x1F83D9AB, 0x5BE0CD19]

def word (a b c d : UInt8) : UInt32 :=
  (a.toUInt32 <<< 24) ||| (b.toUInt32 <<< 16) ||| (c.toUInt32 <<< 8) ||| d.toUInt32

/-- Big-endian words; padding makes the length a multiple of four. -/
def words : Str → List UInt32
  | a :: b :: c :: d :: s => word a b c d :: words s
  | _ => []

def bigEndian (width n : ℕ) : Str :=
  (List.range width).map fun i => UInt8.ofNat (n / 256 ^ (width - 1 - i))

def padded (s : Str) : Str :=
  s ++ [0x80] ++ List.replicate ((119 - s.length % 64) % 64) 0 ++ bigEndian 8 (8 * s.length)

/-- One word of the message schedule after the words so far, the latest first. -/
def scheduleStep (w : List UInt32) : List UInt32 :=
  let at' := fun i => w.getD i 0
  let s0 := rotr (at' 14) 7 ^^^ rotr (at' 14) 18 ^^^ (at' 14 >>> 3)
  let s1 := rotr (at' 1) 17 ^^^ rotr (at' 1) 19 ^^^ (at' 1 >>> 10)
  (at' 15 + s0 + at' 6 + s1) :: w

def schedule (block : List UInt32) : List UInt32 := (scheduleStep^[48] block.reverse).reverse

def round (h : List UInt32) (kw : UInt32 × UInt32) : List UInt32 :=
  match h with
  | [a, b, c, d, e, f, g, hh] =>
      let s1 := rotr e 6 ^^^ rotr e 11 ^^^ rotr e 25
      let ch := (e &&& f) ^^^ (~~~e &&& g)
      let t1 := hh + s1 + ch + kw.1 + kw.2
      let s0 := rotr a 2 ^^^ rotr a 13 ^^^ rotr a 22
      let maj := (a &&& b) ^^^ (a &&& c) ^^^ (b &&& c)
      [t1 + (s0 + maj), a, b, c, d + t1, e, f, g]
  | _ => h

def compress (h block : List UInt32) : List UInt32 :=
  List.zipWith (· + ·) h ((roundConstants.zip (schedule block)).foldl round h)

/-- Absorb sixteen words at a time. -/
def absorb : ℕ → List UInt32 → List UInt32 → List UInt32
  | 0, h, _ => h
  | blocks + 1, h, ws => absorb blocks (compress h (ws.take 16)) (ws.drop 16)

/-- `sha256.Sum256`. -/
def sum256 (s : Str) : Str :=
  let ws := words (padded s)
  (absorb (ws.length / 16) initialHash ws).flatMap fun w => bigEndian 4 w.toNat

def base64Digit (n : ℕ) : UInt8 :=
  (str "ABCDEFGHIJKLMNOPQRSTUVWXYZabcdefghijklmnopqrstuvwxyz0123456789-_").getD n 0

/-- No digit occurs twice in the alphabet. -/
theorem base64Digit_inj {m n : ℕ} (hm : m < 64) (hn : n < 64) (h : base64Digit m = base64Digit n) :
    m = n := by
  have hnodup : (List.range 64).map base64Digit |>.Nodup := by decide +kernel
  exact List.inj_on_of_nodup_map hnodup (List.mem_range.mpr hm) (List.mem_range.mpr hn) h

/-- `base64.RawURLEncoding.EncodeToString`. -/
def rawURLEncode : Str → Str
  | [] => []
  | [a] => [base64Digit (a.toNat / 4), base64Digit (a.toNat % 4 * 16)]
  | [a, b] =>
      [base64Digit (a.toNat / 4), base64Digit (a.toNat % 4 * 16 + b.toNat / 16),
        base64Digit (b.toNat % 16 * 4)]
  | a :: b :: c :: s =>
      [base64Digit (a.toNat / 4), base64Digit (a.toNat % 4 * 16 + b.toNat / 16),
        base64Digit (b.toNat % 16 * 4 + c.toNat / 64), base64Digit (c.toNat % 64)] ++ rawURLEncode s

example : rawURLEncode (sum256 (str "dBjftJeZ4CVP-mB92K27uhbUJU1p1r_wW1gFWFOEjXk")) =
    str "E9Melhoa2OwvFrEMTJguCHaoeK1t8URWbuGJSstw-cM" := by
  decide +kernel

/-- Digits of three bytes are those of no others. -/
theorem base64Digits_inj {a b c a' b' c' : UInt8}
    (h₀ : base64Digit (a.toNat / 4) = base64Digit (a'.toNat / 4))
    (h₁ : base64Digit (a.toNat % 4 * 16 + b.toNat / 16) =
      base64Digit (a'.toNat % 4 * 16 + b'.toNat / 16))
    (h₂ : base64Digit (b.toNat % 16 * 4 + c.toNat / 64) =
      base64Digit (b'.toNat % 16 * 4 + c'.toNat / 64))
    (h₃ : base64Digit (c.toNat % 64) = base64Digit (c'.toNat % 64)) : a = a' ∧ b = b' ∧ c = c' := by
  have ha := a.toNat_lt
  have hb := b.toNat_lt
  have hc := c.toNat_lt
  have ha' := a'.toNat_lt
  have hb' := b'.toNat_lt
  have hc' := c'.toNat_lt
  have e₀ := base64Digit_inj (by omega) (by omega) h₀
  have e₁ := base64Digit_inj (by omega) (by omega) h₁
  have e₂ := base64Digit_inj (by omega) (by omega) h₂
  have e₃ := base64Digit_inj (by omega) (by omega) h₃
  refine ⟨UInt8.toNat_inj.mp ?_, UInt8.toNat_inj.mp ?_, UInt8.toNat_inj.mp ?_⟩
  · omega
  · omega
  · omega

theorem rawURLEncode_injective : Function.Injective rawURLEncode := by
  intro s t h
  induction s using rawURLEncode.induct generalizing t with
  | case1 =>
      match t with
      | [] => rfl
      | [_] | [_, _] | _ :: _ :: _ :: _ => simp [rawURLEncode] at h
  | case2 a =>
      match t with
      | [] | [_, _] | _ :: _ :: _ :: _ => simp [rawURLEncode] at h
      | [a'] =>
          simp only [rawURLEncode, List.cons.injEq, and_true] at h
          have hsame : a = a' ∧ (0 : UInt8) = 0 ∧ (0 : UInt8) = 0 :=
            base64Digits_inj h.1 (by simpa using h.2) rfl rfl
          rw [hsame.1]
  | case3 a b =>
      match t with
      | [] | [_] | _ :: _ :: _ :: _ => simp [rawURLEncode] at h
      | [a', b'] =>
          simp only [rawURLEncode, List.cons.injEq, and_true] at h
          have hsame : a = a' ∧ b = b' ∧ (0 : UInt8) = 0 :=
            base64Digits_inj h.1 h.2.1 (by simpa using h.2.2) rfl
          rw [hsame.1, hsame.2.1]
  | case4 a b c s ih =>
      match t with
      | [] | [_] | [_, _] => simp [rawURLEncode] at h
      | a' :: b' :: c' :: t =>
          simp only [rawURLEncode, List.cons_append, List.nil_append, List.cons.injEq] at h
          have hsame := base64Digits_inj h.1 h.2.1 h.2.2.1 h.2.2.2.1
          rw [hsame.1, hsame.2.1, hsame.2.2, ih h.2.2.2.2]

end PierGateway.Digest
