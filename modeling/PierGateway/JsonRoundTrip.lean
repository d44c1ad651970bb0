import PierGateway.JsonReader
import PierGateway.RuneEncoding

/-!
# Reading what was written

What the encoder writes is read back, but for what the text cannot carry: a byte that is not
UTF-8 comes back as U+FFFD, and the reader has the fields of an object in its own order, the
last one in front. The text of a value is read in two steps, as the reader does: the parts of a
string by the bytes that they stand for, and a value by the tokens that it is cut into.
-/
namespace PierGateway.Json
open GoStrings GoUnicode NetUrl

/-- A string with U+FFFD in place of the bytes that are not UTF-8. -/
def legible (s : Str) : Str := (runes s).flatMap fun r => encodeRune r.value

theorem valid_of_mem_values {s : Str} {v : ℕ} (hv : v ∈ (runes s).map Rune.value) :
    v.isValidChar := by
  obtain ⟨r, hr, rfl⟩ := List.mem_map.mp hv
  exact (decoded_of_mem_runes hr).valid

theorem legible_eq (s : Str) : legible s = ((runes s).map Rune.value).flatMap encodeRune := by
  rw [legible, List.flatMap_map]

theorem legible_idem (s : Str) : legible (legible s) = legible s := by
  conv_lhs => rw [legible, legible_eq s, runes_encode fun _ => valid_of_mem_values]
  rw [List.flatMap_map, legible_eq]

theorem legible_ascii {s : Str} (h : ∀ c ∈ s, c < 0x80) : legible s = s := by
  induction s with
  | nil => rfl
  | cons c s ih =>
      have hc := h c List.mem_cons_self
      have hrest : legible s = s := ih fun b hb => h b (List.mem_cons_of_mem _ hb)
      unfold legible at hrest ⊢
      rw [runes_cons hc, List.flatMap_cons, encodeRune_ascii hc, hrest, List.singleton_append]

/-! ### Strings -/

theorem scanAll_cons (m : Scanning) (c : UInt8) (s : Str) :
    scanAll m (c :: s) = (scan m c).bind fun r => (scanAll r.1 s).map (r.2 ++ ·) := rfl

theorem scanAll_text_plain {c : UInt8} (hq : c ≠ 0x22) (hb : c ≠ 0x5C) (seen t : Str) :
    scanAll (.text seen false) (c :: t) = scanAll (.text (c :: seen) false) t := by
  rw [scanAll_cons, scan, if_neg hb, if_neg hq]
  simp

theorem scanAll_text_escape (e : UInt8) (seen t : Str) :
    scanAll (.text seen false) (0x5C :: e :: t) = scanAll (.text (e :: 0x5C :: seen) false) t := by
  rw [scanAll_cons, scan, if_pos rfl, Option.bind_some, scanAll_cons, scan, Option.bind_some]
  simp

/-- A part of a string that stands for these bytes: it ends nothing, and is read by itself. -/
structure Spells (e s : Str) : Prop where
  scans : ∀ seen t, scanAll (.text seen false) (e ++ t) =
    scanAll (.text (e.reverse ++ seen) false) t
  reads : ∃ ps, (∀ t, pieces (e ++ t) = (pieces t).map (ps ++ ·)) ∧
    ∀ qs, pieceBytes (ps ++ qs) = s ++ pieceBytes qs

namespace Spells

theorem nil : Spells [] [] := ⟨fun _ _ => rfl, [], fun t => by simp, fun _ => rfl⟩

theorem append {e e' s s' : Str} (h : Spells e s) (h' : Spells e' s') :
    Spells (e ++ e') (s ++ s') := by
  obtain ⟨ps, hpieces, hbytes⟩ := h.reads
  obtain ⟨ps', hpieces', hbytes'⟩ := h'.reads
  constructor
  · intro seen t
    rw [List.append_assoc, h.scans, h'.scans, List.reverse_append, List.append_assoc]
  · refine ⟨ps ++ ps', fun t => ?_, fun qs => ?_⟩
    · rw [List.append_assoc, hpieces, hpieces', Option.map_map]
      congr 1
      funext l
      simp
    · rw [List.append_assoc, hbytes, hbytes', List.append_assoc]

theorem flatMap {α : Type} {f g : α → Str} {l : List α} (h : ∀ x ∈ l, Spells (f x) (g x)) :
    Spells (l.flatMap f) (l.flatMap g) := by
  induction l with
  | nil => exact nil
  | cons x l ih =>
      rw [List.flatMap_cons, List.flatMap_cons]
      exact (h x List.mem_cons_self).append (ih fun y hy => h y (List.mem_cons_of_mem _ hy))

theorem plain {c : UInt8} (hq : c ≠ 0x22) (hb : c ≠ 0x5C) (hlow : ¬c < 0x20) : Spells [c] [c] := by
  constructor
  · intro seen t
    exact scanAll_text_plain hq hb seen t
  · refine ⟨[.byte c], fun t => ?_, fun qs => rfl⟩
    rw [List.singleton_append, pieces.eq_def]
    dsimp only
    rw [if_pos hb, if_neg hlow]
    rfl

theorem ofPlain {s : Str} (h : ∀ c ∈ s, c ≠ 0x22 ∧ c ≠ 0x5C ∧ ¬c < 0x20) : Spells s s := by
  induction s with
  | nil => exact nil
  | cons c s ih =>
      obtain ⟨hq, hb, hlow⟩ := h c List.mem_cons_self
      exact (plain hq hb hlow).append (ih fun b hb => h b (List.mem_cons_of_mem _ hb))

theorem simple {e b : UInt8} (h : simpleEscape e = some b) : Spells [0x5C, e] [b] := by
  have hu : e ≠ 0x75 := by
    rintro rfl
    cases h
  constructor
  · intro seen t
    exact scanAll_text_escape e seen t
  · refine ⟨[.byte b], fun t => ?_, fun qs => rfl⟩
    rw [List.cons_append, List.singleton_append, pieces.eq_def]
    dsimp only
    rw [if_neg (by simp)]
    split
    · next heq => exact absurd (List.cons.inj heq).1 hu
    · next heq =>
        obtain ⟨rfl, rfl⟩ := List.cons.inj heq
        rw [h, Option.bind_some]
        rfl
    · next heq => cases heq

/-- A unit that is no half of a pair stands for itself, whatever comes behind it. -/
theorem pieceBytes_unit {u : ℕ} (hhigh : highSurrogate u = false) (hlow : lowSurrogate u = false)
    (qs : List Piece) : pieceBytes (.unit u :: qs) = encodeRune u ++ pieceBytes qs := by
  rcases qs with _ | ⟨c | v, qs⟩
  · simp [pieceBytes, hhigh, hlow]
  · simp [pieceBytes, hhigh, hlow]
  · simp [pieceBytes, hhigh, hlow]

theorem unit {a b c d : UInt8} {u : ℕ} (h : hex4 [a, b, c, d] = some u)
    (hhigh : highSurrogate u = false) (hlow : lowSurrogate u = false) :
    Spells (0x5C :: 0x75 :: [a, b, c, d]) (encodeRune u) := by
  have hplain : ∀ x ∈ [a, b, c, d], x ≠ 0x22 ∧ x ≠ 0x5C := by
    intro x hx
    have hall : [a, b, c, d].all isHex = true := by
      unfold hex4 at h
      split_ifs at h with hall
      exact hall
    have hhex := List.all_eq_true.mp hall x hx
    constructor
    · rintro rfl
      cases hhex
    · rintro rfl
      cases hhex
  simp only [List.forall_mem_cons] at hplain
  obtain ⟨ha, hb, hc, hd, -⟩ := hplain
  constructor
  · intro seen t
    rw [List.cons_append, List.cons_append, scanAll_text_escape]
    simp only [List.cons_append, List.nil_append]
    rw [scanAll_text_plain ha.1 ha.2, scanAll_text_plain hb.1 hb.2, scanAll_text_plain hc.1 hc.2,
      scanAll_text_plain hd.1 hd.2]
    rfl
  · refine ⟨[.unit u], fun t => ?_, pieceBytes_unit hhigh hlow⟩
    simp only [List.cons_append, List.nil_append]
    rw [pieces.eq_def]
    dsimp only
    rw [if_neg (by simp)]
    change ((hex4 [a, b, c, d]).bind fun u => (pieces t).map (.unit u :: ·)) = _
    rw [h, Option.bind_some]

end Spells

theorem hex4_ascii {c : UInt8} (hc : c < 0x80) :
    hex4 [0x30, 0x30, lowerHex (c / 16), lowerHex (c % 16)] = some c.toNat := by
  have hall :
      ∀ n : Fin 128, hex4 [0x30, 0x30, lowerHex (UInt8.ofNat n / 16), lowerHex (UInt8.ofNat n % 16)]
      = some n.val := by decide +kernel
  have hlow : c.toNat < 128 := UInt8.lt_iff_toNat_lt.mp hc
  have hcode := hall ⟨c.toNat, hlow⟩
  rwa [UInt8.ofNat_toNat] at hcode

theorem spells_escapeAscii {c : UInt8} (hc : c < 0x80) : Spells (escapeAscii c) [c] := by
  unfold escapeAscii
  split_ifs with hsafe h₁ h₂ h₃ h₄ h₅ h₆
  · simp only [safeByte, Bool.and_eq_true, decide_eq_true_eq] at hsafe
    obtain ⟨⟨hlow, -⟩, hsafe⟩ := hsafe
    refine Spells.plain ?_ ?_ (UInt8.not_lt.mpr hlow)
    · rintro rfl
      exact hsafe (by decide)
    · rintro rfl
      exact hsafe (by decide)
  · simp only [Bool.or_eq_true, decide_eq_true_eq] at h₁
    apply Spells.simple
    rcases h₁ with rfl | rfl
    · decide
    · decide
  · exact h₂ ▸ Spells.simple (by decide)
  · exact h₃ ▸ Spells.simple (by decide)
  · exact h₄ ▸ Spells.simple (by decide)
  · exact h₅ ▸ Spells.simple (by decide)
  · exact h₆ ▸ Spells.simple (by decide)
  · have hlow : c.toNat < 0x80 := UInt8.lt_iff_toNat_lt.mp hc
    have hunit := Spells.unit (hex4_ascii hc)
      (by simp only [highSurrogate, Bool.and_eq_false_iff, decide_eq_false_iff_not]; omega)
      (by simp only [lowSurrogate, Bool.and_eq_false_iff, decide_eq_false_iff_not]; omega)
    rw [encodeRune_ascii hc] at hunit
    exact hunit

/-- What is written for a rune stands for its value. -/
theorem spells_escapeRune {r : Rune} (h : r.Decoded) :
    Spells (escapeRune r) (encodeRune r.value) := by
  have hseparator : Spells (str "\\u2028") (encodeRune 0x2028) :=
    Spells.unit (by decide) (by decide) (by decide)
  have hparagraph : Spells (str "\\u2029") (encodeRune 0x2029) :=
    Spells.unit (by decide) (by decide) (by decide)
  have herror : Spells (str "\\ufffd") (encodeRune runeError) :=
    Spells.unit (by decide) (by decide) (by decide)
  cases h with
  | @ascii c hc h =>
      have hwritten : escapeRune r = escapeAscii c := by
        rw [h]
        exact if_pos hc
      rw [hwritten, h, encodeRune_ascii hc]
      exact spells_escapeAscii hc
  | @invalid c hc h =>
      have hwritten : escapeRune r = str "\\ufffd" := by
        rw [h]
        exact if_neg (UInt8.not_lt.mpr hc)
      rw [hwritten, h]
      exact herror
  | long hbytes hlen hhigh _ =>
      unfold escapeRune
      split
      · next c hone =>
          rw [hone] at hlen
          exact absurd hlen (by simp)
      · split_ifs with h₁ h₂
        · rw [h₁]
          exact hseparator
        · rw [h₂]
          exact hparagraph
        · rw [hbytes]
          apply Spells.ofPlain
          intro c hc
          have hge := hhigh c hc
          refine ⟨?_, ?_, UInt8.not_lt.mpr (UInt8.le_trans (by decide) hge)⟩
          · rintro rfl
            exact absurd hge (by decide)
          · rintro rfl
            exact absurd hge (by decide)

/-- A string that was written is one token, whatever stands behind it. -/
theorem scanAll_quote (s t : Str) :
    scanAll .between (quote s ++ t) =
      (scanAll .between t).map (.scalar (.string (legible s)) :: ·) := by
  have hspells : Spells ((runes s).flatMap escapeRune) (legible s) :=
    Spells.flatMap fun r hr => spells_escapeRune (decoded_of_mem_runes hr)
  obtain ⟨ps, hpieces, hbytes⟩ := hspells.reads
  have hunquote : unquote ((runes s).flatMap escapeRune) = some (legible s) := by
    have hall := hpieces []
    have hsame := hbytes []
    rw [List.append_nil] at hall hsame
    rw [unquote, hall, pieces, Option.map_some, Option.map_some, List.append_nil, hsame, pieceBytes,
      List.append_nil]
    exact congrArg some (legible_idem s)
  have hopen : ∀ u, scanAll .between (0x22 :: u) = scanAll (.text [] false) u := by
    intro u
    rw [scanAll_cons, scan, Option.bind_some]
    simp [scanBetween, blank]
  have hclose : ∀ seen u, scanAll (.text seen false) (0x22 :: u) =
      (unquote seen.reverse).bind fun s => (scanAll .between u).map (.scalar (.string s) :: ·) := by
    intro seen u
    rw [scanAll_cons, scan, if_neg (by decide), if_pos rfl, Option.bind_map]
    rfl
  unfold quote
  rw [List.append_assoc, List.append_assoc, List.singleton_append, hopen, hspells.scans,
    List.singleton_append, hclose, List.append_nil, List.reverse_reverse, hunquote,
      Option.bind_some]

/-! ### Words -/

/-- A byte that goes on with a word. -/
def wordByte (c : UInt8) : Bool := isAlnum c || c ∈ str "+-."

theorem scanAll_word_append {seen w t : Str} {c : UInt8} (hw : ∀ b ∈ w, wordByte b = true)
    (hc : wordByte c = false) : scanAll (.word seen) (w ++ c :: t) =
      (word (seen.reverse ++ w)).bind fun tok => (scanAll .between (c :: t)).map (tok :: ·) := by
  induction w generalizing seen with
  | nil =>
      have hends : ¬(isAlnum c || decide (c ∈ str "+-.")) = true := by
        rw [Bool.not_eq_true]
        exact hc
      rw [List.nil_append, List.append_nil, scanAll_cons, scan, if_neg hends, Option.bind_map]
      congr 1
      funext tok
      rw [scanAll_cons, scan, Option.bind_some, Option.map_map]
      rfl
  | cons b w ih =>
      have hgoes : (isAlnum b || decide (b ∈ str "+-.")) = true := hw b List.mem_cons_self
      rw [List.cons_append, scanAll_cons, scan, if_pos hgoes, Option.bind_some,
        ih fun b' hb' => hw b' (List.mem_cons_of_mem _ hb')]
      simp

/-- A word in front of a byte that ends it is one token. -/
theorem scanAll_of_word {w t : Str} {b c : UInt8} {tok : Token}
    (hb : scanBetween b = (.word [b], []))
    (hw : ∀ x ∈ w, wordByte x = true) (htok : word (b :: w) = some tok) (hc : wordByte c = false) :
    scanAll .between (b :: w ++ c :: t) = (scanAll .between (c :: t)).map (tok :: ·) := by
  rw [List.cons_append, scanAll_cons, scan, Option.bind_some, hb]
  dsimp only
  rw [scanAll_word_append hw hc, List.reverse_singleton, List.singleton_append, htok,
    Option.bind_some, Option.map_map]
  rfl

theorem wordByte_of_isDigit {c : UInt8} (h : isDigit c = true) : wordByte c = true := by
  simp [wordByte, isAlnum, h]

theorem wordBytes_of_dropWhile {s : Str} (h : ∀ c ∈ s.dropWhile isDigit, wordByte c = true) :
    ∀ c ∈ s, wordByte c = true := by
  intro c hc
  rw [← List.takeWhile_append_dropWhile (p := isDigit) (l := s)] at hc
  rcases List.mem_append.mp hc with hdigit | hrest
  · exact wordByte_of_isDigit (List.mem_takeWhile_imp hdigit)
  · exact h c hrest

theorem wordBytes_of_drop {s : Str} {b : UInt8} (hb : wordByte b = true) (hs : s.head? = some b)
    (h : ∀ c ∈ s.drop 1, wordByte c = true) : ∀ c ∈ s, wordByte c = true := by
  obtain ⟨t, rfl⟩ := List.head?_eq_some_iff.mp hs
  intro c hc
  rcases List.mem_cons.mp hc with rfl | hmem
  · exact hb
  · exact h c hmem

theorem wordBytes_of_validExponent {s : Str} (h : validExponent s = true) :
    ∀ c ∈ s, wordByte c = true := by
  have hdigits : ∀ t : Str, t.all isDigit = true → ∀ c ∈ t, wordByte c = true :=
    fun t ht c hc => wordByte_of_isDigit (List.all_eq_true.mp ht c hc)
  cases s with
  | nil => exact fun c hc => absurd hc List.not_mem_nil
  | cons e t =>
      simp only [validExponent, Bool.and_eq_true, Bool.or_eq_true, decide_eq_true_eq] at h
      obtain ⟨⟨he, -⟩, hall⟩ := h
      have hmark : wordByte e = true := by
        rcases he with rfl | rfl
        · decide
        · decide
      refine wordBytes_of_drop hmark rfl ?_
      split_ifs at hall with hsign
      · rcases hsign with hplus | hminus
        · exact wordBytes_of_drop (by decide) hplus (hdigits _ hall)
        · exact wordBytes_of_drop (by decide) hminus (hdigits _ hall)
      · exact hdigits _ hall

/-- The bytes of a number go on with a word, and the first of them begins one. -/
theorem wordBytes_of_validNumber {s : Str} (h : validNumber s = true) :
    (∀ c ∈ s, wordByte c = true) ∧ ∃ b t, s = b :: t ∧ (b = hyphen ∨ isDigit b = true) := by
  simp only [validNumber, Bool.and_eq_true, decide_eq_true_eq] at h
  obtain ⟨⟨hwhole, -⟩, hrest⟩ := h
  have hunsigned : ∀ u : Str, (if (u.dropWhile isDigit).head? = some dot then
      decide (((u.dropWhile isDigit).drop 1).takeWhile isDigit ≠ []) &&
        validExponent (((u.dropWhile isDigit).drop 1).dropWhile isDigit)
      else validExponent (u.dropWhile isDigit)) = true → ∀ c ∈ u, wordByte c = true := by
    intro u hu
    apply wordBytes_of_dropWhile
    split_ifs at hu with hdot
    · rw [Bool.and_eq_true] at hu
      exact wordBytes_of_drop (by decide) hdot
        (wordBytes_of_dropWhile (wordBytes_of_validExponent hu.2))
    · exact wordBytes_of_validExponent hu
  by_cases hsign : s.head? = some hyphen
  · rw [if_pos hsign] at hrest
    obtain ⟨t, rfl⟩ := List.head?_eq_some_iff.mp hsign
    exact ⟨wordBytes_of_drop (by decide) hsign (hunsigned _ hrest), hyphen, t, rfl, .inl rfl⟩
  · rw [if_neg hsign] at hrest hwhole
    refine ⟨hunsigned _ hrest, ?_⟩
    cases s with
    | nil => exact absurd rfl hwhole
    | cons b t =>
        refine ⟨b, t, rfl, .inr ?_⟩
        by_contra hb
        exact hwhole (List.takeWhile_cons_of_neg hb)

theorem scanBetween_number {b : UInt8} (h : b = hyphen ∨ isDigit b = true) :
    scanBetween b = (.word [b], []) := by
  have hall : ∀ n : Fin 256, (UInt8.ofNat n = hyphen ∨ isDigit (UInt8.ofNat n) = true) →
      blank (UInt8.ofNat n) = false ∧ UInt8.ofNat n ≠ 0x22 ∧
        (punctuation (UInt8.ofNat n)).isNone := by
    decide +kernel
  have hbyte := hall ⟨b.toNat, b.toNat_lt⟩
  rw [UInt8.ofNat_toNat] at hbyte
  obtain ⟨hblank, hquote, hnone⟩ := hbyte h
  rw [scanBetween, hblank, if_neg Bool.false_ne_true, if_neg hquote,
    Option.isNone_iff_eq_none.mp hnone]

theorem scanAll_number {text t : Str} {c : UInt8} (h : validNumber text = true)
    (hc : wordByte c = false) : scanAll .between (text ++ c :: t) =
      (scanAll .between (c :: t)).map (.scalar (.number text) :: ·) := by
  obtain ⟨hbytes, b, w, rfl, hb⟩ := wordBytes_of_validNumber h
  have hword : ∀ s, validNumber s = false → b :: w ≠ s := by
    rintro s hs rfl
    rw [h] at hs
    cases hs
  refine scanAll_of_word (scanBetween_number hb)
    (fun x hx => hbytes x (List.mem_cons_of_mem _ hx)) ?_ hc
  rw [word, if_neg (hword _ (by decide)), if_neg (hword _ (by decide)),
    if_neg (hword _ (by decide)), if_pos h]

/-! ### Values -/

/-- What can be written and read again: numbers that are, nested so deep at most. -/
inductive Writable : ℕ → Json → Prop
  | null {n : ℕ} : Writable n .null
  | bool {n : ℕ} (b : Bool) : Writable n (.bool b)
  | number {n : ℕ} {text : Str} (h : validNumber text = true) : Writable n (.number text)
  | string {n : ℕ} (s : Str) : Writable n (.string s)
  | array {n : ℕ} {items : List Json} (h : ∀ v ∈ items, Writable n v) :
      Writable (n + 1) (.array items)
  | object {n : ℕ} {fields : List (Str × Json)} (h : ∀ f ∈ fields, Writable n f.2) :
      Writable (n + 1) (.object fields)

mutual
/-- The value that is read of what was written. -/
def reread : Json → Json
  | .string s => .string (legible s)
  | .array items => .array (rereadItems items)
  | .object fields => .object (rereadFields fields).reverse
  | v => v

def rereadItems : List Json → List Json
  | [] => []
  | v :: vs => reread v :: rereadItems vs

def rereadFields : List (Str × Json) → List (Str × Json)
  | [] => []
  | (k, v) :: fs => (legible k, reread v) :: rereadFields fs
end

/-- A text that is read as one value: it is cut into tokens that put the value wherever one may
stand. -/
structure Means (depth : ℕ) (e : Str) (v : Json) (ts : List Token) : Prop where
  cuts : ∀ {c : UInt8} (t : Str), wordByte c = false →
    scanAll .between (e ++ c :: t) = (scanAll .between (c :: t)).map (ts ++ ·)
  puts : ∀ {stack : List Frame}, stack.length + depth ≤ maxNestingDepth →
    shiftAll (.value, stack) ts = some (.after v, stack)

/-- The tokens of a value can be the first item of an array. -/
theorem shift_itemOrEnd {stack : List Frame} {t : Token} {state : Expecting × List Frame}
    (h : shift (.value, stack) t = some state) : shift (.itemOrEnd, stack) t = some state := by
  cases t with
  | closeArray => cases h
  | scalar | openArray | openObject | closeObject | colon | comma =>
      cases stack with
      | nil => exact h
      | cons frame stack =>
          cases frame with
          | _ => exact h

theorem shiftAll_itemOrEnd {stack stack' : List Frame} {ts : List Token} {v : Json}
    (h : shiftAll (.value, stack) ts = some (.after v, stack')) :
    shiftAll (.itemOrEnd, stack) ts = some (.after v, stack') := by
  cases ts with
  | nil => cases h
  | cons t ts =>
      rw [shiftAll_cons] at h ⊢
      obtain ⟨state, hshift, hrest⟩ := Option.bind_eq_some_iff.mp h
      rw [shift_itemOrEnd hshift, Option.bind_some, hrest]

/-- The first key of an object is read as every other. -/
theorem shiftAll_keyOrEnd {read : List (Str × Json)} {stack stack' : List Frame} {ts : List Token}
    {v : Json} (h : shiftAll (.key, .fields read :: stack) ts = some (.after v, stack')) :
    shiftAll (.keyOrEnd, .fields read :: stack) ts = some (.after v, stack') := by
  cases ts with
  | nil => cases h
  | cons t ts =>
      rw [shiftAll_cons] at h ⊢
      obtain ⟨state, hshift, hrest⟩ := Option.bind_eq_some_iff.mp h
      have hsame : shift (.keyOrEnd, .fields read :: stack) t =
          shift (.key, .fields read :: stack) t := by
        cases t with
        | closeObject => cases hshift
        | scalar | openArray | closeArray | openObject | colon | comma => rfl
      rw [hsame, hshift, Option.bind_some, hrest]

theorem scanAll_punctuation {c : UInt8} (tok : Token) (h : scanBetween c = (.between, [tok]))
    (t : Str) :
    scanAll .between (c :: t) = (scanAll .between t).map (tok :: ·) := by
  rw [scanAll_cons, scan, Option.bind_some, h]
  rfl

namespace Means
variable {n : ℕ}

theorem scalar {e : Str} {v : Json} (h : ∀ {c : UInt8} (t : Str), wordByte c = false →
    scanAll .between (e ++ c :: t) = (scanAll .between (c :: t)).map (.scalar v :: ·)) :
    Means n e v [.scalar v] :=
  ⟨h, fun _ => rfl⟩

theorem string (s : Str) :
    Means n (quote s) (.string (legible s)) [.scalar (.string (legible s))] :=
  scalar fun _ _ => scanAll_quote s _

/-- The value of an item or a field of what is open already. -/
theorem puts_inside {e : Str} {v : Json} {ts : List Token} (h : Means n e v ts) (frame : Frame)
    {stack : List Frame} (hdepth : stack.length + (n + 1) ≤ maxNestingDepth) :
    shiftAll (.value, frame :: stack) ts = some (.after v, frame :: stack) := by
  apply h.puts
  rw [List.length_cons]
  omega

theorem encodeItems_cons_cons (v w : Json) (vs : List Json) :
    encodeItems (v :: w :: vs) = encode v ++ GoStrings.comma :: encodeItems (w :: vs) := by
  rw [encodeItems]
  simp

theorem encodeFields_cons_cons (f g : Str × Json) (fs : List (Str × Json)) :
    encodeFields (f :: g :: fs) =
      quote f.1 ++ GoStrings.colon ::
        (encode f.2 ++ GoStrings.comma :: encodeFields (g :: fs)) := by
  rw [encodeFields]
  · simp
  · simp

/-- The items of an array that are still to be read, and its end. -/
theorem items {vs : List Json} {v : Json}
    (h : ∀ w ∈ v :: vs, ∃ ts, Means n (encode w) (reread w) ts) :
    ∃ ts, (∀ t, scanAll .between (encodeItems (v :: vs) ++ 0x5D :: t) =
        (scanAll .between t).map (ts ++ ·)) ∧
      ∀ (read : List Json) {stack : List Frame}, stack.length + (n + 1) ≤ maxNestingDepth →
        shiftAll (.value, .items read :: stack) ts =
          some (.after (.array (read.reverse ++ rereadItems (v :: vs))), stack) := by
  obtain ⟨ts, hv⟩ := h v List.mem_cons_self
  induction vs generalizing v ts with
  | nil =>
      refine ⟨ts ++ [.closeArray], fun t => ?_, fun read stack hdepth => ?_⟩
      · rw [encodeItems, hv.cuts t (by decide), scanAll_punctuation .closeArray rfl, Option.map_map]
        congr 1
        funext l
        simp
      · rw [shiftAll_append, hv.puts_inside _ hdepth, Option.bind_some]
        simp [shiftAll, shift, endValue, rereadItems]
  | cons w vs ih =>
      obtain ⟨tsw, hw⟩ := h w (by simp)
      obtain ⟨rest, hcuts, hrest⟩ := ih (fun x hx => h x (List.mem_cons_of_mem _ hx)) tsw hw
      refine ⟨ts ++ .comma :: rest, fun t => ?_, fun read stack hdepth => ?_⟩
      · rw [encodeItems_cons_cons, List.append_assoc, List.cons_append, hv.cuts _ (by decide),
          scanAll_punctuation .comma rfl, hcuts, Option.map_map, Option.map_map]
        congr 1
        funext l
        simp
      · rw [shiftAll_append, hv.puts_inside _ hdepth, Option.bind_some, shiftAll_cons]
        simp only [shift, endValue, Option.bind_some]
        rw [hrest (reread v :: read) hdepth]
        simp [rereadItems]

theorem field {e : Str} {v : Json} {ts : List Token} (h : Means n e v ts) (k : Str) :
    (∀ {c : UInt8} (t : Str), wordByte c = false →
      scanAll .between (quote k ++ GoStrings.colon :: (e ++ c :: t)) =
        (scanAll .between (c :: t)).map
        ((.scalar (.string (legible k)) :: .colon :: ts) ++ ·)) ∧
    ∀ (read : List (Str × Json)) {stack : List Frame}, stack.length + (n + 1) ≤ maxNestingDepth →
      shiftAll (.key, .fields read :: stack) (.scalar (.string (legible k)) :: .colon :: ts) =
        some (.after v, .field read (legible k) :: stack) := by
  constructor
  · intro c t hc
    rw [scanAll_quote, scanAll_punctuation .colon rfl, h.cuts t hc, Option.map_map, Option.map_map]
    rfl
  · intro read stack hdepth
    rw [shiftAll_cons]
    simp only [shift, beginKey, Option.bind_some]
    rw [shiftAll_cons]
    simp only [shift, Option.bind_some]
    exact h.puts_inside _ hdepth

/-- The fields of an object that are still to be read, and its end. -/
theorem fields {fs : List (Str × Json)} {f : Str × Json}
    (h : ∀ g ∈ f :: fs, ∃ ts, Means n (encode g.2) (reread g.2) ts) :
    ∃ ts, (∀ t, scanAll .between (encodeFields (f :: fs) ++ 0x7D :: t) =
        (scanAll .between t).map (ts ++ ·)) ∧
      ∀ (read : List (Str × Json)) {stack : List Frame}, stack.length + (n + 1) ≤ maxNestingDepth →
        shiftAll (.key, .fields read :: stack) ts =
          some (.after (.object ((rereadFields (f :: fs)).reverse ++ read)), stack) := by
  obtain ⟨k, v⟩ := f
  obtain ⟨ts, hv⟩ := h (k, v) List.mem_cons_self
  induction fs generalizing k v ts with
  | nil =>
      obtain ⟨hcuts, hputs⟩ := hv.field k
      refine ⟨.scalar (.string (legible k)) :: .colon :: ts ++ [.closeObject], fun t => ?_,
        fun read stack hdepth => ?_⟩
      · rw [encodeFields, List.append_assoc, List.cons_append, hcuts t (by decide),
          scanAll_punctuation .closeObject rfl, Option.map_map]
        congr 1
        funext l
        simp
      · rw [shiftAll_append, hputs read hdepth, Option.bind_some]
        simp [shiftAll, shift, endValue, rereadFields]
  | cons g fs ih =>
      obtain ⟨hcuts, hputs⟩ := hv.field k
      obtain ⟨tsg, hg⟩ := h g (by simp)
      obtain ⟨rest, hcutsRest, hrest⟩ :=
        ih g.1 g.2 (fun x hx => h x (List.mem_cons_of_mem _ hx)) tsg hg
      refine ⟨.scalar (.string (legible k)) :: .colon :: ts ++ .comma :: rest, fun t => ?_,
        fun read stack hdepth => ?_⟩
      · rw [encodeFields_cons_cons, List.append_assoc, List.cons_append, List.append_assoc,
          List.cons_append, hcuts _ (by decide), scanAll_punctuation .comma rfl, hcutsRest,
          Option.map_map, Option.map_map]
        congr 1
        funext l
        simp
      · rw [shiftAll_append, hputs read hdepth, Option.bind_some, shiftAll_cons]
        simp only [shift, endValue, Option.bind_some]
        rw [hrest ((legible k, reread v) :: read) hdepth]
        simp [rereadFields]

theorem enclosed {b : UInt8} {tok : Token} {e : Str} {v : Json} {ts : List Token}
    (hb : scanBetween b = (.between, [tok]))
    (hcuts : ∀ t, scanAll .between (e ++ t) = (scanAll .between t).map (ts ++ ·))
    (hputs : ∀ {stack : List Frame}, stack.length + n ≤ maxNestingDepth →
      shiftAll (.value, stack) (tok :: ts) =
        some (.after v, stack)) : Means n (b :: e) v (tok :: ts) := by
  constructor
  · intro c t _
    rw [List.cons_append, scanAll_punctuation tok hb, hcuts, Option.map_map]
    rfl
  · exact hputs

end Means

theorem encode_array (items : List Json) :
    encode (.array items) = 0x5B :: (encodeItems items ++ [0x5D]) := by
  rw [encode]
  rfl

theorem encode_object (fields : List (Str × Json)) :
    encode (.object fields) = 0x7B :: (encodeFields fields ++ [0x7D]) := by
  rw [encode]
  rfl

/-- The text of what can be written means what is read again. -/
theorem Writable.means {n : ℕ} {v : Json} (h : Writable n v) :
    ∃ ts, Means n (encode v) (reread v) ts := by
  induction h with
  | null =>
      refine ⟨_, Means.scalar fun t hc => ?_⟩
      exact scanAll_of_word (b := 0x6E) (w := str "ull") rfl (by decide +kernel) rfl hc
  | bool b =>
      cases b with
      | false =>
          refine ⟨_, Means.scalar fun t hc => ?_⟩
          exact scanAll_of_word (b := 0x66) (w := str "alse") rfl (by decide +kernel) rfl hc
      | true =>
          refine ⟨_, Means.scalar fun t hc => ?_⟩
          exact scanAll_of_word (b := 0x74) (w := str "rue") rfl (by decide +kernel) rfl hc
  | number h => exact ⟨_, Means.scalar fun _ hc => scanAll_number h hc⟩
  | string s => exact ⟨_, Means.string s⟩
  | @array n items _ ih =>
      rw [encode_array, reread]
      cases items with
      | nil =>
          refine ⟨.openArray :: [.closeArray], Means.enclosed rfl (scanAll_punctuation _ rfl) ?_⟩
          intro stack hdepth
          have hroom : stack.length < maxNestingDepth := by omega
          simp [shiftAll, shift, beginValue, enter, hroom, rereadItems]
      | cons v vs =>
          obtain ⟨ts, hcuts, hputs⟩ := Means.items ih
          refine ⟨.openArray :: ts, Means.enclosed rfl ?_ ?_⟩
          · intro t
            rw [List.append_assoc]
            exact hcuts t
          · intro stack hdepth
            have hroom : stack.length < maxNestingDepth := by omega
            have hitems := shiftAll_itemOrEnd (hputs [] hdepth)
            rw [shiftAll_cons]
            simp only [shift, beginValue, enter, if_pos hroom, Option.bind_some]
            rw [hitems, List.reverse_nil, List.nil_append]
  | @object n fields _ ih =>
      rw [encode_object, reread]
      cases fields with
      | nil =>
          refine ⟨.openObject :: [.closeObject], Means.enclosed rfl (scanAll_punctuation _ rfl) ?_⟩
          intro stack hdepth
          have hroom : stack.length < maxNestingDepth := by omega
          simp [shiftAll, shift, beginValue, enter, hroom, rereadFields]
      | cons f fs =>
          obtain ⟨ts, hcuts, hputs⟩ := Means.fields ih
          refine ⟨.openObject :: ts, Means.enclosed rfl ?_ ?_⟩
          · intro t
            rw [List.append_assoc]
            exact hcuts t
          · intro stack hdepth
            have hroom : stack.length < maxNestingDepth := by omega
            have hkeys := shiftAll_keyOrEnd (hputs [] hdepth)
            rw [shiftAll_cons]
            simp only [shift, beginValue, enter, if_pos hroom, Option.bind_some]
            rw [hkeys, List.append_nil]

theorem read_line {n : ℕ} {v : Json} (h : Writable n v) (hn : n ≤ maxNestingDepth) :
    read (line v) = some (reread v) := by
  obtain ⟨ts, hmeans⟩ := h.means
  have hnewline : scanAll .between [0x0A] = some [] := rfl
  rw [read_eq_some_iff]
  refine ⟨ts, ?_, hmeans.puts (by rw [List.length_nil]; omega)⟩
  unfold line tokens
  rw [hmeans.cuts [] (by decide), hnewline, Option.map_some, List.append_nil]

/-! ### Whole numbers -/

theorem str_append (a b : String) : str (a ++ b) = str a ++ str b := by
  simp [str]

theorem str_digitChar {n : ℕ} (h : n < 10) :
    str (String.singleton (Nat.digitChar n)) = [0x30 + UInt8.ofNat n] ∧
      isDigit (0x30 + UInt8.ofNat n) = true ∧ (0 < n → 0x30 + UInt8.ofNat n ≠ 0x30) := by
  have hall : ∀ n : Fin 10, str (String.singleton (Nat.digitChar n)) = [0x30 + UInt8.ofNat n] ∧
      isDigit (0x30 + UInt8.ofNat n) = true ∧ (0 < n.val → 0x30 + UInt8.ofNat n ≠ 0x30) := by decide
  exact hall ⟨n, h⟩

theorem str_repr (n : ℕ) : ∃ d ds, str n.repr = d :: ds ∧ (∀ c ∈ d :: ds, isDigit c = true) ∧
    (d = 0x30 → ds = []) ∧ (0 < n → d ≠ 0x30) := by
  induction n using Nat.strong_induction_on with
  | _ n ih =>
      by_cases hn : n < 10
      · obtain ⟨hchar, hdigit, hpos⟩ := str_digitChar hn
        refine ⟨_, [], ?_, ?_, fun _ => rfl, hpos⟩
        · rw [Nat.repr_of_lt hn, hchar]
        · simpa using hdigit
      · obtain ⟨hchar, hdigit, -⟩ := str_digitChar (n := n % 10) (by omega)
        obtain ⟨d, ds, hrest, hdigits, -, hpos⟩ := ih (n / 10) (by omega)
        have hne := hpos (by omega)
        refine ⟨d, ds ++ [0x30 + UInt8.ofNat (n % 10)], ?_, ?_, fun hd => absurd hd hne,
          fun _ => hne⟩
        · rw [Nat.repr_of_ge (by omega), str_append, hrest, hchar, List.cons_append]
        · intro c hc
          rw [← List.cons_append] at hc
          rcases List.mem_append.mp hc with hold | hlast
          · exact hdigits c hold
          · rw [List.mem_singleton.mp hlast]
            exact hdigit

theorem validNumber_digits {d : UInt8} {ds : Str} (hdigits : ∀ c ∈ d :: ds, isDigit c = true)
    (hzero : d = 0x30 → ds = []) :
    validNumber (d :: ds) = true ∧ validNumber (hyphen :: d :: ds) = true := by
  have htake : (d :: ds).takeWhile isDigit = d :: ds := List.takeWhile_eq_self_iff.mpr hdigits
  have hdrop : (d :: ds).dropWhile isDigit = [] := List.dropWhile_eq_nil_iff.mpr hdigits
  have hsign : d ≠ hyphen := by
    rintro rfl
    cases hdigits hyphen List.mem_cons_self
  have hhead : (decide (some d ≠ some 0x30) || decide (d :: ds = [0x30])) = true := by
    by_cases hd : d = 0x30
    · rw [hd, hzero hd]
      rfl
    · simp [hd]
  constructor
  · unfold validNumber
    simp only [List.head?_cons, Option.some.injEq, if_neg hsign, htake, hdrop]
    simpa [validExponent] using hhead
  · unfold validNumber
    simp only [List.head?_cons, if_true, List.drop_one, List.tail_cons, htake, hdrop]
    simpa [validExponent] using hhead

theorem validNumber_int (n : ℤ) : validNumber (str (toString n)) = true := by
  rw [Int.toString_eq_repr, Int.repr_eq_if]
  split_ifs with hn
  · obtain ⟨d, ds, hs, hdigits, hzero, -⟩ := str_repr n.toNat
    rw [hs]
    exact (validNumber_digits hdigits hzero).1
  · obtain ⟨d, ds, hs, hdigits, hzero, -⟩ := str_repr (-n).toNat
    have hminus : str "-" = [hyphen] := rfl
    rw [str_append, hs, hminus]
    exact (validNumber_digits hdigits hzero).2

/-! ### Records -/

/-- An object of those fields that are there. -/
def record (fields : List (Str × Option Json)) : Json :=
  .object (fields.filterMap fun f => f.2.map (Prod.mk f.1))

/-- What a script reads as a property of a value. -/
def property (name : Str) : Json → Option Json
  | .object fields => fields.lookup name
  | _ => none

/-- Names of fields that are written as they are, each once. -/
def Plain (names : List Str) : Prop := names.Nodup ∧ ∀ name ∈ names, ∀ c ∈ name, c < 0x80

instance (names : List Str) : Decidable (Plain names) := inferInstanceAs (Decidable (_ ∧ _))

theorem rereadItems_eq (items : List Json) : rereadItems items = items.map reread := by
  induction items with
  | nil => rfl
  | cons v vs ih => rw [rereadItems, ih, List.map_cons]

theorem lookup_rereadFields {fields : List (Str × Option Json)} (h : Plain (fields.map Prod.fst))
    (name : Str) :
    (rereadFields (fields.filterMap fun f => f.2.map (Prod.mk f.1))).reverse.lookup name =
      ((fields.lookup name).getD none).map reread := by
  induction fields with
  | nil => rfl
  | cons f fields ih =>
      obtain ⟨key, v⟩ := f
      obtain ⟨hnodup, hascii⟩ := h
      obtain ⟨hnew, hnodup⟩ := List.nodup_cons.mp hnodup
      have hkey : legible key = key := legible_ascii (hascii key List.mem_cons_self)
      have hrest := ih ⟨hnodup, fun name hname => hascii name (List.mem_cons_of_mem _ hname)⟩
      have habsent : fields.lookup key = none := by
        refine List.lookup_eq_none_iff.mpr fun f hf => bne_iff_ne.mpr ?_
        intro heq
        have hmem : f.1 ∈ fields.map Prod.fst := List.mem_map_of_mem hf
        exact hnew (heq ▸ hmem)
      by_cases hname : name = key
      · subst hname
        rw [habsent] at hrest
        rw [List.lookup_cons_self, Option.getD_some]
        cases v with
        | none => exact hrest
        | some v =>
            change ((legible name, reread v) :: rereadFields _).reverse.lookup name = _
            rw [List.reverse_cons, List.lookup_append, hrest, hkey]
            simp
      · have hne : (name == key) = false := beq_false_of_ne hname
        rw [List.lookup_cons, hne]
        cases v with
        | none => exact hrest
        | some v =>
            change ((legible key, reread v) :: rereadFields _).reverse.lookup name = _
            rw [List.reverse_cons, List.lookup_append, hrest, hkey, List.lookup_cons, hne,
              List.lookup_nil]
            exact Option.or_none

/-- The properties of a record that was written are those it was written with. -/
theorem property_reread {fields : List (Str × Option Json)} (h : Plain (fields.map Prod.fst))
    (name : Str) :
    property name (reread (record fields)) = ((fields.lookup name).getD none).map reread := by
  rw [record, reread]
  exact lookup_rereadFields h name

theorem writable_record {n : ℕ} {fields : List (Str × Option Json)}
    (h : ∀ f ∈ fields, ∀ v ∈ f.2, Writable n v) : Writable (n + 1) (record fields) := by
  refine .object fun f hf => ?_
  obtain ⟨g, hg, heq⟩ := List.mem_filterMap.mp hf
  obtain ⟨v, hv, rfl⟩ := Option.map_eq_some_iff.mp heq
  exact h g hg v hv

end PierGateway.Json
