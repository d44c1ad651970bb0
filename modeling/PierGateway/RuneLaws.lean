import PierGateway.GoUnicode

/-!
# Laws of the rune decoding

Decoding reads a string from the left, and what a rune is depends on no byte behind it
that could not continue it. So the runes of a string are found again in any part of it
that is cut out between runes, an ASCII byte is always a rune of its own, and decoding
undoes encoding. Trimming is stated over these facts.
-/
namespace PierGateway.GoUnicode
open GoStrings

/-- The bytes a list of runes was read from. -/
def bytesOf (l : List Rune) : Str := l.flatMap Rune.bytes

@[simp] theorem bytesOf_nil : bytesOf [] = [] := rfl

@[simp] theorem bytesOf_cons (r : Rune) (l : List Rune) :
    bytesOf (r :: l) = r.bytes ++ bytesOf l := rfl

@[simp] theorem bytesOf_append (l l' : List Rune) :
    bytesOf (l ++ l') = bytesOf l ++ bytesOf l' := List.flatMap_append

/-! ### One rune -/

/-- How many bytes a sequence with this first byte has. -/
def width (b : UInt8) : ℕ :=
  if 0xC2 ≤ b && b ≤ 0xDF then 2 else if 0xE0 ≤ b && b ≤ 0xEF then 3 else 4

theorem sequence_take (b : UInt8) (s : Str) : sequence b (s.take (width b - 1)) = sequence b s := by
  unfold sequence width
  split_ifs
  · rcases s with _ | ⟨b₁, s⟩ <;> rfl
  · rcases s with _ | ⟨b₁, _ | ⟨b₂, s⟩⟩ <;> rfl
  · rcases s with _ | ⟨b₁, _ | ⟨b₂, _ | ⟨b₃, s⟩⟩⟩ <;> rfl
  · rfl

theorem sequence_length {b : UInt8} {s : Str} {r : Rune} (h : sequence b s = some r) :
    r.bytes.length = width b := by
  unfold sequence at h
  unfold width
  split_ifs at h ⊢
  · split at h
    · split_ifs at h
      rw [← Option.some.inj h]
      rfl
    · cases h
  · split at h
    · split_ifs at h
      rw [← Option.some.inj h]
      rfl
    · cases h
  · split at h
    · split_ifs at h
      rw [← Option.some.inj h]
      rfl
    · cases h

/-- A rune is read from its own bytes: what stands behind them does not matter. -/
theorem decodeRune_append {b : UInt8} {s t : Str}
    (hlen : (decodeRune b (s ++ t)).bytes.length ≤ s.length + 1) :
    decodeRune b (s ++ t) = decodeRune b s := by
  unfold decodeRune at hlen ⊢
  by_cases hb : b < 0x80
  · rw [if_pos hb, if_pos hb]
  · rw [if_neg hb] at hlen
    rw [if_neg hb, if_neg hb]
    have htake : width b - 1 ≤ s.length → sequence b (s ++ t) = sequence b s := by
      intro hw
      rw [← sequence_take, List.take_append_of_le_length hw, sequence_take]
    cases hlong : sequence b (s ++ t) with
    | some r =>
        rw [hlong, Option.getD_some, sequence_length hlong] at hlen
        rw [← htake (by omega), hlong]
    | none =>
        cases hshort : sequence b s with
        | none => rfl
        | some r =>
            obtain ⟨u, hu, hprefix, _⟩ := sequence_bytes hshort
            have hwidth := sequence_length hshort
            have hle := hprefix.length_le
            rw [hu, List.length_cons] at hwidth
            rw [← htake (by omega), hlong] at hshort
            cases hshort

/-- An ASCII byte ends every sequence in front of it. -/
theorem decodeRune_append_ascii {b c : UInt8} (hc : c < 0x80) (s t : Str) :
    decodeRune b (s ++ c :: t) = decodeRune b s := by
  apply decodeRune_append
  obtain ⟨u, hu, hprefix, hge⟩ := decodeRune_bytes b (s ++ c :: t)
  rw [hu, List.length_cons]
  by_contra hlong
  have hsc : s ++ [c] <+: s ++ c :: t := by simp
  have hcu : s ++ [c] <+: u :=
    List.prefix_of_prefix_length_le hsc hprefix
      (by rw [List.length_append, List.length_singleton]; omega)
  exact UInt8.not_lt.mpr (hge c (hcu.subset (by simp))) hc

/-! ### All runes -/

theorem runesFuel_eq {n m : ℕ} {s : Str} (hn : s.length ≤ n) (hm : s.length ≤ m) :
    runesFuel n s = runesFuel m s := by
  induction n generalizing m s with
  | zero =>
      obtain rfl : s = [] := List.length_eq_zero_iff.mp (Nat.le_zero.mp hn)
      cases m <;> rfl
  | succ n ih =>
      cases s with
      | nil => cases m <;> rfl
      | cons b s =>
          cases m with
          | zero => simp at hm
          | succ m =>
              obtain ⟨t, ht, _⟩ := decodeRune_bytes b s
              simp only [List.length_cons] at hn hm
              simp only [runesFuel, ht, List.length_cons, List.drop_succ_cons]
              rw [ih (m := m)]
              · rw [List.length_drop]
                omega
              · rw [List.length_drop]
                omega

theorem runes_decodeRune (b : UInt8) (s : Str) :
    runes (b :: s) = decodeRune b s ::
      runes (s.drop ((decodeRune b s).bytes.length - 1)) := by
  obtain ⟨t, ht, _⟩ := decodeRune_bytes b s
  unfold runes
  rw [List.length_cons, runesFuel, ht, List.length_cons, List.drop_succ_cons,
    Nat.add_sub_cancel]
  congr 1
  apply runesFuel_eq
  · rw [List.length_drop]
    omega
  · exact Nat.le_refl _

/-- The step of every induction over the runes of a string: the bytes of the first one are
split off. -/
theorem runes_cases (b : UInt8) (s : Str) :
    ∃ t u, s = t ++ u ∧ (decodeRune b s).bytes = b :: t ∧ (∀ c ∈ t, 0x80 ≤ c) ∧
      runes (b :: s) = decodeRune b s :: runes u := by
  obtain ⟨t, ht, ⟨u, rfl⟩, hge⟩ := decodeRune_bytes b s
  refine ⟨t, u, rfl, ht, hge, ?_⟩
  rw [runes_decodeRune, ht, List.length_cons, Nat.add_sub_cancel, List.drop_left]

theorem bytesOf_runes (s : Str) : bytesOf (runes s) = s := by
  induction h : s.length using Nat.strong_induction_on generalizing s with
  | _ n ih =>
      cases s with
      | nil => rfl
      | cons b s =>
          obtain ⟨t, u, hs, ht, _, hrunes⟩ := runes_cases b s
          have hlen : u.length < n := by
            rw [← h, hs]
            simp only [List.length_cons, List.length_append]
            omega
          rw [hrunes, bytesOf_cons, ht, ih u.length hlen u rfl, List.cons_append, ← hs]

theorem runes_bytesOf {s : Str} {l l' : List Rune} (h : runes s = l ++ l') :
    runes (bytesOf l) = l ∧ runes (bytesOf l') = l' := by
  induction l generalizing s with
  | nil =>
      rw [List.nil_append] at h
      rw [← h, bytesOf_runes]
      exact ⟨rfl, rfl⟩
  | cons r l ih =>
      cases s with
      | nil => cases h
      | cons b s =>
          obtain ⟨t, u, hs, ht, _, hrunes⟩ := runes_cases b s
          rw [hrunes, List.cons_append] at h
          obtain ⟨hr, hu⟩ := List.cons.inj h
          obtain ⟨hl, hl'⟩ := ih hu
          refine ⟨?_, hl'⟩
          have hbytes : u = bytesOf l ++ bytesOf l' := by
            rw [← bytesOf_append, ← hu, bytesOf_runes]
          have hfirst : decodeRune b (t ++ bytesOf l) = r := by
            rw [← hr, hs, hbytes, ← List.append_assoc]
            symm
            apply decodeRune_append
            rw [List.append_assoc, ← hbytes, ← hs, ht]
            simp
          rw [bytesOf_cons, ← hr, ht, List.cons_append, runes_decodeRune, hfirst, ← hr, ht,
            List.length_cons, Nat.add_sub_cancel, List.drop_left, hl]

theorem runes_append_ascii {c : UInt8} (hc : c < 0x80) (s t : Str) :
    runes (s ++ c :: t) = runes s ++ ⟨c.toNat, [c]⟩ :: runes t := by
  induction h : s.length using Nat.strong_induction_on generalizing s with
  | _ n ih =>
      cases s with
      | nil => exact runes_cons hc t
      | cons b s =>
          obtain ⟨v, u, hs, hv, _, hrunes⟩ := runes_cases b s
          have hlen : u.length < n := by
            rw [← h, hs]
            simp only [List.length_cons, List.length_append]
            omega
          have hdrop : (s ++ c :: t).drop ((decodeRune b s).bytes.length - 1) = u ++ c :: t := by
            rw [hv, hs, List.length_cons, Nat.add_sub_cancel, List.append_assoc, List.drop_left]
          rw [hrunes, List.cons_append, runes_decodeRune, decodeRune_append_ascii hc, hdrop,
            ih u.length hlen u rfl, List.cons_append]

/-! ### Trimming -/

theorem runes_of_infix {s : Str} {l : List Rune} (h : l <:+: runes s) : runes (bytesOf l) = l := by
  obtain ⟨a, b, hab⟩ := h
  have hsplit := (runes_bytesOf hab.symm).1
  exact (runes_bytesOf hsplit).2

section
variable {α : Type} {p : α → Bool} {x : α}

theorem dropWhile_append_cons (hx : p x = false) (l l' : List α) :
    (l ++ x :: l').dropWhile p = l.dropWhile p ++ x :: l' := by
  induction l with
  | nil => simp [hx]
  | cons y l ih => by_cases hy : p y = true <;> simp [hy, ih]

theorem rdropWhile_append_cons (hx : p x = false) (l l' : List α) :
    (l ++ x :: l').rdropWhile p = l ++ x :: l'.rdropWhile p := by
  have hrev := dropWhile_append_cons hx l'.reverse l.reverse
  rw [List.rdropWhile, List.reverse_append, List.reverse_cons, List.append_assoc,
    List.singleton_append, hrev, List.reverse_append, List.reverse_cons, List.reverse_reverse,
    List.append_assoc]
  rfl

/-- Either end can be cleared first. -/
theorem rdropWhile_dropWhile (p : α → Bool) (l : List α) :
    (l.dropWhile p).rdropWhile p = (l.rdropWhile p).dropWhile p := by
  by_cases hall : ∀ x ∈ l, p x = true
  · rw [List.dropWhile_eq_nil_iff.mpr hall, List.rdropWhile_eq_nil_iff.mpr hall]
    rfl
  · push Not at hall
    obtain ⟨x, hx, hp⟩ := hall
    have hfalse : p x = false := by simpa using hp
    obtain ⟨a, b, rfl⟩ := List.append_of_mem hx
    rw [dropWhile_append_cons hfalse, rdropWhile_append_cons hfalse,
      rdropWhile_append_cons hfalse, dropWhile_append_cons hfalse]

end

/-- A string without the spaces in front of it, and one without those behind it. -/
def trimStart (s : Str) : Str := bytesOf ((runes s).dropWhile fun r => isSpace r.value)

def trimEnd (s : Str) : Str := bytesOf ((runes s).rdropWhile fun r => isSpace r.value)

theorem runes_trimStart (s : Str) :
    runes (trimStart s) = (runes s).dropWhile fun r => isSpace r.value :=
  runes_of_infix (List.dropWhile_suffix _).isInfix

theorem runes_trimEnd (s : Str) :
    runes (trimEnd s) = (runes s).rdropWhile fun r => isSpace r.value :=
  runes_of_infix (List.rdropWhile_prefix _ _).isInfix

theorem trimSpace_eq (s : Str) : trimSpace s = trimEnd (trimStart s) := by
  rw [trimEnd, runes_trimStart]
  rfl

theorem trimEnd_trimStart (s : Str) : trimEnd (trimStart s) = trimStart (trimEnd s) := by
  rw [trimEnd, runes_trimStart, trimStart, runes_trimEnd, rdropWhile_dropWhile]

theorem trimStart_idem (s : Str) : trimStart (trimStart s) = trimStart s := by
  rw [trimStart, runes_trimStart, List.dropWhile_idempotent]
  rfl

theorem trimEnd_idem (s : Str) : trimEnd (trimEnd s) = trimEnd s := by
  rw [trimEnd, runes_trimEnd, List.rdropWhile_idempotent]
  rfl

theorem trimSpace_trimStart (s : Str) : trimSpace (trimStart s) = trimSpace s := by
  rw [trimSpace_eq, trimStart_idem, trimSpace_eq]

theorem trimSpace_trimEnd (s : Str) : trimSpace (trimEnd s) = trimSpace s := by
  rw [trimSpace_eq, trimEnd_trimStart, trimEnd_idem, ← trimEnd_trimStart, trimSpace_eq]

theorem trimSpace_idem (s : Str) : trimSpace (trimSpace s) = trimSpace s := by
  conv_lhs => rw [trimSpace_eq s]
  rw [trimSpace_trimEnd, trimSpace_trimStart]

theorem trimSpace_subset {s : Str} {c : UInt8} (h : c ∈ trimSpace s) : c ∈ s := by
  obtain ⟨r, hr, hc⟩ := List.mem_flatMap.mp h
  have hmem : r ∈ runes s :=
    (List.dropWhile_suffix _).subset ((List.rdropWhile_prefix _ _).subset hr)
  rw [← bytesOf_runes s]
  exact List.mem_flatMap.mpr ⟨r, hmem, hc⟩

section
variable {c : UInt8}

/-- Bytes at which text is cut and spaces stay apart. -/
theorem trimStart_append (hc : c < 0x80) (hspace : isSpace c.toNat = false) (s t : Str) :
    trimStart (s ++ c :: t) = trimStart s ++ c :: t := by
  have hrune := dropWhile_append_cons (p := fun r : Rune => isSpace r.value) (x := ⟨c.toNat, [c]⟩)
    hspace (runes s) (runes t)
  rw [trimStart, runes_append_ascii hc, hrune, bytesOf_append, bytesOf_cons, bytesOf_runes]
  rfl

theorem trimEnd_append (hc : c < 0x80) (hspace : isSpace c.toNat = false) (s t : Str) :
    trimEnd (s ++ c :: t) = s ++ c :: trimEnd t := by
  have hrune := rdropWhile_append_cons (p := fun r : Rune => isSpace r.value) (x := ⟨c.toNat, [c]⟩)
    hspace (runes s) (runes t)
  rw [trimEnd, runes_append_ascii hc, hrune, bytesOf_append, bytesOf_cons, bytesOf_runes]
  rfl

theorem trimStart_subset {s : Str} {b : UInt8} (h : b ∈ trimStart s) : b ∈ s := by
  obtain ⟨r, hr, hb⟩ := List.mem_flatMap.mp h
  rw [← bytesOf_runes s]
  exact List.mem_flatMap.mpr ⟨r, (List.dropWhile_suffix _).subset hr, hb⟩

theorem trimEnd_subset {s : Str} {b : UInt8} (h : b ∈ trimEnd s) : b ∈ s := by
  obtain ⟨r, hr, hb⟩ := List.mem_flatMap.mp h
  rw [← bytesOf_runes s]
  exact List.mem_flatMap.mpr ⟨r, (List.rdropWhile_prefix _ _).subset hr, hb⟩

/-- The parts of trimmed text are those of the text, as far as trimming them goes. -/
theorem split_trimStart (hc : c < 0x80) (hspace : isSpace c.toNat = false) (s : Str) :
    (split c (trimStart s)).map trimSpace = (split c s).map trimSpace := by
  by_cases hs : c ∈ s
  · obtain ⟨p, t, rfl, hp⟩ := List.eq_append_cons_of_mem hs
    rw [trimStart_append hc hspace, split_append c hp,
      split_append c (fun h => hp (trimStart_subset h)), List.map_cons, List.map_cons,
      trimSpace_trimStart]
  · rw [split_of_not_mem c hs, split_of_not_mem c (fun h => hs (trimStart_subset h)),
      List.map_singleton, List.map_singleton, trimSpace_trimStart]

theorem split_trimEnd (hc : c < 0x80) (hspace : isSpace c.toNat = false) (s : Str) :
    (split c (trimEnd s)).map trimSpace = (split c s).map trimSpace := by
  induction h : s.length using Nat.strong_induction_on generalizing s with
  | _ n ih =>
      by_cases hs : c ∈ s
      · obtain ⟨p, t, rfl, hp⟩ := List.eq_append_cons_of_mem hs
        have hlen : t.length < n := by
          rw [← h, List.length_append, List.length_cons]
          omega
        rw [trimEnd_append hc hspace, split_append c hp, split_append c hp, List.map_cons,
          List.map_cons, ih t.length hlen t rfl]
      · rw [split_of_not_mem c hs, split_of_not_mem c (fun h => hs (trimEnd_subset h)),
          List.map_singleton, List.map_singleton, trimSpace_trimEnd]

theorem split_trimSpace (hc : c < 0x80) (hspace : isSpace c.toNat = false) (s : Str) :
    (split c (trimSpace s)).map trimSpace = (split c s).map trimSpace := by
  rw [trimSpace_eq, split_trimEnd hc hspace, split_trimStart hc hspace]

theorem trimSpace_cut (hc : c < 0x80) (hspace : isSpace c.toNat = false) (s : Str) :
    trimSpace (cut c (trimSpace s)).1 = trimSpace (cut c s).1 := by
  rcases cut_cases c s with ⟨hs, hcut⟩ | ⟨p, t, hp, rfl, hcut⟩
  · rw [hcut, cut_of_not_mem c (fun h => hs (trimSpace_subset h)), trimSpace_idem]
  · rw [hcut, trimSpace_eq (p ++ c :: t), trimStart_append hc hspace, trimEnd_append hc hspace,
      cut_append c (fun h => hp (trimStart_subset h)), trimSpace_trimStart]

end

end PierGateway.GoUnicode
