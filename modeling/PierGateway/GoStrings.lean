import Mathlib.Data.List.DropRight
import Mathlib.Data.List.Sort
import Mathlib.Tactic

/-!
# Byte strings and the byte-level `strings` functions

A Go string is a sequence of bytes with no encoding promised, so it is a list
of bytes here. The functions below are the ones of the package `strings` whose
arguments are single bytes or literal byte strings; the ones that decode UTF-8
are in `GoUnicode`. Each is a structural recursion, so closed instances reduce.
-/
namespace PierGateway.GoStrings

/-- A Go `string`. -/
abbrev Str := List UInt8

-- a name of its own, so that every test for membership carries the same instance
instance : LawfulBEq Str := inferInstance

/-- The bytes of a string literal. -/
def str (s : String) : Str := s.toList.flatMap String.utf8EncodeChar

@[simp] theorem str_inj {a b : String} : str a = str b ↔ a = b := by
  constructor
  · intro h
    have hbytes : a.toList.utf8Encode = b.toList.utf8Encode := congrArg List.toByteArray h
    rw [String.utf8Encode_toList, String.utf8Encode_toList] at hbytes
    exact String.toByteArray_inj.mp hbytes
  · intro h
    rw [h]

@[simp] theorem str_eq_nil {a : String} : str a = [] ↔ a = "" := str_inj (b := "")

abbrev slash : UInt8 := 0x2F
abbrev question : UInt8 := 0x3F
abbrev sharp : UInt8 := 0x23
abbrev percent : UInt8 := 0x25
abbrev ampersand : UInt8 := 0x26
abbrev equals : UInt8 := 0x3D
abbrev semicolon : UInt8 := 0x3B
abbrev colon : UInt8 := 0x3A
abbrev comma : UInt8 := 0x2C
abbrev plus : UInt8 := 0x2B
abbrev hyphen : UInt8 := 0x2D
abbrev space : UInt8 := 0x20
abbrev dot : UInt8 := 0x2E
abbrev atSign : UInt8 := 0x40

/-- A statement about every byte is a statement about 256 numbers. -/
theorem forall_byte {P : UInt8 → Prop} (h : ∀ n : Fin 256, P (UInt8.ofFin n)) (c : UInt8) : P c :=
  h c.toFin

/-- `strings.Cut(s, sep)` for a one-byte separator; `none` says it was absent. -/
def cut (sep : UInt8) : Str → Str × Option Str
  | [] => ([], none)
  | c :: s => if c = sep then ([], some s) else (c :: (cut sep s).1, (cut sep s).2)

@[simp] theorem cut_nil (sep : UInt8) : cut sep [] = ([], none) := rfl

theorem cut_append (sep : UInt8) {p : Str} (hp : sep ∉ p) (s : Str) :
    cut sep (p ++ sep :: s) = (p, some s) := by
  induction p with
  | nil => simp [cut]
  | cons c p ih =>
      have hc : c ≠ sep := fun h => hp (h ▸ List.mem_cons_self)
      simp [cut, hc, ih (fun h => hp (List.mem_cons_of_mem _ h))]

theorem cut_of_not_mem (sep : UInt8) {s : Str} (hs : sep ∉ s) : cut sep s = (s, none) := by
  induction s with
  | nil => rfl
  | cons c s ih =>
      have hc : c ≠ sep := fun h => hs (h ▸ List.mem_cons_self)
      simp [cut, hc, ih (fun h => hs (List.mem_cons_of_mem _ h))]

theorem not_mem_cut_fst (sep : UInt8) (s : Str) : sep ∉ (cut sep s).1 := by
  induction s with
  | nil => simp
  | cons c s ih =>
      by_cases hc : c = sep
      · simp [cut, hc]
      · simp [cut, hc, ih, Ne.symm hc]

/-- Everything `cut` can return, with what it says of the argument. -/
theorem cut_cases (sep : UInt8) (s : Str) :
    (sep ∉ s ∧ cut sep s = (s, none)) ∨
      ∃ p t, sep ∉ p ∧ s = p ++ sep :: t ∧ cut sep s = (p, some t) := by
  by_cases hs : sep ∈ s
  · obtain ⟨p, t, rfl, hp⟩ := List.eq_append_cons_of_mem hs
    exact .inr ⟨p, t, hp, rfl, cut_append sep hp t⟩
  · exact .inl ⟨hs, cut_of_not_mem sep hs⟩

/-- `strings.SplitN(s, sep, 2)` for a longer separator, `none` when absent. -/
def cutStr (sep : Str) : Str → Option (Str × Str)
  | [] => if sep = [] then some ([], []) else none
  | c :: s =>
      if sep.isPrefixOf (c :: s) then some ([], (c :: s).drop sep.length)
      else (cutStr sep s).map fun r => (c :: r.1, r.2)

theorem cutStr_append (c : UInt8) (sep : Str) {s : Str} (hs : c ∉ s) (t : Str) :
    cutStr (c :: sep) (s ++ c :: (sep ++ t)) = some (s, t) := by
  induction s with
  | nil => simp [cutStr, List.isPrefixOf]
  | cons d s ih =>
      have hd : c ≠ d := fun he => hs (he ▸ List.mem_cons_self)
      have htail := ih fun h => hs (List.mem_cons_of_mem _ h)
      simp [cutStr, List.isPrefixOf, hd, htail]

/-- The text before and after the last `sep`: `strings.LastIndex` and its slices. -/
def lastCut (sep : UInt8) : Str → Option (Str × Str)
  | [] => none
  | c :: s =>
      match lastCut sep s with
      | some r => some (c :: r.1, r.2)
      | none => if c = sep then some ([], s) else none

theorem lastCut_eq_none {sep : UInt8} {s : Str} (hs : sep ∉ s) : lastCut sep s = none := by
  induction s with
  | nil => rfl
  | cons c s ih =>
      have hc : c ≠ sep := fun he => hs (he ▸ List.mem_cons_self)
      have htail := ih fun h => hs (List.mem_cons_of_mem _ h)
      simp [lastCut, htail, hc]

theorem lastCut_append {sep : UInt8} (s : Str) {t : Str} (ht : sep ∉ t) :
    lastCut sep (s ++ sep :: t) = some (s, t) := by
  induction s with
  | nil => simp [lastCut, lastCut_eq_none ht]
  | cons c s ih => simp [lastCut, ih]

/-- Everything `lastCut` can return, with what it says of the argument. -/
theorem lastCut_cases (sep : UInt8) (s : Str) :
    (sep ∉ s ∧ lastCut sep s = none) ∨
      ∃ p t, sep ∉ t ∧ s = p ++ sep :: t ∧ lastCut sep s = some (p, t) := by
  induction s with
  | nil => exact .inl ⟨List.not_mem_nil, rfl⟩
  | cons c s ih =>
      rcases ih with ⟨hs, -⟩ | ⟨p, t, ht, rfl, -⟩
      · by_cases hc : c = sep
        · subst hc
          exact .inr ⟨[], s, hs, rfl, lastCut_append [] hs⟩
        · have hcons : sep ∉ c :: s := by simp [hs, Ne.symm hc]
          exact .inl ⟨hcons, lastCut_eq_none hcons⟩
      · exact .inr ⟨c :: p, t, ht, rfl, lastCut_append (c :: p) ht⟩

/-- The last cut is the only one with nothing to cut behind it. -/
theorem lastCut_eq_some_iff {sep : UInt8} {s p t : Str} :
    lastCut sep s = some (p, t) ↔ s = p ++ sep :: t ∧ sep ∉ t := by
  constructor
  · intro h
    rcases lastCut_cases sep s with ⟨-, hnone⟩ | ⟨p', t', ht, hs, hsome⟩
    · rw [hnone] at h
      exact absurd h (Option.some_ne_none _).symm
    · rw [hsome] at h
      obtain ⟨rfl, rfl⟩ := Prod.mk.inj (Option.some.inj h)
      exact ⟨hs, ht⟩
  · intro h
    rw [h.1]
    exact lastCut_append p h.2

/-- `strings.TrimLeft(s, c)`, `strings.TrimRight(s, c)` and `strings.Trim(s, c)`. -/
def trimLeft (c : UInt8) (s : Str) : Str := s.dropWhile (· == c)
def trimRight (c : UInt8) (s : Str) : Str := s.rdropWhile (· == c)
def trim (c : UInt8) (s : Str) : Str := trimRight c (trimLeft c s)

/-- `strings.TrimPrefix`. -/
def trimPrefix (p s : Str) : Str := if p.isPrefixOf s then s.drop p.length else s

/-- `strings.HasPrefix`. -/
def hasPrefix (s p : Str) : Bool := p.isPrefixOf s

/-- `strings.HasSuffix`. -/
def hasSuffix (s p : Str) : Bool := p.isSuffixOf s

/-- `strings.Split` at a one-byte separator. -/
def split (sep : UInt8) (s : Str) : List Str := s.splitOn sep

/-- `strings.Join` with a one-byte separator. -/
def join (sep : UInt8) (parts : List Str) : Str := [sep].intercalate parts

theorem join_split (sep : UInt8) (s : Str) : join sep (split sep s) = s :=
  List.intercalate_splitOn sep

theorem split_append (sep : UInt8) {p : Str} (hp : sep ∉ p) (s : Str) :
    split sep (p ++ sep :: s) = p :: split sep s :=
  List.splitOn_append_cons_self_of_not_mem hp s

theorem split_of_not_mem (sep : UInt8) {s : Str} (hs : sep ∉ s) : split sep s = [s] :=
  List.splitOn_eq_singleton hs

theorem split_append_cons (sep : UInt8) (p s : Str) :
    split sep (p ++ sep :: s) = split sep p ++ split sep s :=
  List.splitOn_append_cons_self p s

theorem split_ne_nil (sep : UInt8) (s : Str) : split sep s ≠ [] := List.splitOn_ne_nil sep s

@[simp] theorem split_cons_self (sep : UInt8) (s : Str) :
    split sep (sep :: s) = [] :: split sep s :=
  split_append sep (List.not_mem_nil) s

@[simp] theorem split_nil (sep : UInt8) : split sep [] = [[]] := rfl

theorem not_mem_of_mem_split {sep : UInt8} {s t : Str} (h : t ∈ split sep s) : sep ∉ t := by
  induction s generalizing t with
  | nil => simp_all
  | cons c s ih =>
      rw [split, List.splitOn_cons_eq_if_modifyHead] at h
      split at h
      · rcases List.mem_cons.mp h with rfl | h
        · exact List.not_mem_nil
        · exact ih h
      · next hc =>
          obtain ⟨a, l, hl⟩ := List.exists_cons_of_ne_nil (List.splitOn_ne_nil sep s)
          rw [hl, List.modifyHead_cons] at h
          rcases List.mem_cons.mp h with rfl | h
          · have ha := ih (t := a) (by rw [split, hl]; exact List.mem_cons_self)
            simp only [beq_iff_eq] at hc
            simp [ha, Ne.symm hc]
          · exact ih (by rw [split, hl]; exact List.mem_cons_of_mem _ h)

theorem join_cons_cons (sep : UInt8) (p q : Str) (ps : List Str) :
    join sep (p :: q :: ps) = p ++ sep :: join sep (q :: ps) := by
  simp [join, List.intercalate_cons_cons]

theorem join_eq_nil_iff {sep : UInt8} {parts : List Str} :
    join sep parts = [] ↔ parts = [] ∨ parts = [[]] := by
  cases parts with
  | nil => simp [join]
  | cons p ps =>
      cases ps with
      | nil => simp [join]
      | cons q qs =>
          rw [join_cons_cons]
          simp

theorem split_join (sep : UInt8) {parts : List Str} (hne : parts ≠ [])
    (h : ∀ p ∈ parts, sep ∉ p) : split sep (join sep parts) = parts := by
  induction parts with
  | nil => exact absurd rfl hne
  | cons p ps ih =>
      have hp := h p List.mem_cons_self
      cases ps with
      | nil => simpa [join] using split_of_not_mem sep hp
      | cons q qs =>
          rw [join_cons_cons, split_append sep hp,
            ih (by simp) fun x hx => h x (List.mem_cons_of_mem _ hx)]

/-- Lower-case an ASCII letter and leave every other byte. -/
def lowerByte (c : UInt8) : UInt8 := if 0x41 ≤ c ∧ c ≤ 0x5A then c + 0x20 else c

/-- ASCII lower-casing, the folding of HTTP field names. -/
def lowerAscii (s : Str) : Str := s.map lowerByte

def isDigit (c : UInt8) : Bool := 0x30 ≤ c && c ≤ 0x39
def isAlpha (c : UInt8) : Bool := (0x61 ≤ c && c ≤ 0x7A) || (0x41 ≤ c && c ≤ 0x5A)
def isAlnum (c : UInt8) : Bool := isAlpha c || isDigit c

/-- `sort.Strings`; equal strings are indistinguishable, so any sort will do. -/
def sortStrings (l : List Str) : List Str := l.insertionSort (fun a b => a ≤ b)

/-- Sorting by keys that are all different leaves them strictly increasing. -/
theorem pairwise_lt_insertionSort {α : Type*} (key : α → Str) {l : List α} (h : (l.map key).Nodup) :
    (l.insertionSort fun a b => key a ≤ key b).Pairwise fun a b => key a < key b := by
  have htotal : Std.Total fun a b : α => key a ≤ key b := ⟨fun a b => List.le_total (key a) (key b)⟩
  have htrans : IsTrans α fun a b : α => key a ≤ key b := ⟨fun _ _ _ => List.le_trans⟩
  have hle := List.pairwise_insertionSort (fun a b : α => key a ≤ key b) l
  have hnodup :=
    ((List.perm_insertionSort (fun a b : α => key a ≤ key b) l).map key).nodup_iff.mpr h
  have hne := List.pairwise_map.mp hnodup
  exact (hle.and hne).imp fun hab => (List.le_iff_lt_or_eq.mp hab.1).resolve_right hab.2

end PierGateway.GoStrings
