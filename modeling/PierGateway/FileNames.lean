import PierGateway.ContentSecurity
import PierGateway.RuneEncoding

/-!
# File names in response headers

A sanitised name is an encoding of runes that are all allowed, without space around it,
and sanitising leaves every such name alone. The one key that gets through with a
separator is the one whose first line is made of separators: its last path element is
the separator itself.
-/
namespace PierGateway.WebUI
open GoStrings GoUnicode

/-- What a file name in a header has to be. -/
structure SafeFilename (name : Str) : Prop where
  nonempty : name ≠ []
  bytes : ∀ c ∈ name, 0x20 ≤ c ∧ c ≠ 0x7F ∧ c ≠ quotation ∧ c ≠ backslash ∧ c ≠ slash
  trimmed : trimSpace name = name
  notDots : name ≠ [dot] ∧ name ≠ [dot, dot]

/-- The key up to its first line break. -/
def firstLine (key : Str) : Str := key.takeWhile fun c => c ≠ 0x0D && c ≠ 0x0A

/-- The first line of the key has nothing but separators in it, and has one. -/
def OnlySeparators (key : Str) : Prop :=
  firstLine key ≠ [] ∧ ∀ c ∈ firstLine key, c = slash ∨ c = backslash

def forwardSlashes (s : Str) : Str := s.map fun c => if c = backslash then slash else c

/-- The runes that may not be in a quoted header value. -/
def droppedRune (v : ℕ) : Prop := v = 0x22 ∨ v < 0x20 ∨ v = 0x7F

instance (v : ℕ) : Decidable (droppedRune v) := inferInstanceAs (Decidable (_ ∨ _))

def keptRunes (name : Str) : Str :=
  (runes name).flatMap fun r => if droppedRune r.value then [] else encodeRune r.value

theorem sanitizeFilename_eq (key : Str) : sanitizeFilename key =
    let base := trimSpace (keptRunes (pathBase (forwardSlashes (firstLine key))))
    if base = [] ∨ base = [dot] ∨ base = [dot, dot] then str "download" else base := rfl

/-! ### The last path element -/

theorem backslash_not_mem_forwardSlashes (s : Str) : backslash ∉ forwardSlashes s := by
  intro h
  obtain ⟨c, _, hc⟩ := List.mem_map.mp h
  by_cases hb : c = backslash
  · rw [if_pos hb] at hc
    exact absurd hc (by decide)
  · rw [if_neg hb] at hc
    exact hb hc

theorem forwardSlashes_eq_self {s : Str} (h : backslash ∉ s) : forwardSlashes s = s := by
  calc forwardSlashes s = s.map id := by
        apply List.map_congr_left
        intro c hc
        rw [if_neg (fun hb : c = backslash => h (hb ▸ hc))]
        rfl
    _ = s := List.map_id s

theorem forwardSlashes_slash {s : Str} :
    (∀ c ∈ forwardSlashes s, c = slash) ↔ ∀ c ∈ s, c = slash ∨ c = backslash := by
  unfold forwardSlashes
  simp only [List.mem_map, forall_exists_index, and_imp, forall_apply_eq_imp_iff₂]
  apply forall₂_congr
  intro c _
  by_cases hb : c = backslash <;> simp [hb]

theorem pathBase_slashes {p : Str} (hne : p ≠ []) (h : ∀ c ∈ p, c = slash) :
    pathBase p = [slash] := by
  have hstrip : trimRight slash p = [] :=
    List.rdropWhile_eq_nil_iff.mpr fun c hc => beq_iff_eq.mpr (h c hc)
  unfold pathBase
  rw [if_neg hne, hstrip]
  rfl

/-- Of a path with anything but slashes, the last element has no slash and is not empty. -/
theorem pathBase_element {p : Str} (h : ¬∀ c ∈ p, c = slash) :
    slash ∉ pathBase p ∧ pathBase p ≠ [] ∧ ∀ c ∈ pathBase p, c ∈ p := by
  have hne : p ≠ [] := by
    intro hnil
    rw [hnil] at h
    exact h (by simp)
  have hprefix : trimRight slash p <+: p := List.rdropWhile_prefix _ _
  have hstrip : trimRight slash p ≠ [] := by
    intro hnil
    apply h
    intro c hc
    exact beq_iff_eq.mp (List.rdropWhile_eq_nil_iff.mp hnil c hc)
  have hlast : ∀ t, trimRight slash p ≠ t ++ [slash] := by
    intro t ht
    have hend := List.rdropWhile_last_not (fun c : UInt8 => c == slash) p hstrip
    simp only [trimRight] at ht
    simp only [ht, List.getLast_append_singleton] at hend
    simp at hend
  have hsubset : ∀ c ∈ trimRight slash p, c ∈ p := fun c hc => hprefix.subset hc
  unfold pathBase
  rw [if_neg hne]
  dsimp only
  rcases lastCut_cases slash (trimRight slash p) with ⟨hnone, hcut⟩ | ⟨q, t, ht, hsplit, hcut⟩
  · rw [hcut, Option.map_none, Option.getD_none, if_neg hstrip]
    exact ⟨hnone, hstrip, hsubset⟩
  · have htne : t ≠ [] := by
      intro hnil
      exact hlast q (by rw [hsplit, hnil])
    rw [hcut, Option.map_some, Option.getD_some, if_neg htne]
    refine ⟨ht, htne, ?_⟩
    intro c hc
    apply hsubset
    rw [hsplit]
    exact List.mem_append_right _ (List.mem_cons_of_mem _ hc)

theorem pathBase_eq_self {p : Str} (hne : p ≠ []) (h : slash ∉ p) : pathBase p = p := by
  have hstrip : trimRight slash p = p := by
    rw [trimRight, List.rdropWhile_eq_self_iff]
    intro hl
    have hmem := List.getLast_mem hl
    simp only [beq_iff_eq]
    intro hslash
    exact h (hslash ▸ hmem)
  unfold pathBase
  rw [if_neg hne, hstrip]
  dsimp only
  rw [lastCut_eq_none h, Option.map_none, Option.getD_none, if_neg hne]

/-! ### Names made of allowed runes -/

def SafeValue (v : ℕ) : Prop := v.isValidChar ∧ ¬droppedRune v ∧ v ≠ 0x5C ∧ v ≠ 0x2F

/-- Text in which every rune is allowed and is written by its encoding. -/
def CleanName (s : Str) : Prop := ∀ r ∈ runes s, SafeValue r.value ∧ r.bytes = encodeRune r.value

theorem CleanName.bytes {s : Str} (h : CleanName s) :
    ∀ c ∈ s, 0x20 ≤ c ∧ c ≠ 0x7F ∧ c ≠ quotation ∧ c ≠ backslash ∧ c ≠ slash := by
  intro c hc
  by_cases hlow : c < 0x80
  · obtain ⟨⟨_, hdropped, hbackslash, hslash⟩, _⟩ := h _ (mem_runes_of_ascii hlow hc)
    unfold droppedRune at hdropped
    simp only [not_or] at hdropped
    have hne : ∀ d : UInt8, c.toNat ≠ d.toNat → c ≠ d := by
      intro d hd heq
      exact hd (congrArg UInt8.toNat heq)
    refine ⟨?_, hne _ hdropped.2.2, hne _ hdropped.1, hne _ hbackslash, hne _ hslash⟩
    rw [UInt8.le_iff_toNat_le]
    exact Nat.not_lt.mp hdropped.2.1
  · have hhigh : 0x80 ≤ c := UInt8.not_lt.mp hlow
    refine ⟨UInt8.le_trans (by decide) hhigh, ?_, ?_, ?_, ?_⟩ <;>
      · intro heq
        rw [heq] at hhigh
        exact absurd hhigh (by decide)

theorem CleanName.trimSpace {s : Str} (h : CleanName s) : CleanName (trimSpace s) := by
  intro r hr
  rw [trimSpace_eq, runes_trimEnd, runes_trimStart] at hr
  exact h r ((List.dropWhile_suffix _).subset ((List.rdropWhile_prefix _ _).subset hr))

theorem keptRunes_eq_self {s : Str} (h : CleanName s) : keptRunes s = s := by
  calc keptRunes s = (runes s).flatMap Rune.bytes := by
        apply List.flatMap_congr
        intro r hr
        obtain ⟨⟨_, hkept, _⟩, hbytes⟩ := h r hr
        rw [if_neg hkept, hbytes]
    _ = s := bytesOf_runes s

/-- The values of decoded runes: a low one is a byte of the text. -/
theorem value_of_mem_runes {s : Str} {r : Rune} (hr : r ∈ runes s) :
    r.value.isValidChar ∧ (r.value < 0x80 → ∃ c ∈ s, c.toNat = r.value) := by
  induction h : s.length using Nat.strong_induction_on generalizing s with
  | _ n ih =>
      cases s with
      | nil => cases hr
      | cons b s =>
          obtain ⟨t, u, hs, _, _, hrunes⟩ := runes_cases b s
          rw [hrunes] at hr
          rcases List.mem_cons.mp hr with rfl | hu
          · obtain ⟨hvalid, hlow⟩ := decodeRune_value b s
            exact ⟨hvalid, fun hlt => ⟨b, List.mem_cons_self, (hlow hlt).symm⟩⟩
          · have hlen : u.length < n := by
              rw [← h, hs]
              simp only [List.length_cons, List.length_append]
              omega
            obtain ⟨hvalid, hlow⟩ := ih u.length hlen hu rfl
            refine ⟨hvalid, ?_⟩
            intro hlt
            obtain ⟨c, hc, hvalue⟩ := hlow hlt
            refine ⟨c, ?_, hvalue⟩
            rw [hs]
            exact List.mem_cons_of_mem _ (List.mem_append_right _ hc)

/-- The character removal leaves a clean name of an element without separators. -/
theorem cleanName_keptRunes {name : Str} (hslash : slash ∉ name) (hback : backslash ∉ name) :
    CleanName (keptRunes name) := by
  have hkept : keptRunes name =
      (((runes name).map Rune.value).filter fun v => ¬droppedRune v).flatMap encodeRune := by
    unfold keptRunes
    induction runes name with
    | nil => rfl
    | cons r l ih => by_cases hdrop : droppedRune r.value <;> simp [hdrop, ih]
  have hsafe : ∀ v ∈ ((runes name).map Rune.value).filter fun v => ¬droppedRune v,
      SafeValue v := by
    intro v hv
    obtain ⟨hmem, hdrop⟩ := List.mem_filter.mp hv
    obtain ⟨r, hr, rfl⟩ := List.mem_map.mp hmem
    obtain ⟨hvalid, hlow⟩ := value_of_mem_runes hr
    have hbyte : ∀ d : UInt8, d ∉ name → d.toNat < 0x80 → r.value ≠ d.toNat := by
      intro d hd hlt heq
      obtain ⟨c, hc, hvalue⟩ := hlow (by omega)
      exact hd (UInt8.toNat_inj.mp (hvalue.trans heq) ▸ hc)
    exact ⟨hvalid, by simpa using hdrop, hbyte _ hback (by decide), hbyte _ hslash (by decide)⟩
  intro r hr
  rw [hkept, runes_encode (fun v hv => (hsafe v hv).1)] at hr
  obtain ⟨v, hv, rfl⟩ := List.mem_map.mp hr
  exact ⟨hsafe v hv, rfl⟩

/-! ### Sanitised names -/

theorem sanitizeFilename_eq_self {s : Str} (hclean : CleanName s) (htrim : trimSpace s = s)
    (h : ¬(s = [] ∨ s = [dot] ∨ s = [dot, dot])) : sanitizeFilename s = s := by
  have hbytes := hclean.bytes
  have hline : firstLine s = s := by
    rw [firstLine, List.takeWhile_eq_self_iff]
    intro c hc
    have hlow : ∀ d : UInt8, d < 0x20 → c ≠ d := by
      intro d hd heq
      rw [← heq] at hd
      exact UInt8.not_lt.mpr (hbytes c hc).1 hd
    simp [hlow 0x0D (by decide), hlow 0x0A (by decide)]
  have hback : backslash ∉ s := fun hc => (hbytes _ hc).2.2.2.1 rfl
  have hslash : slash ∉ s := fun hc => (hbytes _ hc).2.2.2.2 rfl
  rw [sanitizeFilename_eq]
  dsimp only
  rw [hline, forwardSlashes_eq_self hback, pathBase_eq_self (fun hnil => h (Or.inl hnil)) hslash,
    keptRunes_eq_self hclean, htrim, if_neg h]

theorem cleanName_download :
    CleanName (str "download") ∧ trimSpace (str "download") = str "download" := by
  constructor
  · unfold CleanName SafeValue
    decide
  · decide

/-- The sanitised name of any key is safe and stays as it is, unless the key's first line is
made of separators. -/
theorem sanitizeFilename_safe_iff (key : Str) :
    SafeFilename (sanitizeFilename key) ∧
        sanitizeFilename (sanitizeFilename key) = sanitizeFilename key ↔
      ¬OnlySeparators key := by
  constructor
  · intro h honly
    obtain ⟨hne, hall⟩ := honly
    have hbase : pathBase (forwardSlashes (firstLine key)) = [slash] := by
      apply pathBase_slashes
      · intro hnil
        exact hne (List.map_eq_nil_iff.mp hnil)
      · exact forwardSlashes_slash.mpr hall
    have hname : sanitizeFilename key = [slash] := by
      rw [sanitizeFilename_eq, hbase]
      decide
    rw [hname] at h
    exact (h.1.bytes slash (List.mem_singleton.mpr rfl)).2.2.2.2 rfl
  · intro honly
    have helement : slash ∉ pathBase (forwardSlashes (firstLine key)) ∧
        backslash ∉ pathBase (forwardSlashes (firstLine key)) := by
      by_cases hempty : firstLine key = []
      · rw [hempty]
        decide
      · have hmixed : ¬∀ c ∈ forwardSlashes (firstLine key), c = slash := by
          intro hall
          exact honly ⟨hempty, forwardSlashes_slash.mp hall⟩
        obtain ⟨hslash, _, hsubset⟩ := pathBase_element hmixed
        exact ⟨hslash, fun hc => backslash_not_mem_forwardSlashes _ (hsubset _ hc)⟩
    have hclean := (cleanName_keptRunes helement.1 helement.2).trimSpace
    have hresult : CleanName (sanitizeFilename key) ∧
        trimSpace (sanitizeFilename key) = sanitizeFilename key ∧
        ¬(sanitizeFilename key = [] ∨ sanitizeFilename key = [dot] ∨
          sanitizeFilename key = [dot, dot]) := by
      rw [sanitizeFilename_eq]
      dsimp only
      split_ifs with hdots
      · exact ⟨cleanName_download.1, cleanName_download.2, by decide⟩
      · exact ⟨hclean, trimSpace_idem _, hdots⟩
    obtain ⟨hsafe, htrim, hdots⟩ := hresult
    refine ⟨⟨?_, hsafe.bytes, htrim, ?_⟩, sanitizeFilename_eq_self hsafe htrim hdots⟩
    · exact fun hnil => hdots (Or.inl hnil)
    · exact ⟨fun h => hdots (Or.inr (Or.inl h)), fun h => hdots (Or.inr (Or.inr h))⟩

theorem sanitizeFilename_separator :
    sanitizeFilename (str "/") = str "/" ∧
      ¬∀ key, SafeFilename (sanitizeFilename key) ∧
        sanitizeFilename (sanitizeFilename key) = sanitizeFilename key := by
  have hname : sanitizeFilename (str "/") = str "/" := by decide
  refine ⟨hname, ?_⟩
  intro h
  have hbytes := (h (str "/")).1.bytes
  rw [hname] at hbytes
  exact (hbytes slash (by decide)).2.2.2.2 rfl

end PierGateway.WebUI
