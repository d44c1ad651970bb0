import PierGateway.BucketStats
import PierGateway.ByteSizes

/-!
# Every quota entry counts

What `ParseBucketQuotas` makes of its entries. The loop is a map over the entries
that are not blank, and the result reads the last of several entries with one name.
An entry is seen through its name and the text of its size, both without blanks
around them, so two lists that differ in blanks and order only have the same entries.
-/
namespace PierGateway.Settings
open GoStrings GoUnicode Binary64

/-- The comma-separated entries that are not blank. -/
def entries (raw : Str) : List Str := ((split comma raw).map trimSpace).filter (· ≠ [])

/-- The name of an entry, and the text of its size where there is an `=`. -/
def entryParts (pair : Str) : Str × Option Str :=
  (trimSpace (cut equals pair).1, (cut equals pair).2.map trimSpace)

/-- The entry has a name and a size that is read as `bytes`. -/
def Declares (p : Platform) (pair name : Str) (bytes : ℤ) : Prop :=
  ∃ sizeStr, entryParts pair = (name, some sizeStr) ∧ name ≠ [] ∧ sizeStr ≠ [] ∧
    parseByteSize p sizeStr = .ok bytes

def WellFormed (p : Platform) (pair : Str) : Prop := ∃ name bytes, Declares p pair name bytes

section
variable {p : Platform} {pair name : Str} {bytes : ℤ}

theorem Declares.unique {name' : Str} {bytes' : ℤ} (h : Declares p pair name bytes)
    (h' : Declares p pair name' bytes') : name = name' ∧ bytes = bytes' := by
  obtain ⟨sizeStr, hparts, -, -, hsize⟩ := h
  obtain ⟨sizeStr', hparts', -, -, hsize'⟩ := h'
  obtain ⟨hname, hstr⟩ := Prod.mk.inj (hparts.symm.trans hparts')
  obtain rfl := Option.some.inj hstr
  exact ⟨hname, Except.ok.inj (hsize.symm.trans hsize')⟩

theorem Declares.name_eq (h : Declares p pair name bytes) : (entryParts pair).1 = name := by
  obtain ⟨sizeStr, hparts, -⟩ := h
  rw [hparts]

theorem parsePair_ok_iff : parsePair p pair = .ok (name, bytes) ↔ Declares p pair name bytes := by
  unfold parsePair Declares entryParts
  cases hcut : (cut equals pair).2 with
  | none => simp
  | some sizeStr =>
      dsimp only
      by_cases hblank : trimSpace (cut equals pair).1 = [] ∨ trimSpace sizeStr = []
      · rw [if_pos hblank]
        constructor
        · intro h
          cases h
        · rintro ⟨sizeStr', hparts, hname, hne, -⟩
          obtain ⟨rfl, hs⟩ := Prod.mk.inj hparts
          obtain rfl := Option.some.inj hs
          exact absurd hblank (not_or.mpr ⟨hname, hne⟩)
      · rw [if_neg hblank]
        obtain ⟨hname, hne⟩ := not_or.mp hblank
        cases hsize : parseByteSize p (trimSpace sizeStr) with
        | error cause =>
            constructor
            · intro h
              cases h
            · rintro ⟨sizeStr', hparts, -, -, hok⟩
              obtain rfl := Option.some.inj (Prod.mk.inj hparts).2
              rw [hsize] at hok
              cases hok
        | ok bytes' =>
            constructor
            · intro h
              obtain ⟨rfl, rfl⟩ := Prod.mk.inj (Except.ok.inj h)
              exact ⟨_, rfl, hname, hne, hsize⟩
            · rintro ⟨sizeStr', hparts, -, -, hok⟩
              obtain ⟨rfl, hs⟩ := Prod.mk.inj hparts
              obtain rfl := Option.some.inj hs
              rw [Except.ok.inj (hsize.symm.trans hok)]

end

/-! ### The loop -/

/-- The entries one after the other, until one of them fails. -/
def parseEntries (p : Platform) : List Str → Except QuotaError (List (Str × ℤ))
  | [] => .ok []
  | pair :: pairs =>
      match parsePair p pair with
      | .error cause => .error cause
      | .ok entry => (parseEntries p pairs).map (entry :: ·)

theorem foldlM_addQuota (p : Platform) (parts : List Str) (quotas : List (Str × ℤ)) :
    parts.foldlM (addQuota p) quotas =
      (parseEntries p ((parts.map trimSpace).filter (· ≠ []))).map fun read =>
        read.reverse ++ quotas := by
  induction parts generalizing quotas with
  | nil => rfl
  | cons part parts ih =>
      rw [List.foldlM_cons, addQuota]
      by_cases hblank : trimSpace part = []
      · have hskip : ((part :: parts).map trimSpace).filter (· ≠ []) =
            (parts.map trimSpace).filter (· ≠ []) := by simp [hblank]
        rw [if_pos hblank, hskip]
        exact ih quotas
      · rw [if_neg hblank]
        have hcons : ((part :: parts).map trimSpace).filter (· ≠ []) =
            trimSpace part :: (parts.map trimSpace).filter (· ≠ []) := by simp [hblank]
        rw [hcons, parseEntries]
        cases hpair : parsePair p (trimSpace part) with
        | error cause => rfl
        | ok entry =>
            have hrest := ih (entry :: quotas)
            cases hread : parseEntries p ((parts.map trimSpace).filter (· ≠ [])) with
            | error cause =>
                rw [hread] at hrest
                exact hrest
            | ok read =>
                rw [hread] at hrest
                have happend : (entry :: read).reverse ++ quotas =
                    read.reverse ++ entry :: quotas := by
                  simp
                exact hrest.trans (congrArg Except.ok happend.symm)

theorem parseBucketQuotas_eq (p : Platform) (raw : Str) :
    parseBucketQuotas p raw = (parseEntries p (entries raw)).map List.reverse := by
  have htrim : entries (trimSpace raw) = entries raw := by
    unfold entries
    rw [split_trimSpace (by decide) (by decide)]
  unfold parseBucketQuotas
  dsimp only
  split_ifs with hblank
  · rw [← htrim, hblank]
    rfl
  · rw [foldlM_addQuota, ← htrim]
    simp [entries]

/-- The entries are read if and only if every one of them is well formed, and then what is read is
what they declare. -/
theorem parseEntries_cases (p : Platform) (pairs : List Str) :
    ((∃ pair ∈ pairs, ¬WellFormed p pair) ∧ ∃ cause, parseEntries p pairs = .error cause) ∨
      (∀ pair ∈ pairs, WellFormed p pair) ∧ ∃ read, parseEntries p pairs = .ok read ∧
        ∀ name bytes, (name, bytes) ∈ read ↔ ∃ pair ∈ pairs, Declares p pair name bytes := by
  induction pairs with
  | nil => exact .inr ⟨by simp, [], rfl, by simp⟩
  | cons pair pairs ih =>
      rw [parseEntries]
      cases hpair : parsePair p pair with
      | error cause =>
          refine .inl ⟨⟨pair, by simp, ?_⟩, cause, rfl⟩
          rintro ⟨name, bytes, h⟩
          have hok := hpair.symm.trans (parsePair_ok_iff.mpr h)
          cases hok
      | ok entry =>
          have hdeclares : Declares p pair entry.1 entry.2 := parsePair_ok_iff.mp hpair
          rcases ih with ⟨⟨bad, hmem, hbad⟩, cause, herror⟩ | ⟨hall, read, hread, hiff⟩
          · exact .inl ⟨⟨bad, by simp [hmem], hbad⟩, cause, by rw [herror]; rfl⟩
          · refine .inr ⟨?_, entry :: read, by rw [hread]; rfl, fun name bytes => ?_⟩
            · intro pair' hmem
              rcases List.mem_cons.mp hmem with rfl | hmem
              · exact ⟨_, _, hdeclares⟩
              · exact hall pair' hmem
            · rw [List.mem_cons, hiff]
              constructor
              · rintro (rfl | ⟨pair', hmem, h⟩)
                · exact ⟨pair, by simp, hdeclares⟩
                · exact ⟨pair', by simp [hmem], h⟩
              · rintro ⟨pair', hmem, h⟩
                rcases List.mem_cons.mp hmem with rfl | hmem
                · obtain ⟨hname, hbytes⟩ := h.unique hdeclares
                  exact .inl (Prod.ext hname hbytes)
                · exact .inr ⟨pair', hmem, h⟩

/-! ### The law -/

/-- Two outcomes that a caller cannot tell apart but for the text of an error. -/
def SameQuotas (a b : Except QuotaError (List (Str × ℤ))) : Prop :=
  (∃ cause cause', a = .error cause ∧ b = .error cause') ∨
    ∃ quotas quotas', a = .ok quotas ∧ b = .ok quotas' ∧
      ∀ name, quotas.lookup name = quotas'.lookup name

/-- The same entries, in any order and with any blanks and empty entries between them. -/
def SameEntries (raw raw' : Str) : Prop :=
  ((entries raw).map entryParts).Perm ((entries raw').map entryParts)

structure NothingDropped (p : Platform) (raw : Str) : Prop where
  malformed : (∃ pair ∈ entries raw, ¬WellFormed p pair) →
    ∃ cause, parseBucketQuotas p raw = .error cause
  keys : ∀ quotas, parseBucketQuotas p raw = .ok quotas → ∀ name,
    (quotas.lookup name).isSome ↔ name ∈ (entries raw).map fun pair => (entryParts pair).1
  values : ∀ quotas, parseBucketQuotas p raw = .ok quotas → ∀ pair ∈ entries raw,
    ∃ bytes, Declares p pair (entryParts pair).1 bytes ∧
      quotas.lookup (entryParts pair).1 = some bytes
  order : ∀ raw', SameEntries raw raw' →
    SameQuotas (parseBucketQuotas p raw) (parseBucketQuotas p raw')

/-- Entries with one name agree in their sizes. -/
def Agree (p : Platform) (pairs : List Str) : Prop :=
  ∀ pair ∈ pairs, ∀ pair' ∈ pairs, ∀ name bytes bytes', Declares p pair name bytes →
    Declares p pair' name bytes' → bytes = bytes'

theorem lookup_eq_some_iff_mem {α β : Type} [BEq α] [LawfulBEq α] {l : List (α × β)} {a : α}
    (h : ∀ b b', (a, b) ∈ l → (a, b') ∈ l → b = b') {b : β} : l.lookup a = some b ↔ (a, b) ∈ l := by
  have hmem : ∀ {b}, l.lookup a = some b → (a, b) ∈ l := by
    intro b hb
    obtain ⟨l₁, l₂, hl, -⟩ := List.lookup_eq_some_iff.mp hb
    rw [hl]
    simp
  refine ⟨hmem, fun hb => ?_⟩
  cases hl : l.lookup a with
  | none => exact absurd (List.lookup_eq_none_iff.mp hl _ hb) (by simp)
  | some b' => rw [h b b' hb (hmem hl)]

section
variable {p : Platform} {raw raw' : Str}

theorem parseBucketQuotas_cases (p : Platform) (raw : Str) :
    ((∃ pair ∈ entries raw, ¬WellFormed p pair) ∧
        ∃ cause, parseBucketQuotas p raw = .error cause) ∨
      (∀ pair ∈ entries raw, WellFormed p pair) ∧ ∃ quotas, parseBucketQuotas p raw = .ok quotas ∧
        ∀ name bytes, (name, bytes) ∈ quotas ↔
          ∃ pair ∈ entries raw, Declares p pair name bytes := by
  rw [parseBucketQuotas_eq]
  rcases parseEntries_cases p (entries raw) with ⟨hbad, cause, herror⟩ | ⟨hall, read, hread, hiff⟩
  · rw [herror]
    exact .inl ⟨hbad, cause, rfl⟩
  · rw [hread]
    refine .inr ⟨hall, _, rfl, fun name bytes => ?_⟩
    rw [List.mem_reverse]
    exact hiff name bytes

/-- What the entries declare depends on their names and sizes only. -/
theorem SameEntries.declares (h : SameEntries raw raw') {pair : Str} (hmem : pair ∈ entries raw) :
    ∃ pair' ∈ entries raw', ∀ name bytes, Declares p pair' name bytes ↔
        Declares p pair name bytes := by
  have hparts : entryParts pair ∈ (entries raw').map entryParts :=
    h.mem_iff.mp (List.mem_map_of_mem hmem)
  obtain ⟨pair', hmem', heq⟩ := List.mem_map.mp hparts
  refine ⟨pair', hmem', fun name bytes => ?_⟩
  unfold Declares
  rw [heq]

theorem SameEntries.symm (h : SameEntries raw raw') : SameEntries raw' raw := List.Perm.symm h

theorem SameEntries.wellFormed (h : SameEntries raw raw')
    (hall : ∀ pair ∈ entries raw, WellFormed p pair) :
    ∀ pair ∈ entries raw', WellFormed p pair := by
  intro pair' hmem'
  obtain ⟨pair, hmem, hiff⟩ := h.symm.declares (p := p) hmem'
  obtain ⟨name, bytes, hd⟩ := hall pair hmem
  exact ⟨name, bytes, (hiff name bytes).mp hd⟩

theorem SameEntries.exists_declares_iff (h : SameEntries raw raw') {name : Str} {bytes : ℤ} :
    (∃ pair ∈ entries raw, Declares p pair name bytes) ↔
      ∃ pair ∈ entries raw', Declares p pair name bytes := by
  have himp : ∀ {raw raw' : Str}, SameEntries raw raw' →
      (∃ pair ∈ entries raw, Declares p pair name bytes) →
        ∃ pair ∈ entries raw', Declares p pair name bytes := by
    rintro raw raw' hsame ⟨pair, hmem, hd⟩
    obtain ⟨pair', hmem', hiff⟩ := hsame.declares (p := p) hmem
    exact ⟨pair', hmem', (hiff name bytes).mpr hd⟩
  exact ⟨himp h, himp h.symm⟩

/-- Where the entries with one name agree, a quota is what they declare. -/
theorem lookup_iff_of_agree {pairs : List Str} (hagree : Agree p pairs) {quotas : List (Str × ℤ)}
    (hiff : ∀ name bytes, (name, bytes) ∈ quotas ↔ ∃ pair ∈ pairs, Declares p pair name bytes)
    (name : Str) (bytes : ℤ) :
    quotas.lookup name = some bytes ↔ ∃ pair ∈ pairs, Declares p pair name bytes := by
  rw [lookup_eq_some_iff_mem, hiff]
  intro b b' hb hb'
  obtain ⟨pair, hmem, hd⟩ := (hiff name b).mp hb
  obtain ⟨pair', hmem', hd'⟩ := (hiff name b').mp hb'
  exact hagree pair hmem pair' hmem' name b b' hd hd'

theorem isSome_lookup_iff_mem_names {pairs : List Str} (hall : ∀ pair ∈ pairs, WellFormed p pair)
    {quotas : List (Str × ℤ)}
    (hiff : ∀ name bytes, (name, bytes) ∈ quotas ↔ ∃ pair ∈ pairs, Declares p pair name bytes)
    (name : Str) :
    (quotas.lookup name).isSome ↔ name ∈ pairs.map fun pair => (entryParts pair).1 := by
  rw [Option.isSome_iff_ne_none, ne_eq, List.lookup_eq_none_iff, List.mem_map]
  constructor
  · intro h
    push Not at h
    obtain ⟨⟨name', bytes⟩, hmem, heq⟩ := h
    obtain rfl : name = name' := by simpa using heq
    obtain ⟨pair, hpair, hd⟩ := (hiff name bytes).mp hmem
    exact ⟨pair, hpair, hd.name_eq⟩
  · rintro ⟨pair, hpair, hname⟩ h
    obtain ⟨name', bytes, hd⟩ := hall pair hpair
    have hmem := (hiff name' bytes).mpr ⟨pair, hpair, hd⟩
    exact absurd (h _ hmem) (by simp [← hname, hd.name_eq])

theorem sameQuotas_of_agree
    (hagree : (∀ pair ∈ entries raw, WellFormed p pair) → Agree p (entries raw))
    (h : SameEntries raw raw') :
    SameQuotas (parseBucketQuotas p raw) (parseBucketQuotas p raw') := by
  rcases parseBucketQuotas_cases p raw with ⟨hbad, cause, herror⟩ | ⟨hall, quotas, hok, hiff⟩
  · rcases parseBucketQuotas_cases p raw' with ⟨-, cause', herror'⟩ | ⟨hall', -⟩
    · exact .inl ⟨cause, cause', herror, herror'⟩
    · obtain ⟨pair, hmem, hnot⟩ := hbad
      exact absurd (h.symm.wellFormed hall' pair hmem) hnot
  · rcases parseBucketQuotas_cases p raw' with ⟨hbad', -⟩ | ⟨-, quotas', hok', hiff'⟩
    · obtain ⟨pair, hmem, hnot⟩ := hbad'
      exact absurd (h.wellFormed hall pair hmem) hnot
    · refine .inr ⟨quotas, quotas', hok, hok', fun name => Option.ext fun bytes => ?_⟩
      have hiff'' : ∀ name bytes, (name, bytes) ∈ quotas' ↔
          ∃ pair ∈ entries raw, Declares p pair name bytes := by
        intro name bytes
        rw [hiff', h.exists_declares_iff]
      rw [lookup_iff_of_agree (hagree hall) hiff, lookup_iff_of_agree (hagree hall) hiff'']

end

theorem NothingDropped.agree {p : Platform} {raw : Str} (h : NothingDropped p raw)
    (hall : ∀ pair ∈ entries raw, WellFormed p pair) : Agree p (entries raw) := by
  intro pair hpair pair' hpair' name bytes bytes' hd hd'
  rcases parseBucketQuotas_cases p raw with ⟨⟨bad, hmem, hbad⟩, -⟩ | ⟨-, quotas, hok, -⟩
  · exact absurd (hall bad hmem) hbad
  · have hvalue : ∀ pair ∈ entries raw, ∀ bytes, Declares p pair name bytes →
        quotas.lookup name = some bytes := by
      intro pair hpair bytes hd
      obtain ⟨own, hown, hlookup⟩ := h.values quotas hok pair hpair
      rw [hd.name_eq] at hlookup
      rw [hlookup, (hown.unique hd).2]
    have hboth := (hvalue pair hpair bytes hd).symm.trans (hvalue pair' hpair' bytes' hd')
    exact Option.some.inj hboth

/-- No entry is lost if and only if the list has a malformed entry, which is an error, or its
entries with one name agree. -/
theorem nothingDropped_iff (p : Platform) (raw : Str) :
    NothingDropped p raw ↔
      ((∀ pair ∈ entries raw, WellFormed p pair) → Agree p (entries raw)) := by
  constructor
  · exact NothingDropped.agree
  · intro hagree
    have horder : ∀ raw', SameEntries raw raw' →
        SameQuotas (parseBucketQuotas p raw) (parseBucketQuotas p raw') :=
      fun raw' => sameQuotas_of_agree hagree
    rcases parseBucketQuotas_cases p raw with ⟨-, cause, herror⟩ | ⟨hall, quotas, hok, hiff⟩
    · have hnot : ∀ quotas, parseBucketQuotas p raw ≠ .ok quotas := by
        intro quotas hok
        cases herror.symm.trans hok
      exact ⟨fun _ => ⟨cause, herror⟩, fun quotas hok => absurd hok (hnot quotas),
        fun quotas hok => absurd hok (hnot quotas), horder⟩
    · refine ⟨fun ⟨bad, hmem, hbad⟩ => absurd (hall bad hmem) hbad, ?_, ?_, horder⟩
      · intro quotas' hok' name
        obtain rfl := Except.ok.inj (hok.symm.trans hok')
        exact isSome_lookup_iff_mem_names hall hiff name
      · intro quotas' hok' pair hpair
        obtain rfl := Except.ok.inj (hok.symm.trans hok')
        obtain ⟨name, bytes, hd⟩ := hall pair hpair
        have hname := hd.name_eq
        refine ⟨bytes, hname ▸ hd, ?_⟩
        rw [hname]
        exact (lookup_iff_of_agree (hagree hall) hiff name bytes).mpr ⟨pair, hpair, hd⟩

theorem declares_digit (p : Platform) {pair name : Str} {n : ℕ} {text : Str} (hn : n < 10)
    (hparts : entryParts pair = (name, some text)) (hname : name ≠ []) (htext : text ≠ [])
    (hsize : sizeParts text = (text, [])) (hread : readLiteral text = some (.finite n)) :
    Declares p pair name n := by
  have hdenotes : Denotes text n 1 := by
    constructor
    · rw [hsize]
      rfl
    · rw [hsize]
      exact hread
  have hfits : (n * (1 : ℕ) : ℤ) ≤ maxInt64 := by
    unfold maxInt64
    omega
  have hbytes := parseByteSize_natCast p hdenotes (by omega) hfits
  rw [Nat.cast_one, mul_one] at hbytes
  exact ⟨text, hparts, hname, htext, hbytes⟩

/-- The first of two sizes for one bucket is lost without an error. -/
theorem repeated_name_dropped :
    ¬NothingDropped (constantPlatform (-2 ^ 63) (by decide)) (str "a=1,a=2") := by
  intro h
  have hentries : entries (str "a=1,a=2") = [str "a=1", str "a=2"] := by decide
  have hone : ∀ p, Declares p (str "a=1") (str "a") (1 : ℕ) := by
    intro p
    have hparts : entryParts (str "a=1") = (str "a", some (str "1")) := by decide +kernel
    exact declares_digit p (by omega) hparts (by decide) (by decide) (by decide +kernel)
      (by decide +kernel)
  have htwo : ∀ p, Declares p (str "a=2") (str "a") (2 : ℕ) := by
    intro p
    have hparts : entryParts (str "a=2") = (str "a", some (str "2")) := by decide
    exact declares_digit p (by omega) hparts (by decide) (by decide) (by decide)
      (by decide +kernel)
  have hagree := h.agree (by
    rw [hentries]
    simpa using ⟨⟨_, _, hone _⟩, ⟨_, _, htwo _⟩⟩)
  rw [hentries] at hagree
  have hsame := hagree _ (by simp) _ (by simp) _ _ _ (hone _) (htwo _)
  cases hsame

end PierGateway.Settings
