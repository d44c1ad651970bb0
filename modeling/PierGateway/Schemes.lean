import PierGateway.GoUnicode
import PierGateway.NetUrl

/-!
# Schemes and blank text

The scheme of a URL as text: what stands before the first colon when only scheme
characters do. The parser returns it in lower case, and text appended behind a
slash does not change it. Text is blank when nothing is left of it after trimming.
-/
namespace PierGateway.Schemes
open GoStrings GoUnicode NetUrl

/-! ### Blank text -/

def Blank (s : Str) : Prop := trimSpace s = []

instance (s : Str) : Decidable (Blank s) := inferInstanceAs (Decidable (_ = _))

theorem mem_dropWhile_of_not {α : Type*} {p : α → Bool} {x : α} {l : List α} (hx : x ∈ l)
    (hp : ¬p x = true) : x ∈ l.dropWhile p := by
  rw [← List.takeWhile_append_dropWhile (p := p) (l := l), List.mem_append] at hx
  exact hx.resolve_left fun h => hp (List.mem_takeWhile_imp h)

theorem mem_rdropWhile_of_not {α : Type*} {p : α → Bool} {x : α} {l : List α} (hx : x ∈ l)
    (hp : ¬p x = true) : x ∈ l.rdropWhile p := by
  rw [List.rdropWhile, List.mem_reverse]
  exact mem_dropWhile_of_not (List.mem_reverse.mpr hx) hp

/-- A byte of ASCII that is no space keeps text from being blank. -/
theorem not_blank_of_mem {s : Str} {c : UInt8} (hc : c < 0x80) (hspace : ¬isSpace c.toNat = true)
    (hs : c ∈ s) : ¬Blank s := by
  intro h
  have hrune := mem_rdropWhile_of_not (p := fun r : Rune => isSpace r.value)
    (mem_dropWhile_of_not (p := fun r : Rune => isSpace r.value) (mem_runes_of_ascii hc hs) hspace)
    hspace
  have hmem : c ∈ trimSpace s := List.mem_flatMap.mpr ⟨_, hrune, by simp⟩
  rw [h] at hmem
  exact List.not_mem_nil hmem

theorem blank_nil : Blank [] := rfl

/-! ### Schemes -/

/-- The scheme of the text before the fragment, in lower case; `none` when it is missing
before a colon. -/
def urlScheme (raw : Str) : Option Str :=
  (getScheme (cut sharp raw).1).map fun r => lowerAscii r.1

theorem addFragment_scheme {u v : URL} {f : Option Str} (h : u.addFragment f = some v) :
    v.scheme = u.scheme := by
  unfold URL.addFragment at h
  split at h
  · rw [← Option.some.inj h]
  · rw [← Option.some.inj h]
  · obtain ⟨frag, -, rfl⟩ := Option.map_eq_some_iff.mp h
    rfl

theorem setPath_scheme {u v : URL} {p : Str} (h : u.setPath p = some v) : v.scheme = u.scheme := by
  obtain ⟨path, -, rfl⟩ := Option.map_eq_some_iff.mp h
  rfl

theorem parseHier_scheme {viaRequest : Bool} {u v : URL} {rest : Str}
    (h : parseHier viaRequest u rest = some v) : v.scheme = u.scheme := by
  unfold parseHier at h
  split_ifs at h
  · dsimp only at h
    split at h
    · cases h
    · rw [setPath_scheme h]
  · rw [setPath_scheme h]
  · rw [setPath_scheme h]

theorem urlScheme_of_parse {raw : Str} {u : URL} (h : urlParse raw = some u) :
    urlScheme raw = some u.scheme := by
  obtain ⟨v, hparse, hfrag⟩ := Option.bind_eq_some_iff.mp h
  rw [addFragment_scheme hfrag]
  unfold urlScheme
  generalize (cut sharp raw).1 = text at hparse
  by_cases htext : text = str "*"
  · have hstar : getScheme (str "*") = some ([], str "*") ∧
        parse false (str "*") = some { path := str "*" } := by
      decide
    rw [htext, hstar.2] at hparse
    rw [htext, hstar.1, ← Option.some.inj hparse]
    rfl
  unfold parse at hparse
  simp only [Bool.false_eq_true, and_false, if_false, if_neg htext] at hparse
  split_ifs at hparse
  cases hget : getScheme text with
  | none =>
      rw [hget] at hparse
      cases hparse
  | some r =>
      obtain ⟨scheme, rest⟩ := r
      rw [hget] at hparse
      rw [Option.map_some]
      dsimp only at hparse
      split_ifs at hparse
      · rw [parseHier_scheme hparse]
      · rw [← Option.some.inj hparse]
      · rw [parseHier_scheme hparse]

/-- The scheme is settled by the text before a slash. -/
theorem getSchemeAux_slash (raw raw' seen p s : Str) :
    (getSchemeAux raw seen (p ++ slash :: s)).map Prod.fst =
      (getSchemeAux raw' seen p).map Prod.fst := by
  induction p generalizing seen with
  | nil =>
      have hslash : ¬isAlpha slash = true ∧ ¬(isDigit slash || slash ∈ str "+-.") = true ∧
          slash ≠ colon := by
        decide
      have hhere : getSchemeAux raw seen (slash :: s) = some ([], raw) := by
        rw [getSchemeAux, if_neg hslash.1, if_neg hslash.2.1, if_neg hslash.2.2]
      rw [List.nil_append, hhere]
      rfl
  | cons c p ih =>
      rw [List.cons_append, getSchemeAux, getSchemeAux]
      split_ifs
      · exact ih _
      · rfl
      · exact ih _
      · rfl
      · rfl
      · rfl

theorem getScheme_slash (p s : Str) :
    (getScheme (p ++ slash :: s)).map (fun r => lowerAscii r.1) =
      (getScheme p).map fun r => lowerAscii r.1 := by
  have h := congrArg (Option.map lowerAscii) (getSchemeAux_slash (p ++ slash :: s) p [] p s)
  rwa [Option.map_map, Option.map_map] at h

theorem trimRight_cases (c : UInt8) (s : Str) :
    s = trimRight c s ∨ ∃ t, s = trimRight c s ++ c :: t := by
  have hs := List.rdropWhile_append_rtakeWhile (p := fun d => d == c) (l := s)
  have htake : ∀ d ∈ s.rtakeWhile (fun d => d == c), d = c := by
    intro d hd
    simpa using List.mem_rtakeWhile_imp hd
  cases ht : s.rtakeWhile (fun d => d == c) with
  | nil =>
      rw [ht, List.append_nil] at hs
      exact .inl hs.symm
  | cons d t =>
      rw [ht] at hs htake
      obtain rfl := htake d List.mem_cons_self
      exact .inr ⟨t, hs.symm⟩

theorem urlScheme_slash (p s : Str) : urlScheme (p ++ slash :: s) = urlScheme p := by
  unfold urlScheme
  obtain ⟨hp, he⟩ | ⟨q, t, hq, rfl, he⟩ := cut_cases sharp p
  · rw [he]
    dsimp only
    obtain ⟨hs, he'⟩ | ⟨q', t', hq', hs, he'⟩ := cut_cases sharp s
    · have hnot : sharp ∉ p ++ slash :: s := by simp [hp, hs, sharp, slash]
      rw [cut_of_not_mem sharp hnot]
      exact getScheme_slash p s
    · have hnot : sharp ∉ p ++ slash :: q' := by simp [hp, hq', sharp, slash]
      have htext : p ++ slash :: s = (p ++ slash :: q') ++ sharp :: t' := by simp [hs]
      rw [htext, cut_append sharp hnot]
      exact getScheme_slash p q'
  · have htext : q ++ sharp :: t ++ slash :: s = q ++ sharp :: (t ++ slash :: s) := by simp
    rw [he, htext, cut_append sharp hq]

/-- Trimming slashes and appending a path leaves the scheme of a base URL alone. -/
theorem urlScheme_trimRight (base s : Str) :
    urlScheme (trimRight slash base ++ slash :: s) = urlScheme base := by
  rw [urlScheme_slash]
  rcases trimRight_cases slash base with h | ⟨t, h⟩
  · rw [← h]
  · conv_rhs => rw [h]
    exact (urlScheme_slash _ t).symm

/-! ### Lower case of scheme characters -/

theorem ascii_facts (c : UInt8) :
    (c < 0x80 → lowerByte c < 0x80 ∧ encodeRune (toLowerRune (lowerByte c).toNat) = [lowerByte c]) ∧
      (isAlpha c = true ∨ (isDigit c || c ∈ str "+-.") = true → c < 0x80) := by
  revert c
  exact forall_byte (P := fun c => (c < 0x80 → lowerByte c < 0x80 ∧
      encodeRune (toLowerRune (lowerByte c).toNat) = [lowerByte c]) ∧
    (isAlpha c = true ∨ (isDigit c || c ∈ str "+-.") = true → c < 0x80)) (by decide +kernel)

theorem toLower_lowerAscii {s : Str} (hs : ∀ c ∈ s, c < 0x80) :
    toLower (lowerAscii s) = lowerAscii s := by
  induction s with
  | nil => rfl
  | cons c s ih =>
      obtain ⟨hlower, hencode⟩ := (ascii_facts c).1 (hs c List.mem_cons_self)
      have htail := ih fun d hd => hs d (List.mem_cons_of_mem _ hd)
      have hstep : toLower (lowerByte c :: lowerAscii s) =
          encodeRune (toLowerRune (lowerByte c).toNat) ++ toLower (lowerAscii s) := by
        unfold toLower
        rw [runes_cons hlower, List.flatMap_cons]
      have hcons : lowerAscii (c :: s) = lowerByte c :: lowerAscii s := rfl
      rw [hcons, hstep, hencode, htail]
      rfl

theorem getSchemeAux_ascii {raw seen s scheme rest : Str} (hseen : ∀ c ∈ seen, c < 0x80)
    (h : getSchemeAux raw seen s = some (scheme, rest)) : ∀ c ∈ scheme, c < 0x80 := by
  have hempty : ∀ r : Str × Str, some (([] : Str), raw) = some r → ∀ c ∈ r.1, c < 0x80 := by
    intro r hr c hc
    rw [← Option.some.inj hr] at hc
    exact absurd hc List.not_mem_nil
  induction s generalizing seen with
  | nil => exact hempty _ h
  | cons d s ih =>
      have hsnoc : d < 0x80 → ∀ c ∈ seen ++ [d], c < 0x80 := by
        intro hd c hc
        rcases List.mem_append.mp hc with hc | hc
        · exact hseen c hc
        · exact List.mem_singleton.mp hc ▸ hd
      rw [getSchemeAux] at h
      split_ifs at h with halpha hother hfirst hcolon
      · exact ih (hsnoc ((ascii_facts d).2 (.inl halpha))) h
      · exact hempty _ h
      · exact ih (hsnoc ((ascii_facts d).2 (.inr hother))) h
      · rw [← (Prod.mk.inj (Option.some.inj h)).1]
        exact hseen
      · exact hempty _ h

/-- Lower-casing the scheme of a parsed URL once more changes nothing. -/
theorem toLower_scheme {raw : Str} {u : URL} (h : urlParse raw = some u) :
    toLower u.scheme = u.scheme := by
  obtain ⟨⟨scheme, rest⟩, hget, hu⟩ := Option.map_eq_some_iff.mp (urlScheme_of_parse h)
  rw [← hu]
  exact toLower_lowerAscii (getSchemeAux_ascii (by simp) hget)

end PierGateway.Schemes
