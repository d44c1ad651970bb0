import PierGateway.ContentSecurity
import PierGateway.RuneLaws

/-!
# The media types a browser reads

The gateway reads one media type from a stored value, the text in front of its first
semicolon; a browser reads a list. The two agree on a value without a comma. On a list
whose text up to the first semicolon is harmless as a whole, an active element passes.
-/
namespace PierGateway.WebUI
open GoStrings GoUnicode

/-- The media types a browser can take from a value: one for each element of the list. -/
def browserTypes (value : Str) : List Str :=
  (split comma value).map fun element => toLower (trimSpace (cut semicolon element).1)

/-- What is served inline has no active type in it, and what is emitted stays as it is. -/
structure ServedSafely (upstream : Str) : Prop where
  inactive : (neutralizeContentType upstream).isInline = true →
    ∀ media ∈ browserTypes (neutralizeContentType upstream).contentType,
      media ∉ activeContentTypes ∧ hasSuffix media (str "+xml") = false
  stable : (neutralizeContentType (neutralizeContentType upstream).contentType).contentType =
    (neutralizeContentType upstream).contentType

theorem isActiveContentType_eq_false {media : Str} : isActiveContentType media = false ↔
    media ∉ activeContentTypes ∧ hasSuffix media (str "+xml") = false := by
  unfold isActiveContentType
  by_cases h : media ∈ activeContentTypes <;> simp [h]

/-- What is emitted is the inert type or the stored value, the latter only inline. -/
theorem neutralizeContentType_cases (upstream : Str) :
    (neutralizeContentType upstream).contentType = octetStream ∧
      (bareMediaType upstream = [] ∨ isActiveContentType (bareMediaType upstream) = true) ∨
    neutralizeContentType upstream = ⟨upstream, true⟩ ∧ bareMediaType upstream ≠ [] ∧
      isActiveContentType (bareMediaType upstream) = false := by
  unfold neutralizeContentType
  split_ifs with hblank hactive
  · exact Or.inl ⟨rfl, Or.inl hblank⟩
  · exact Or.inl ⟨rfl, Or.inr hactive⟩
  · exact Or.inr ⟨rfl, hblank, by simpa using hactive⟩

theorem browserTypes_octetStream : ∀ media ∈ browserTypes octetStream,
    isActiveContentType media = false := by decide

theorem neutralizeContentType_octetStream :
    (neutralizeContentType octetStream).contentType = octetStream := by decide

theorem browserTypes_of_no_comma {value : Str} (h : comma ∉ value)
    (hblank : bareMediaType value ≠ []) : browserTypes value = [bareMediaType value] := by
  have htrim : trimSpace value ≠ [] := by
    intro hnil
    exact hblank (by rw [bareMediaType, if_pos hnil])
  rw [browserTypes, split_of_not_mem comma h, List.map_singleton, bareMediaType, if_neg htrim,
    trimSpace_cut (by decide) (by decide)]

/-- A stored value is served safely unless it is a list with an active element whose text
up to the first semicolon is neither blank nor active. -/
theorem servedSafely_iff (upstream : Str) :
    ServedSafely upstream ↔
      ¬(comma ∈ upstream ∧ bareMediaType upstream ≠ [] ∧
        isActiveContentType (bareMediaType upstream) = false ∧
        ∃ media ∈ browserTypes upstream, isActiveContentType media = true) := by
  rcases neutralizeContentType_cases upstream with ⟨hemitted, hread⟩ | ⟨hemitted, hblank, hbare⟩
  · constructor
    · intro _ hlist
      obtain ⟨_, hblank, hinactive, _⟩ := hlist
      rcases hread with hnil | hactive
      · exact hblank hnil
      · rw [hinactive] at hactive
        cases hactive
    · intro _
      refine ⟨?_, ?_⟩
      · intro _ media hmedia
        rw [hemitted] at hmedia
        exact isActiveContentType_eq_false.mp (browserTypes_octetStream media hmedia)
      · rw [hemitted]
        exact neutralizeContentType_octetStream
  · constructor
    · intro h hlist
      obtain ⟨_, _, _, media, hmedia, hactive⟩ := hlist
      have hinactive := h.inactive (by rw [hemitted]) media (by rw [hemitted]; exact hmedia)
      rw [isActiveContentType_eq_false.mpr hinactive] at hactive
      cases hactive
    · intro hlist
      refine ⟨?_, ?_⟩
      · intro _ media hmedia
        rw [hemitted] at hmedia
        rw [← isActiveContentType_eq_false]
        by_cases hcomma : comma ∈ upstream
        · by_contra hactive
          exact hlist ⟨hcomma, hblank, hbare, media, hmedia, by simpa using hactive⟩
        · rw [browserTypes_of_no_comma hcomma hblank, List.mem_singleton] at hmedia
          rw [hmedia]
          exact hbare
      · rw [hemitted, hemitted]

theorem servedSafely_list :
    neutralizeContentType (str "text/plain, text/html") = ⟨str "text/plain, text/html", true⟩ ∧
      ¬∀ upstream, ServedSafely upstream := by
  have hemitted : neutralizeContentType (str "text/plain, text/html") =
      ⟨str "text/plain, text/html", true⟩ := by decide
  refine ⟨hemitted, ?_⟩
  intro h
  have hinactive := (h (str "text/plain, text/html")).inactive
  rw [hemitted] at hinactive
  have hmem : str "text/html" ∈ browserTypes (str "text/plain, text/html") := by decide
  exact (hinactive rfl _ hmem).1 (by decide)

end PierGateway.WebUI
