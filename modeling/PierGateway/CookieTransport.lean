import PierGateway.AppPolicy
import PierGateway.TokenExchange

/-!
# Cookies there and back

A cookie goes out in a header of its own, is kept by the browser as it was written and
comes back among others on one line. What the server writes is not always what the
handler gave it: bytes that no cookie may hold are dropped, and a value with a space or
a comma is put in quotes. What the server reads takes the quotes off again.
-/
namespace PierGateway.WebUI
open GoStrings HttpMessages

/-- A cookie as `http.SetCookie` writes it. -/
def Cookie.written (c : Cookie) : Cookie := { c with value := sentValue c.value }

/-- The line of the cookies that are sent. -/
def cookieLine (cookies : List (Str × Str)) : Str :=
  (str "; ").intercalate (cookies.map fun c => c.1 ++ equals :: c.2)

/-- What the server reads back of a value it has set. -/
def readBack (v : Str) : Str := v.filter validCookieValueByte

/-- The blanks of `trimString`. -/
def blanks : Str := [0x20, 0x09, 0x0A, 0x0D]

theorem trimString_of_ends {s : Str} (hhead : ∀ c ∈ s.head?, c ∉ blanks)
    (hlast : ∀ c ∈ s.getLast?, c ∉ blanks) : trimString s = s := by
  unfold trimString
  dsimp only
  have hdrop :
      s.dropWhile (fun c : UInt8 => decide (c ∈ ([0x20, 0x09, 0x0A, 0x0D] : Str))) = s := by
    cases s with
    | nil => rfl
    | cons c t => exact List.dropWhile_cons_of_neg (by simpa [blanks] using hhead c rfl)
  rw [hdrop, List.rdropWhile_eq_self_iff]
  intro hne
  have hend := hlast _ (List.getLast?_eq_some_getLast hne)
  simpa [blanks] using hend

/-- What is written has no semicolon and does not end in a blank. -/
theorem sentValue_plain (v : Str) :
    semicolon ∉ sentValue v ∧ ∀ c ∈ (sentValue v).getLast?, c ∉ blanks := by
  have hvalid : ∀ c ∈ v.filter validCookieValueByte, validCookieValueByte c = true := fun c hc =>
    (List.mem_filter.mp hc).2
  have hsemicolon : semicolon ∉ v.filter validCookieValueByte := by
    intro hmem
    have hbad := hvalid _ hmem
    cases hbad
  unfold sentValue
  generalize v.filter validCookieValueByte = kept at hvalid hsemicolon ⊢
  dsimp only
  split_ifs with hquoted
  · constructor
    · have hquote : semicolon ≠ 0x22 := by decide
      simpa [hquote] using hsemicolon
    · intro c hc
      rw [List.getLast?_concat] at hc
      obtain rfl := Option.some.inj hc
      decide
  · refine ⟨hsemicolon, fun c hc hblank => ?_⟩
    have hmem := List.mem_of_getLast? hc
    have hkept := hvalid c hmem
    simp only [blanks, List.mem_cons, List.not_mem_nil, or_false] at hblank
    rcases hblank with rfl | rfl | rfl | rfl
    · exact hquoted (.inl hmem)
    all_goals cases hkept

/-! ### One line of cookies -/

/-- A cookie that can be on a line: its name is a token, its value as the server wrote it. -/
structure Sendable (c : Str × Str) : Prop where
  name_ne : c.1 ≠ []
  name_token : c.1.all tokenByte = true
  value : ∃ v, c.2 = sentValue v

/-- What the server reads for a cookie as it is sent. -/
def valueRead (raw : Str) : Str := (parseCookieValue raw).getD []

theorem valueRead_sentValue (v : Str) : valueRead (sentValue v) = readBack v := by
  unfold valueRead
  rw [parseCookieValue_sentValue]
  rfl

theorem tokenByte_plain : tokenByte semicolon = false ∧ tokenByte equals = false ∧
    ∀ b ∈ blanks, tokenByte b = false := by
  refine ⟨by decide, by decide, fun b hb => ?_⟩
  simp only [blanks, List.mem_cons, List.not_mem_nil, or_false] at hb
  rcases hb with rfl | rfl | rfl | rfl
  all_goals decide

namespace Sendable
variable {c : Str × Str}

theorem name_plain (h : Sendable c) {b : UInt8} (hb : tokenByte b = false) : b ∉ c.1 := by
  intro hmem
  rw [List.all_eq_true.mp h.name_token b hmem] at hb
  cases hb

theorem text_plain (h : Sendable c) :
    semicolon ∉ c.1 ++ equals :: c.2 ∧ (∀ b ∈ (c.1 ++ equals :: c.2).head?, b ∉ blanks) ∧
      ∀ b ∈ (c.1 ++ equals :: c.2).getLast?, b ∉ blanks := by
  obtain ⟨v, hv⟩ := h.value
  obtain ⟨hsemicolon, hlast⟩ := sentValue_plain v
  rw [← hv] at hsemicolon hlast
  refine ⟨?_, ?_, ?_⟩
  · have hne : semicolon ≠ equals := by decide
    simp [h.name_plain tokenByte_plain.1, hne, hsemicolon]
  · intro b hb hblank
    obtain ⟨d, name, hname⟩ := List.exists_cons_of_ne_nil h.name_ne
    rw [hname] at hb
    obtain rfl := Option.some.inj hb
    exact h.name_plain (tokenByte_plain.2.2 d hblank) (by simp [hname])
  · intro b hb
    by_cases hnil : c.2 = []
    · rw [hnil, List.getLast?_concat] at hb
      obtain rfl := Option.some.inj hb
      decide
    · apply hlast b
      rwa [List.getLast?_append_of_ne_nil _ (List.cons_ne_nil _ _),
        List.getLast?_cons_of_ne_nil hnil] at hb

theorem cookiePart_text (h : Sendable c) :
    cookiePart (c.1 ++ equals :: c.2) = some (c.1, valueRead c.2) := by
  obtain ⟨v, hv⟩ := h.value
  obtain ⟨-, hhead, hlast⟩ := h.text_plain
  have hname : trimString c.1 = c.1 := by
    apply trimString_of_ends
    · intro b hb hblank
      exact h.name_plain (tokenByte_plain.2.2 b hblank) (List.mem_of_mem_head? hb)
    · intro b hb hblank
      exact h.name_plain (tokenByte_plain.2.2 b hblank) (List.mem_of_getLast? hb)
  have hcut := cut_append equals (h.name_plain tokenByte_plain.2.1) c.2
  unfold cookiePart
  dsimp only
  rw [trimString_of_ends hhead hlast, hcut, hname, if_pos ⟨h.name_ne, h.name_token⟩, hv]
  dsimp only
  rw [Option.getD_some, parseCookieValue_sentValue, valueRead_sentValue]
  rfl

end Sendable

theorem filterMap_cookieParts {cookies : List (Str × Str)} (h : ∀ c ∈ cookies, Sendable c) :
    (cookies.map fun c => space :: (c.1 ++ equals :: c.2)).filterMap cookiePart
      = cookies.map fun c => (c.1, valueRead c.2) := by
  induction cookies with
  | nil => rfl
  | cons c cookies ih =>
      have hfirst : cookiePart (space :: (c.1 ++ equals :: c.2)) = some (c.1, valueRead c.2) :=
        (h c List.mem_cons_self).cookiePart_text
      rw [List.map_cons, List.filterMap_cons_some hfirst,
        ih fun c' hc' => h c' (List.mem_cons_of_mem _ hc'), List.map_cons]

theorem head?_cookieLine (c : Str × Str) (cookies : List (Str × Str)) :
    (cookieLine (c :: cookies)).head? = (c.1 ++ equals :: c.2).head? := by
  unfold cookieLine
  cases cookies with
  | nil => simp
  | cons d ds =>
      rw [List.map_cons, List.map_cons, List.intercalate_cons_cons, List.append_assoc,
        List.head?_append]
      cases c.1 <;> rfl

theorem getLast?_cookieLine (cookies : List (Str × Str)) (c : Str × Str) :
    (cookieLine (cookies ++ [c])).getLast? = (c.1 ++ equals :: c.2).getLast? := by
  have hsingle : (str "; ").intercalate [c.1 ++ equals :: c.2] = c.1 ++ equals :: c.2 := by simp
  have hne : c.1 ++ equals :: c.2 ≠ [] := by simp
  unfold cookieLine
  rw [List.map_append, List.map_singleton]
  by_cases hnil : cookies = []
  · rw [hnil, List.map_nil, List.nil_append, hsingle]
  · rw [intercalate_append (by simpa using hnil) (List.cons_ne_nil _ _), hsingle,
      ← List.append_assoc, List.getLast?_append_of_ne_nil _ hne]

/-- The text of parts is cut into them again, each but the first with a space in front. -/
theorem intercalate_parts (p : Str) (ps : List Str) :
    (str "; ").intercalate (p :: ps) = join semicolon (p :: ps.map (space :: ·)) := by
  induction ps generalizing p with
  | nil => simp [join]
  | cons q qs ih =>
      have hsep : str "; " = [semicolon, space] := rfl
      have hspace : [semicolon].intercalate ((space :: q) :: qs.map (space :: ·)) =
          space :: [semicolon].intercalate (q :: qs.map (space :: ·)) :=
        List.intercalate_cons_cons_left
      rw [List.map_cons, join_cons_cons, List.intercalate_cons_cons, ih, hsep]
      simp [join, hspace]

/-- The server reads from a line the cookies that were put on it, in order. -/
theorem readCookies_line {r : Header} {cookies : List (Str × Str)} (hne : cookies ≠ [])
    (hsend : ∀ c ∈ cookies, Sendable c) (hr : r.values (str "Cookie") = [cookieLine cookies]) :
    readCookies r = cookies.map fun c => (c.1, valueRead c.2) := by
  have hends : trimString (cookieLine cookies) = cookieLine cookies := by
    apply trimString_of_ends
    · obtain ⟨c, cs, rfl⟩ := List.exists_cons_of_ne_nil hne
      rw [head?_cookieLine]
      exact (hsend c List.mem_cons_self).text_plain.2.1
    · obtain ⟨init, last, rfl⟩ := (List.eq_nil_or_concat' cookies).resolve_left hne
      rw [getLast?_cookieLine]
      exact (hsend last (by simp)).text_plain.2.2
  have hlines : readCookies r = (split semicolon (cookieLine cookies)).filterMap cookiePart := by
    unfold readCookies
    rw [hr, List.flatMap_singleton, hends]
  obtain ⟨c, cs, rfl⟩ := List.exists_cons_of_ne_nil hne
  have hparts : ∀ p ∈ (c.1 ++ equals :: c.2) :: (cs.map fun c => space :: (c.1 ++ equals :: c.2)),
      semicolon ∉ p := by
    intro p hp
    rcases List.mem_cons.mp hp with rfl | hp
    · exact (hsend c List.mem_cons_self).text_plain.1
    · obtain ⟨d, hd, rfl⟩ := List.mem_map.mp hp
      have hspace : semicolon ≠ space := by decide
      rw [List.mem_cons, not_or]
      exact ⟨hspace, (hsend d (List.mem_cons_of_mem _ hd)).text_plain.1⟩
  have htext : cookieLine (c :: cs) = join semicolon
      ((c.1 ++ equals :: c.2) :: (cs.map fun c => space :: (c.1 ++ equals :: c.2))) := by
    unfold cookieLine
    rw [List.map_cons, intercalate_parts, List.map_map]
    rfl
  rw [hlines, htext, split_join semicolon (List.cons_ne_nil _ _) hparts,
    List.filterMap_cons_some (hsend c List.mem_cons_self).cookiePart_text,
    filterMap_cookieParts fun d hd => hsend d (List.mem_cons_of_mem _ hd), List.map_cons]

end PierGateway.WebUI
