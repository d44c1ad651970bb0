import PierGateway.UrlLaws

/-!
# Parameter names of a query string

Splitting at `&` makes the names of a concatenation the names of its parts, so a
query cut at an arbitrary `#` differs from its prefix only in the field the cut
went through and in the fields after it. Encoding and parsing again keeps the
set of names.
-/
namespace PierGateway.QueryLaws
open GoStrings NetUrl UrlLaws

theorem parseQuery_append (p s : Str) :
    parseQuery (p ++ ampersand :: s) = parseQuery p ++ parseQuery s := by
  simp [parseQuery, split_append_cons, List.filterMap_append]

theorem queryNames_append (p s : Str) :
    queryNames (p ++ ampersand :: s) = queryNames p ++ queryNames s := by
  simp [queryNames, parseQuery_append]

@[simp] theorem queryNames_nil : queryNames [] = [] := by decide

theorem mem_queryNames_field {s n : Str} (hs : ampersand ∉ s) :
    n ∈ queryNames s ↔ ∃ v, queryPair s = some (n, v) := by
  simp only [queryNames, parseQuery, split_of_not_mem ampersand hs, List.mem_map,
    List.mem_filterMap, List.mem_singleton, Prod.exists, exists_eq_left]
  constructor
  · rintro ⟨a, b, h, rfl⟩
    exact ⟨b, h⟩
  · rintro ⟨v, h⟩
    exact ⟨n, v, h, rfl⟩

/-! ### A byte no escape can contain -/

/-- What is read as one byte in front of a text does not change where its `#` is. -/
theorem append_sharp_of_step {unit x y z : Str} {c : UInt8}
    (hstep : ∀ t, queryUnescape (unit ++ t) = (queryUnescape t).map (c :: ·))
    (ih : ∀ {z}, queryUnescape (x ++ sharp :: y) = some z →
      ∃ x' y', queryUnescape x = some x' ∧ z = x' ++ sharp :: y')
    (h : queryUnescape (unit ++ x ++ sharp :: y) = some z) :
    ∃ x' y', queryUnescape (unit ++ x) = some x' ∧ z = x' ++ sharp :: y' := by
  rw [List.append_assoc, hstep, Option.map_eq_some_iff] at h
  obtain ⟨z', hz', rfl⟩ := h
  obtain ⟨x', y', hx', rfl⟩ := ih hz'
  refine ⟨c :: x', y', ?_, rfl⟩
  rw [hstep, hx']
  rfl

/-- Unescaping reads a `#` as itself, wherever it stands. -/
theorem unescape_append_sharp {x y z : Str}
    (h : queryUnescape (x ++ sharp :: y) = some z) :
    ∃ x' y', queryUnescape x = some x' ∧ z = x' ++ sharp :: y' := by
  have hhex : isHex sharp = false := by decide
  induction x using unescape.induct .queryComponent generalizing z with
  | case1 =>
      have hsharp := unescape_cons_self plain_queryComponent (c := sharp) (by decide) (by decide) y
      obtain ⟨y', -, rfl⟩ := Option.map_eq_some_iff.mp (hsharp.symm.trans h)
      exact ⟨[], y', rfl, rfl⟩
  | case2 a b t hab ih =>
      have hab' := by simpa using hab
      have hstep : ∀ s, queryUnescape ([percent, a, b] ++ s) =
          (queryUnescape s).map ((unhex a * 16 + unhex b) :: ·) :=
        unescape_cons_percent plain_queryComponent hab'.1.1 hab'.1.2
      exact append_sharp_of_step hstep ih h
  | case3 a b t hab =>
      unfold queryUnescape at h
      rw [unescape.eq_def] at h
      simp [hab] at h
  | case4 s hs =>
      unfold queryUnescape at h
      rw [unescape.eq_def] at h
      rcases s with _ | ⟨a, _ | ⟨b, t⟩⟩
      · rcases y with _ | ⟨c, y⟩ <;> simp [hhex] at h
      · simp [hhex] at h
      · exact absurd rfl (hs a b t)
  | case5 c s hc hplus ih =>
      have hp : c = plus := by simpa using hplus
      subst hp
      have hstep : ∀ t, queryUnescape ([plus] ++ t) = (queryUnescape t).map (space :: ·) := by
        intro t
        unfold queryUnescape
        rw [unescape.eq_def]
        simp [hc]
      exact append_sharp_of_step hstep ih h
  | case6 c s hc hplus hbad => simp at hbad
  | case7 c s hc hplus hbad ih =>
      have hstep : ∀ t, queryUnescape ([c] ++ t) = (queryUnescape t).map (c :: ·) := fun t =>
        unescape_cons_self plain_queryComponent hc (by simpa using hplus) t
      exact append_sharp_of_step hstep ih h

/-- A field lengthened by `#` and more text either keeps the name it had or gets a name
with a `#` in it. -/
theorem queryPair_append_sharp {x y n v : Str} (h : queryPair (x ++ sharp :: y) = some (n, v)) :
    sharp ∈ n ∨ ∃ v', queryPair x = some (n, v') := by
  unfold queryPair at h
  split_ifs at h with hs
  push Not at hs
  split at h
  · next key value hk hv =>
      obtain ⟨rfl, rfl⟩ : key = n ∧ value = v := by simpa using h
      obtain ⟨-, he⟩ | ⟨p, t, hp, rfl, he⟩ := cut_cases equals x
      · -- no '=' before the '#': the '#' is part of the name
        left
        obtain ⟨q, hq⟩ : ∃ q, (cut equals (x ++ sharp :: y)).1 = x ++ sharp :: q := by
          have hx : equals ∉ x := by
            have := not_mem_cut_fst equals x
            rwa [he] at this
          obtain ⟨hy, -⟩ | ⟨p, t, hp, rfl, -⟩ := cut_cases equals y
          · refine ⟨y, ?_⟩
            have hne : equals ≠ sharp := by decide
            rw [cut_of_not_mem equals (by simp [hx, hy, hne])]
          · refine ⟨p, ?_⟩
            have hne : equals ≠ sharp := by decide
            have htext : x ++ sharp :: (p ++ equals :: t) = (x ++ sharp :: p) ++ equals :: t := by
              simp
            rw [htext, cut_append equals (by simp [hx, hp, hne])]
        rw [hq] at hk
        obtain ⟨x', y', -, rfl⟩ := unescape_append_sharp hk
        simp
      · -- the '#' falls into the value
        right
        have htext : p ++ equals :: t ++ sharp :: y = p ++ equals :: (t ++ sharp :: y) := by simp
        rw [htext, cut_append equals hp] at hk hv
        obtain ⟨t', y', ht', -⟩ := unescape_append_sharp hv
        refine ⟨t', ?_⟩
        have hsemi : semicolon ∉ p ++ equals :: t := fun hm =>
          hs.1 (List.mem_append_left _ hm)
        unfold queryPair
        rw [if_neg (by simp [hsemi]), cut_append equals hp]
        simp only [Option.getD_some] at ht' ⊢
        rw [hk, ht']
  · cases h

theorem mem_queryNames_sharp {q₀ f n : Str} (h : n ∈ queryNames (q₀ ++ sharp :: f)) :
    n ∈ queryNames q₀ ∨ sharp ∈ n ∨ n ∈ queryNames ((cut ampersand f).2.getD []) := by
  -- the field the '#' falls into, between the last '&' before it and the first after it
  have middle : ∀ x y, ampersand ∉ x → ampersand ∉ y → n ∈ queryNames (x ++ sharp :: y) →
      n ∈ queryNames x ∨ sharp ∈ n := by
    intro x y hx hy hn
    have hxy : ampersand ∉ x ++ sharp :: y := by
      have hne : ampersand ≠ sharp := by decide
      simp [hx, hy, hne]
    obtain ⟨v, hv⟩ := (mem_queryNames_field hxy).mp hn
    rcases queryPair_append_sharp hv with hs | hv'
    · exact .inr hs
    · exact .inl ((mem_queryNames_field hx).mpr hv')
  have tail : ∀ x, ampersand ∉ x → n ∈ queryNames (x ++ sharp :: f) →
      n ∈ queryNames x ∨ sharp ∈ n ∨ n ∈ queryNames ((cut ampersand f).2.getD []) := by
    intro x hx hn
    obtain ⟨hf, he⟩ | ⟨p, t, hp, rfl, he⟩ := cut_cases ampersand f
    · exact (middle x f hx hf hn).imp_right .inl
    · have htext : x ++ sharp :: (p ++ ampersand :: t) = (x ++ sharp :: p) ++ ampersand :: t := by
        simp
      rw [htext, queryNames_append, List.mem_append] at hn
      rcases hn with hn | hn
      · exact (middle x p hx hp hn).imp_right .inl
      · exact .inr (.inr (by simpa [he] using hn))
  -- the fields before that one are untouched
  induction hlen : q₀.length using Nat.strong_induction_on generalizing q₀ with
  | _ len ih =>
      obtain ⟨hq, -⟩ | ⟨p, t, hp, rfl, -⟩ := cut_cases ampersand q₀
      · exact tail q₀ hq h
      · rw [queryNames_append, List.mem_append]
        have htext : p ++ ampersand :: t ++ sharp :: f = p ++ ampersand :: (t ++ sharp :: f) := by
          simp
        rw [htext, queryNames_append, List.mem_append] at h
        rcases h with h | h
        · exact .inl (.inl h)
        · have hlt : t.length < len := by
            simp only [List.length_append, List.length_cons] at hlen
            omega
          exact (ih t.length hlt h rfl).imp_left .inr

theorem queryNames_after_sharp {q₀ f n : Str}
    (h : n ∈ queryNames ((cut ampersand f).2.getD [])) : n ∈ queryNames (q₀ ++ sharp :: f) := by
  obtain ⟨-, he⟩ | ⟨p, t, -, rfl, he⟩ := cut_cases ampersand f
  · simp [he] at h
  · have htext : q₀ ++ sharp :: (p ++ ampersand :: t) = (q₀ ++ sharp :: p) ++ ampersand :: t := by
      simp
    rw [htext, queryNames_append, List.mem_append]
    exact .inr (by simpa [he] using h)

/-! ### Encoding -/

theorem queryPair_encoded (k v : Str) :
    queryPair (queryEscape k ++ equals :: queryEscape v) = some (k, v) := by
  have hsemi : semicolon ∉ queryEscape k ++ equals :: queryEscape v := by
    have hne : semicolon ≠ equals := by decide
    simp only [List.mem_append, List.mem_cons, hne, false_or, not_or]
    exact ⟨fun h => (queryEscape_bytes h).2.2 rfl, fun h => (queryEscape_bytes h).2.2 rfl⟩
  have heq : equals ∉ queryEscape k := fun h => (queryEscape_bytes h).2.1 rfl
  unfold queryPair
  rw [if_neg (by simp [hsemi]), cut_append equals heq]
  simp only [Option.getD_some, queryUnescape, queryEscape, unescape_escape plain_queryComponent]

/-- Parsing an encoded query gives the pairs back, grouped by name. -/
theorem parseQuery_encodeQuery (v : List (Str × Str)) :
    parseQuery (encodeQuery v) =
      (sortStrings (v.map Prod.fst).dedup).flatMap fun k => v.filter fun p => p.1 = k := by
  have hpair : ∀ l : List (Str × Str),
      (l.map fun p => queryEscape p.1 ++ equals :: queryEscape p.2).filterMap queryPair = l := by
    intro l
    induction l with
    | nil => rfl
    | cons p l ih => simp [queryPair_encoded, ih]
  let fields := (sortStrings (v.map Prod.fst).dedup).flatMap fun k =>
    (v.filter fun p => p.1 = k).map fun p => queryEscape p.1 ++ equals :: queryEscape p.2
  have hfields : fields = ((sortStrings (v.map Prod.fst).dedup).flatMap fun k =>
      v.filter fun p => p.1 = k).map fun p => queryEscape p.1 ++ equals :: queryEscape p.2 := by
    simp only [fields, List.map_flatMap]
  have hamp : ∀ s ∈ fields, ampersand ∉ s := by
    intro s hs
    rw [hfields] at hs
    obtain ⟨p, -, rfl⟩ := List.mem_map.mp hs
    have hne : ampersand ≠ equals := by decide
    simp only [List.mem_append, List.mem_cons, hne, false_or, not_or]
    exact ⟨fun h => (queryEscape_bytes h).1 rfl, fun h => (queryEscape_bytes h).1 rfl⟩
  rw [← hpair (List.flatMap _ _), ← hfields]
  change ((split ampersand (join ampersand fields)).filterMap queryPair) = _
  by_cases hnil : fields = []
  · rw [hnil]
    decide
  · rw [split_join ampersand hnil hamp]

theorem mem_queryNames_encodeQuery (v : List (Str × Str)) (n : Str) :
    n ∈ queryNames (encodeQuery v) ↔ n ∈ v.map Prod.fst := by
  rw [queryNames, parseQuery_encodeQuery]
  simp only [List.mem_map, List.mem_flatMap, List.mem_filter, sortStrings,
    List.mem_insertionSort, List.mem_dedup, decide_eq_true_eq]
  constructor
  · rintro ⟨p, ⟨k, -, hp, -⟩, rfl⟩
    exact ⟨p, hp, rfl⟩
  · rintro ⟨p, hp, rfl⟩
    exact ⟨p, ⟨p.1, ⟨p, hp, rfl⟩, hp, rfl⟩, rfl⟩

end PierGateway.QueryLaws
