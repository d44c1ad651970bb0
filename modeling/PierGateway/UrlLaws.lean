import PierGateway.NetUrl

/-!
# Laws of `net/url`

Unescaping undoes escaping, the escaped path of a URL is a spelling of its path
in which no delimiter occurs, and the query codec loses no parameter name. The
last section is about reading a URL twice: a server parses a request line, some
code prints the result with `RequestURI` and parses the text again as a
reference. The path survives; of the query only what precedes the first `#` does.
-/
namespace PierGateway.UrlLaws
open GoStrings NetUrl

/-- The modes in which escaping is meant to be undone byte by byte. -/
def Encoding.Plain (mode : Encoding) : Prop := mode ≠ .host ∧ mode ≠ .zone

theorem nibbles (c : UInt8) : c / 16 < 16 ∧ c % 16 < 16 ∧ c / 16 * 16 + c % 16 = c := by
  simp only [UInt8.lt_iff_toNat_lt, ← UInt8.toNat_inj, UInt8.toNat_add, UInt8.toNat_mul,
    UInt8.toNat_div, UInt8.toNat_mod, UInt8.reduceToNat]
  have hc := c.toNat_lt
  omega

theorem upperHex_spec {n : UInt8} (h : n < 16) :
    isAlnum (upperHex n) = true ∧ isHex (upperHex n) = true ∧ unhex (upperHex n) = n := by
  have hall : ∀ i : Fin 16, isAlnum (upperHex (UInt8.ofNat i)) = true ∧
      isHex (upperHex (UInt8.ofNat i)) = true ∧
        unhex (upperHex (UInt8.ofNat i)) = UInt8.ofNat i := by
    decide
  simpa using hall ⟨n.toNat, h⟩

theorem unhex_upperHex (c : UInt8) :
    isHex (upperHex (c / 16)) = true ∧ isHex (upperHex (c % 16)) = true ∧
      unhex (upperHex (c / 16)) * 16 + unhex (upperHex (c % 16)) = c := by
  obtain ⟨hhigh, hlow, hc⟩ := nibbles c
  obtain ⟨-, h₁, h₂⟩ := upperHex_spec hhigh
  obtain ⟨-, h₃, h₄⟩ := upperHex_spec hlow
  exact ⟨h₁, h₃, by rw [h₂, h₄, hc]⟩

theorem isAlnum_upperHex (c : UInt8) :
    isAlnum (upperHex (c / 16)) = true ∧ isAlnum (upperHex (c % 16)) = true :=
  ⟨(upperHex_spec (nibbles c).1).1, (upperHex_spec (nibbles c).2.1).1⟩

theorem ne_of_isAlnum {c d : UInt8} (hc : isAlnum c = true) (hd : isAlnum d = false) : c ≠ d := by
  intro h
  rw [h, hd] at hc
  cases hc

theorem marks :
    percent ∉ str "!$&'()*+,;=:[]<>\"" ∧ percent ∉ str "-_.~" ∧ percent ∉ str "$&+,/:;=?@" ∧
      percent ∉ str "!()*" ∧ (∀ d ∈ str "!$&'()*+,;=:@[]%",
        d ≠ sharp ∧ d ≠ question ∧ isCtl d = false) ∧
      (∀ d ∈ str "-_.~", d ≠ sharp ∧ d ≠ question ∧ isCtl d = false) ∧
      (∀ d ∈ str "$&+,/:;=?@", d ≠ sharp ∧ isCtl d = false) ∧
      validEncodedByte percent = true ∧ validEncodedByte plus = true ∧
      ∀ d ∈ [ampersand, equals, semicolon], isAlnum d = false ∧ percent ≠ d ∧ plus ≠ d ∧
        shouldEscape d .queryComponent = true := by
  decide +kernel

theorem asterisk_facts : (str "*").head? ≠ some slash ∧ validEncoded (str "*") = true ∧
    unescape .path (str "*") = some (str "*") := by
  decide

theorem shouldEscape_percent (mode : Encoding) : shouldEscape percent mode = true := by
  obtain ⟨h₁, h₂, h₃, h₄, -⟩ := marks
  have halnum : isAlnum percent = false := by decide
  simp [shouldEscape, halnum, h₁, h₂, h₃, h₄]

theorem unescape_cons_percent {mode : Encoding} (hm : Encoding.Plain mode) {a b : UInt8}
    (ha : isHex a = true) (hb : isHex b = true) (s : Str) :
    unescape mode (percent :: a :: b :: s) =
      (unescape mode s).map ((unhex a * 16 + unhex b) :: ·) := by
  have ho : escapeAllowed mode a b = true := by
    cases mode <;> first | rfl | exact absurd rfl hm.1 | exact absurd rfl hm.2
  rw [unescape.eq_def]
  simp [ha, hb, ho]

theorem unescape_cons_self {mode : Encoding} (hm : Encoding.Plain mode) {c : UInt8}
    (hp : c ≠ percent) (hplus : ¬(c = plus ∧ mode = .queryComponent)) (s : Str) :
    unescape mode (c :: s) = (unescape mode s).map (c :: ·) := by
  rw [unescape.eq_def]
  simp only [hp, if_false, Bool.and_eq_true, decide_eq_true_eq, hplus, Bool.or_eq_true]
  rw [if_neg]
  rintro ⟨⟨h | h, -⟩, -⟩
  · exact hm.1 h
  · exact hm.2 h

theorem unescape_escapeByte {mode : Encoding} (hm : Encoding.Plain mode) (c : UInt8) (s : Str) :
    unescape mode (escapeByte mode c ++ s) = (unescape mode s).map (c :: ·) := by
  unfold escapeByte
  by_cases he : shouldEscape c mode = true
  · by_cases hs : c = space ∧ mode = .queryComponent
    · obtain ⟨rfl, rfl⟩ := hs
      have hne : plus ≠ percent := by decide
      rw [if_pos he, if_pos (by decide), unescape.eq_def]
      simp [hne]
    · obtain ⟨h₁, h₂, h₃⟩ := unhex_upperHex c
      rw [if_pos he, if_neg (by simpa using hs)]
      simp only [List.cons_append, List.nil_append]
      rw [unescape_cons_percent hm h₁ h₂, h₃]
  · have hp : c ≠ percent := fun h => he (h ▸ shouldEscape_percent mode)
    have hplus : ¬(c = plus ∧ mode = .queryComponent) := by
      rintro ⟨rfl, rfl⟩
      exact he (by decide)
    rw [if_neg he]
    exact unescape_cons_self hm hp hplus s

theorem unescape_escape_append {mode : Encoding} (hm : Encoding.Plain mode) (t s : Str) :
    unescape mode (escape mode t ++ s) = (unescape mode s).map (t ++ ·) := by
  induction t with
  | nil => simp [escape]
  | cons c t ih =>
      have h : escape mode (c :: t) ++ s = escapeByte mode c ++ (escape mode t ++ s) := by
        simp [escape, List.append_assoc]
      rw [h, unescape_escapeByte hm, ih, Option.map_map]
      rfl

theorem unescape_escape {mode : Encoding} (hm : Encoding.Plain mode) (t : Str) :
    unescape mode (escape mode t) = some t := by
  have h := unescape_escape_append hm t []
  simpa [unescape] using h

theorem plain_path : Encoding.Plain .path := ⟨by decide, by decide⟩
theorem plain_pathSegment : Encoding.Plain .pathSegment := ⟨by decide, by decide⟩
theorem plain_queryComponent : Encoding.Plain .queryComponent := ⟨by decide, by decide⟩

/-! ### Which bytes can occur -/

theorem validEncodedByte_of_isAlnum {c : UInt8} (h : isAlnum c = true) :
    validEncodedByte c = true := by
  simp [validEncodedByte, shouldEscape, h]

theorem validEncodedByte_cases {c : UInt8} (h : validEncodedByte c = true) :
    isAlnum c = true ∨ c ∈ str "!$&'()*+,;=:@[]%" ∨ c ∈ str "-_.~" ∨
      c ∈ str "$&+,/:;=?@" ∧ c ≠ question := by
  unfold validEncodedByte shouldEscape at h
  split_ifs at h <;> simp_all

theorem validEncodedByte_ne {c : UInt8} (h : validEncodedByte c = true) :
    c ≠ sharp ∧ c ≠ question ∧ isCtl c = false := by
  obtain ⟨-, -, -, -, hraw, hunreserved, hreserved, -⟩ := marks
  obtain ha | hs | hs | ⟨hs, hq⟩ := validEncodedByte_cases h
  · refine ⟨ne_of_isAlnum ha (by decide), ne_of_isAlnum ha (by decide), ?_⟩
    simp only [isAlnum, isAlpha, isDigit, isCtl] at ha ⊢
    grind
  · exact hraw c hs
  · exact hunreserved c hs
  · exact ⟨(hreserved c hs).1, hq, (hreserved c hs).2⟩

theorem mem_escapeByte {mode : Encoding} {c d : UInt8} (h : c ∈ escapeByte mode d) :
    isAlnum c = true ∨ c = percent ∨ c = plus ∨ shouldEscape c mode = false := by
  obtain ⟨h₁, h₂⟩ := isAlnum_upperHex d
  unfold escapeByte at h
  split_ifs at h with hescaped hspace
  · exact .inr (.inr (.inl (List.mem_singleton.mp h)))
  · simp only [List.mem_cons, List.not_mem_nil, or_false] at h
    obtain rfl | rfl | rfl := h
    · exact .inr (.inl rfl)
    · exact .inl h₁
    · exact .inl h₂
  · rw [List.mem_singleton.mp h]
    exact .inr (.inr (.inr (by simpa using hescaped)))

theorem validEncodedByte_escapeByte (c : UInt8) : (escapeByte .path c).all validEncodedByte := by
  obtain ⟨-, -, -, -, -, -, -, hpercent, hplus, -⟩ := marks
  rw [List.all_eq_true]
  intro d hd
  obtain ha | rfl | rfl | hkept := mem_escapeByte hd
  · exact validEncodedByte_of_isAlnum ha
  · exact hpercent
  · exact hplus
  · simp [validEncodedByte, hkept]

theorem validEncoded_escape (s : Str) : validEncoded (escape .path s) = true := by
  rw [validEncoded, List.all_eq_true]
  intro c hc
  obtain ⟨d, -, hd⟩ := List.mem_flatMap.mp hc
  exact List.all_eq_true.mp (validEncodedByte_escapeByte d) c hd

theorem queryEscape_bytes {s : Str} {c : UInt8} (h : c ∈ queryEscape s) :
    c ≠ ampersand ∧ c ≠ equals ∧ c ≠ semicolon := by
  obtain ⟨-, -, -, -, -, -, -, -, -, hdelims⟩ := marks
  have hne : ∀ d ∈ [ampersand, equals, semicolon], c ≠ d := by
    intro d hd
    obtain ⟨halnum, hpercent, hplus, hescaped⟩ := hdelims d hd
    obtain ⟨b, -, hb⟩ := List.mem_flatMap.mp h
    obtain ha | rfl | rfl | hkept := mem_escapeByte hb
    · exact ne_of_isAlnum ha halnum
    · exact hpercent
    · exact hplus
    · intro heq
      rw [heq, hescaped] at hkept
      cases hkept
  simpa using hne

/-! ### The escaped path -/

theorem validEncoded_escapedPath (u : URL) : validEncoded u.escapedPath = true := by
  unfold URL.escapedPath
  split_ifs with h₁ h₂
  · exact h₁.2.1
  · exact asterisk_facts.2.1
  · exact validEncoded_escape u.path

theorem unescape_escapedPath (u : URL) : unescape .path u.escapedPath = some u.path := by
  unfold URL.escapedPath
  split_ifs with h₁ h₂
  · exact h₁.2.2
  · rw [h₂]
    exact asterisk_facts.2.2
  · exact unescape_escape plain_path u.path

theorem unescape_cons_slash (s : Str) :
    unescape .path (slash :: s) = (unescape .path s).map (slash :: ·) :=
  unescape_cons_self plain_path (by decide) (by decide) s

theorem unescape_head_slash {s p : Str} (h : unescape .path s = some p)
    (hs : s.head? = some slash) : p.head? = some slash := by
  cases s with
  | nil => simp at hs
  | cons c s =>
      obtain rfl : c = slash := by simpa using hs
      rw [unescape_cons_slash, Option.map_eq_some_iff] at h
      obtain ⟨q, -, rfl⟩ := h
      rfl

/-- What is known of a URL read from a request line. -/
structure FromRequestLine (u : URL) : Prop where
  opaque_path : u.opaquePart ≠ [] → u.path = []
  raw : u.rawPath = [] ∨ u.rawPath.head? = some slash
  path : (u.path = str "*" ∧ u.rawQuery = []) ∨ u.path = [] ∨ u.path.head? = some slash
  star : u.path = str "*" → u.opaquePart = [] ∧ u.rawPath = [] ∧ u.forceQuery = false
  ctl : u.rawQuery.any isCtl = false

theorem getSchemeAux_bytes {raw seen s scheme rest : Str}
    (h : getSchemeAux raw seen s = some (scheme, rest)) {c : UInt8} (hc : c ∈ rest) :
    c ∈ raw ∨ c ∈ s := by
  induction s generalizing seen with
  | nil =>
      obtain ⟨rfl, rfl⟩ : [] = scheme ∧ raw = rest := by simpa [getSchemeAux] using h
      exact .inl hc
  | cons d s ih =>
      simp only [getSchemeAux] at h
      split_ifs at h
      · exact (ih h).imp_right (List.mem_cons_of_mem _)
      · obtain ⟨rfl, rfl⟩ : [] = scheme ∧ raw = rest := by simpa using h
        exact .inl hc
      · exact (ih h).imp_right (List.mem_cons_of_mem _)
      · obtain ⟨rfl, rfl⟩ : seen = scheme ∧ s = rest := by simpa using h
        exact .inr (List.mem_cons_of_mem _ hc)
      · obtain ⟨rfl, rfl⟩ : [] = scheme ∧ raw = rest := by simpa using h
        exact .inl hc

theorem splitQuery_rawQuery_bytes {rest : Str} {c : UInt8} (hc : c ∈ (splitQuery rest).2.2) :
    c ∈ rest := by
  unfold splitQuery at hc
  split_ifs at hc
  · simp at hc
  · obtain ⟨-, he⟩ | ⟨p, t, -, hs, he⟩ := cut_cases question rest
    · simp [he] at hc
    · rw [he] at hc
      rw [hs]
      exact List.mem_append_right _ (List.mem_cons_of_mem _ hc)

theorem cut_rest_head (sep : UInt8) (s : Str) :
    s.drop (cut sep s).1.length = [] ∨ (s.drop (cut sep s).1.length).head? = some sep := by
  obtain ⟨-, he⟩ | ⟨p, t, -, hs, he⟩ := cut_cases sep s
  · exact .inl (by simp [he])
  · refine .inr ?_
    rw [he, hs]
    simp

theorem setPath_shape {u v : URL} {p : Str} (h : u.setPath p = some v)
    (hp : p = [] ∨ p.head? = some slash) :
    v.opaquePart = u.opaquePart ∧ v.rawQuery = u.rawQuery ∧
      (v.path = [] ∨ v.path.head? = some slash) ∧
      (v.rawPath = [] ∨ v.rawPath.head? = some slash) := by
  simp only [URL.setPath, Option.map_eq_some_iff] at h
  obtain ⟨path, hu, rfl⟩ := h
  refine ⟨rfl, rfl, ?_, ?_⟩
  · rcases hp with rfl | hp
    · left
      simpa [unescape] using hu.symm
    · exact .inr (unescape_head_slash hu hp)
  · dsimp only
    split_ifs
    · exact .inl rfl
    · exact hp

theorem parseHier_shape {via : Bool} {u v : URL} {rest : Str} (h : parseHier via u rest = some v)
    (hrest : rest.head? = some slash) :
    v.opaquePart = u.opaquePart ∧ v.rawQuery = u.rawQuery ∧
      (v.path = [] ∨ v.path.head? = some slash) ∧
      (v.rawPath = [] ∨ v.rawPath.head? = some slash) := by
  unfold parseHier at h
  split_ifs at h
  · dsimp only at h
    split at h
    · cases h
    · next user host _ =>
        exact setPath_shape (u := { u with user := user, host := host }) h (cut_rest_head _ _)
  · exact setPath_shape (u := { u with omitHost := true }) h (.inr hrest)
  · exact setPath_shape h (.inr hrest)

theorem head_of_hasPrefix {s : Str} {c : UInt8} (h : hasPrefix s [c] = true) :
    s.head? = some c := by
  cases s with
  | nil => exact absurd h (by simp [hasPrefix])
  | cons d s =>
      have hcd : c = d := by simpa [hasPrefix] using h
      rw [hcd]
      rfl

/-- The request-line parser only returns URLs of this shape. -/
theorem fromRequestLine_of_parse {raw : Str} {u : URL} (h : parseRequestURI raw = some u) :
    FromRequestLine u := by
  unfold parseRequestURI parse at h
  split_ifs at h with hctl hnil hstar <;> try contradiction
  · obtain rfl := Option.some.inj h
    exact ⟨fun h => absurd rfl h, .inl rfl, .inl ⟨rfl, rfl⟩, fun _ => ⟨rfl, rfl, rfl⟩, rfl⟩
  · split at h
    · cases h
    · next scheme rest hs =>
        have hq : (splitQuery rest).2.2.any isCtl = false := by
          rw [List.any_eq_false]
          intro c hc
          have hr := getSchemeAux_bytes hs (splitQuery_rawQuery_bytes hc)
          exact List.any_eq_false.mp (by simpa using hctl) c (hr.elim id id)
        dsimp only at h
        split_ifs at h with h₁ h₂
        · obtain ⟨ho, hrq, hp, hr⟩ := parseHier_shape h (head_of_hasPrefix h₁)
          refine ⟨fun hne => absurd ho hne, hr, .inr hp, ?_, by rw [hrq]; exact hq⟩
          intro hst
          rw [hst] at hp
          exact absurd hp (by simp [asterisk_facts.1])
        · obtain rfl := Option.some.inj h
          exact ⟨fun _ => rfl, .inl rfl, .inr (.inl rfl),
            fun h => absurd h.symm (by simp [str]), hq⟩

/-! ### Reading the printed URL again -/

/-- An absolute path whose first segment is not empty. -/
def Rooted (p : Str) : Prop := ∃ t, p = slash :: t ∧ t.head? ≠ some slash

theorem escapedPath_head {u : URL} (hraw : u.rawPath = [] ∨ u.rawPath.head? = some slash)
    (hp : u.path.head? = some slash) : u.escapedPath.head? = some slash := by
  unfold URL.escapedPath
  split_ifs with h₁ h₂
  · exact hraw.resolve_left h₁.1
  · rw [h₂] at hp
    exact absurd hp asterisk_facts.1
  · cases hu : u.path with
    | nil => simp [hu] at hp
    | cons c t =>
        obtain rfl : c = slash := by simpa [hu] using hp
        rfl

theorem escapedPath_rooted {u : URL} (hraw : u.rawPath = [] ∨ u.rawPath.head? = some slash)
    (hp : Rooted u.path) : Rooted u.escapedPath := by
  obtain ⟨t, ht, hne⟩ := hp
  have hhead := escapedPath_head hraw (by simp [ht])
  have hun := unescape_escapedPath u
  cases he : u.escapedPath with
  | nil => simp [he] at hhead
  | cons c e =>
      obtain rfl : c = slash := by simpa [he] using hhead
      refine ⟨e, rfl, fun hs => hne ?_⟩
      rw [he, unescape_cons_slash, ht, Option.map_eq_some_iff] at hun
      obtain ⟨q, hq, hqt⟩ := hun
      have hqt' : q = t := by simpa using hqt
      exact hqt' ▸ unescape_head_slash hq hs

theorem getScheme_slash (s : Str) : getScheme (slash :: s) = some ([], slash :: s) := by
  have h₁ : isAlpha slash = false := by decide
  have h₂ : (isDigit slash || decide (slash ∈ str "+-.")) = false := by decide
  have h₃ : slash ≠ colon := by decide
  simp only [getScheme, getSchemeAux, h₁, h₂, h₃, if_false, Bool.false_eq_true]

/-- The tail `RequestURI` prints after a path, or a part of it. -/
def queryTail (force : Bool) (q : Str) : Str := if force ∨ q ≠ [] then question :: q else []

theorem splitQuery_queryTail {e : Str} (he : question ∉ e) (force : Bool) (q : Str) :
    (splitQuery (e ++ queryTail force q)).1 = e ∧
      (splitQuery (e ++ queryTail force q)).2.2 = q := by
  unfold queryTail
  split_ifs with h
  · unfold splitQuery
    split_ifs with hl
    · have hcount : q.count question = 0 := by
        have := hl.2
        rw [List.count_append, List.count_cons_self, List.count_eq_zero.mpr he] at this
        omega
      have hq : q = [] := by
        rcases List.eq_nil_or_concat q with rfl | ⟨q', d, rfl⟩
        · rfl
        · have hd : d = question := by
            have hlast := hl.1
            rw [List.concat_eq_append, ← List.cons_append, ← List.append_assoc,
              List.getLast?_concat] at hlast
            exact Option.some.inj hlast
          exact absurd (List.count_eq_zero.mp hcount) (by simp [hd])
      subst hq
      simp
    · rw [cut_append question he]
      exact ⟨rfl, rfl⟩
  · have hq : q = [] := by
      by_contra hne
      exact h (.inr hne)
    have hl : ¬((e ++ []).getLast? = some question ∧ (e ++ []).count question = 1) := by
      rintro ⟨-, hc⟩
      rw [List.append_nil, List.count_eq_zero.mpr he] at hc
      exact absurd hc (by decide)
    rw [splitQuery, if_neg hl, List.append_nil, cut_of_not_mem question he, hq]
    exact ⟨rfl, rfl⟩

theorem parse_path_query {e p q : Str} (hr : Rooted e) (hv : validEncoded e = true)
    (hu : unescape .path e = some p) (force : Bool) (hq : q.any isCtl = false) :
    ∃ v, parse false (e ++ queryTail force q) = some v ∧ v.path = p ∧ v.rawQuery = q := by
  obtain ⟨t, rfl, hne⟩ := hr
  have hbytes : ∀ c ∈ slash :: t, c ≠ sharp ∧ c ≠ question ∧ isCtl c = false := fun c hc =>
    validEncodedByte_ne (List.all_eq_true.mp hv c hc)
  have hqm : question ∉ slash :: t := fun h => (hbytes _ h).2.1 rfl
  have hctl : (slash :: t ++ queryTail force q).any isCtl = false := by
    rw [List.any_append, Bool.or_eq_false_iff]
    refine ⟨List.any_eq_false.mpr fun c hc => by simp [(hbytes c hc).2.2], ?_⟩
    unfold queryTail
    split_ifs
    · rw [List.any_cons, hq]
      decide
    · rfl
  obtain ⟨h₁, h₂⟩ := splitQuery_queryTail hqm force q
  have hstar : slash :: t ++ queryTail force q ≠ str "*" := by
    intro h
    have hhead := congrArg List.head? h
    rw [show str "*" = [0x2A] by decide] at hhead
    exact absurd (Option.some.inj hhead) (by decide)
  have hscheme : getScheme (slash :: t ++ queryTail force q) =
      some ([], slash :: t ++ queryTail force q) := getScheme_slash _
  have hpre : hasPrefix (slash :: t) [slash] = true := by simp [hasPrefix]
  have hdouble : hasPrefix (slash :: t) (str "//") = false := by
    cases t with
    | nil => rfl
    | cons c t =>
        have hc : slash ≠ c := fun h => hne (by simp [← h])
        have hs : str "//" = [slash, slash] := by decide
        simp [hasPrefix, hs, List.isPrefixOf, hc]
  unfold parse
  rw [if_neg (by rw [hctl]; decide), if_neg (by simp), if_neg hstar, hscheme]
  simp only [h₁, h₂, hpre, if_true]
  simp [parseHier, hdouble, lowerAscii, URL.setPath, hu]

/-- A URL from a request line, printed by `RequestURI` and parsed by `Parse`: the path
comes back, the query comes back up to its first `#`, and the parse fails exactly when
what follows that `#` is not a well-escaped fragment. -/
theorem urlParse_requestURI {u : URL} (hop : u.opaquePart = [])
    (hraw : u.rawPath = [] ∨ u.rawPath.head? = some slash) (hp : Rooted u.path)
    (hctl : u.rawQuery.any isCtl = false) :
    ∃ v : URL, v.path = u.path ∧ v.rawQuery = (cut sharp u.rawQuery).1 ∧
      urlParse u.requestURI = v.addFragment (cut sharp u.rawQuery).2 := by
  have hroot := escapedPath_rooted hraw hp
  have hv := validEncoded_escapedPath u
  have hne : u.escapedPath ≠ [] := by
    obtain ⟨t, ht, -⟩ := hroot
    simp [ht]
  have hhash : sharp ∉ u.escapedPath := fun h =>
    (validEncodedByte_ne (List.all_eq_true.mp hv _ h)).1 rfl
  have huri : u.requestURI = u.escapedPath ++ queryTail u.forceQuery u.rawQuery := by
    unfold URL.requestURI queryTail
    rw [if_pos hop, if_neg hne]
    dsimp only
    split_ifs <;> simp
  have hctl' : (cut sharp u.rawQuery).1.any isCtl = false := by
    rw [List.any_eq_false] at hctl ⊢
    intro c hc
    obtain ⟨-, he⟩ | ⟨p, t, -, hs, he⟩ := cut_cases sharp u.rawQuery
    · exact hctl c (by simpa [he] using hc)
    · exact hctl c (by rw [hs]; exact List.mem_append_left _ (by simpa [he] using hc))
  -- the printed text, cut at its first '#'
  have hcut : ∃ force, cut sharp u.requestURI =
      (u.escapedPath ++ queryTail force (cut sharp u.rawQuery).1, (cut sharp u.rawQuery).2) := by
    rw [huri]
    obtain ⟨hnot, he⟩ | ⟨p, t, hp', hs, he⟩ := cut_cases sharp u.rawQuery
    · refine ⟨u.forceQuery, ?_⟩
      rw [he, cut_of_not_mem]
      unfold queryTail
      split_ifs
      · have hq : sharp ≠ question := by decide
        simp [hhash, hnot, hq]
      · simpa using hhash
    · refine ⟨true, ?_⟩
      have hmem : sharp ∉ u.escapedPath ++ question :: p := by
        have hq : sharp ≠ question := by decide
        simp [hhash, hp', hq]
      have htext : u.escapedPath ++ queryTail u.forceQuery u.rawQuery =
          (u.escapedPath ++ question :: p) ++ sharp :: t := by
        simp [queryTail, hs]
      rw [he, htext, cut_append sharp hmem]
      simp [queryTail]
  obtain ⟨force, hcut⟩ := hcut
  obtain ⟨v, hv₁, hv₂, hv₃⟩ := parse_path_query hroot hv (unescape_escapedPath u) force hctl'
  refine ⟨v, hv₂, hv₃, ?_⟩
  rw [urlParse, hcut]
  simp only [hv₁, Option.bind_some]

example :
    (parseRequestURI (str "/b/k?x#y")).map URL.rawQuery = some (str "x#y") ∧
      (urlParse (str "/b/k?x#y")).map URL.rawQuery = some (str "x") := by
  decide +kernel

/-! ### Reading a request line -/

theorem unescape_append {x t : Str} (h : unescape .path x = some t) (y : Str) :
    unescape .path (x ++ y) = (unescape .path y).map (t ++ ·) := by
  induction x using unescape.induct .path generalizing t with
  | case1 =>
      obtain rfl := Option.some.inj h
      simp
  | case2 a b x hab ih =>
      have hab' := by simpa using hab
      have hstep := fun s => unescape_cons_percent plain_path hab'.1.1 hab'.1.2 s
      rw [hstep, Option.map_eq_some_iff] at h
      obtain ⟨t', ht', rfl⟩ := h
      rw [List.cons_append, List.cons_append, List.cons_append, hstep, ih ht', Option.map_map]
      rfl
  | case3 a b x hab =>
      rw [unescape.eq_def] at h
      simp [hab] at h
  | case4 x hx =>
      rw [unescape.eq_def] at h
      rcases x with _ | ⟨a, _ | ⟨b, x⟩⟩
      · simp at h
      · simp at h
      · exact absurd rfl (hx a b x)
  | case5 c x hc hplus ih => simp at hplus
  | case6 c x hc hplus hbad => simp at hbad
  | case7 c x hc hplus hbad ih =>
      have hstep := fun s => unescape_cons_self plain_path hc (by simp) s
      rw [hstep, Option.map_eq_some_iff] at h
      obtain ⟨t', ht', rfl⟩ := h
      rw [List.cons_append, hstep, ih ht', Option.map_map]
      rfl

/-- A path and a path segment are unescaped alike. -/
theorem unescape_pathSegment (s : Str) : unescape .pathSegment s = unescape .path s := by
  induction s using unescape.induct .path with
  | case1 => rfl
  | case2 a b t hab ih =>
      have hab' := by simpa using hab
      rw [unescape_cons_percent plain_path hab'.1.1 hab'.1.2,
        unescape_cons_percent plain_pathSegment hab'.1.1 hab'.1.2, ih]
  | case3 a b t hab =>
      have hhex : ¬(isHex a = true ∧ isHex b = true) := by
        intro h
        exact hab (by simp [h.1, h.2, escapeAllowed])
      rw [unescape.eq_def, unescape.eq_def .path]
      simp [hhex]
  | case4 x hx =>
      rw [unescape.eq_def, unescape.eq_def .path]
      rcases x with _ | ⟨a, _ | ⟨b, x⟩⟩
      · rfl
      · rfl
      · exact absurd rfl (hx a b x)
  | case5 c s hc hplus ih => simp at hplus
  | case6 c s hc hplus hbad => simp at hbad
  | case7 c s hc hplus hbad ih =>
      rw [unescape_cons_self plain_path hc (by simp),
        unescape_cons_self plain_pathSegment hc (by simp), ih]

/-- An escaped path on a request line is read as a URL with this escaped path. -/
theorem parseRequestURI_path {p t : Str} (hhead : p.head? = some slash)
    (hv : validEncoded p = true) (hu : unescape .path p = some t) :
    ∃ u, parseRequestURI p = some u ∧ u.path = t ∧ u.escapedPath = p ∧ u.rawQuery = [] := by
  have hbytes : ∀ c ∈ p, c ≠ sharp ∧ c ≠ question ∧ isCtl c = false := fun c hc =>
    validEncodedByte_ne (List.all_eq_true.mp hv c hc)
  have hctl : p.any isCtl = false :=
    List.any_eq_false.mpr fun c hc => by simp [(hbytes c hc).2.2]
  have hqm : question ∉ p := fun h => (hbytes _ h).2.1 rfl
  cases p with
  | nil => cases hhead
  | cons c s =>
      obtain rfl : c = slash := by simpa using hhead
      have hstar : slash :: s ≠ str "*" := by
        intro h
        have hh := congrArg List.head? h
        rw [show str "*" = [0x2A] by decide] at hh
        exact absurd (Option.some.inj hh) (by decide)
      have hsplit : splitQuery (slash :: s) = (slash :: s, false, []) := by
        have hl : ¬((slash :: s).getLast? = some question ∧ (slash :: s).count question = 1) := by
          intro h
          rw [List.count_eq_zero.mpr hqm] at h
          omega
        rw [splitQuery, if_neg hl, cut_of_not_mem question hqm]
        rfl
      have hpath : t ≠ str "*" := by
        intro h
        have hh := unescape_head_slash hu rfl
        rw [h] at hh
        exact absurd hh asterisk_facts.1
      refine ⟨{ path := t, rawPath := if escape .path t = slash :: s then [] else slash :: s }, ?_,
        rfl, ?_, rfl⟩
      · unfold parseRequestURI parse
        rw [if_neg (by rw [hctl]; decide), if_neg (by simp), if_neg hstar, getScheme_slash]
        simp [hsplit, hasPrefix, parseHier, lowerAscii, URL.setPath, hu]
      · unfold URL.escapedPath
        dsimp only
        by_cases he : escape .path t = slash :: s
        · simp [he, hpath]
        · simp [he, hv, hu]

end PierGateway.UrlLaws
