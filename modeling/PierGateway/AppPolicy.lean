import PierGateway.RuneLaws
import PierGateway.NetUrl

/-!
# The content security policy of the application

The policy is a text with the origin of the identity provider in two of its directives,
and that origin is cut out of a configured URL. What a browser makes of the text is
modelled beside it: a header is a list of policies, a policy a list of directives of which
the first of each name counts, and what is not ASCII is skipped. So the directives in front
of the origin hold whatever the URL is, and those behind it unless the origin brings
directives of their names along or cuts the policy off.
-/
namespace PierGateway.WebUI
open GoStrings GoUnicode NetUrl

/-- The scheme and host of a URL, or nothing when it has none. -/
def originOf (raw : Str) : Str :=
  match urlParse (trimSpace raw) with
  | none => []
  | some u => if u.scheme = [] ∨ u.host = [] then [] else u.scheme ++ str "://" ++ u.host

/-- A source list with the origin at its end. -/
def withOrigin (sources origin : Str) : Str :=
  if origin = [] then sources else sources ++ space :: origin

/-- The directives in front of the first that names the identity provider. -/
def leadingParts : List Str :=
  [str "default-src 'self'", str "script-src 'self'",
    str "style-src 'self' 'unsafe-inline' https://fonts.googleapis.com",
    str "font-src 'self' https://fonts.gstatic.com", str "img-src 'self' blob: data:",
    str "media-src 'self' blob:"]

def trailingParts : List Str :=
  [str "object-src 'none'", str "base-uri 'self'", str "form-action 'self'"]

def buildAppCSP (keycloakURL : Str) : Str :=
  (str "; ").intercalate (leadingParts ++
    ((str "frame-src " ++ withOrigin (str "blob:") (originOf keycloakURL)) ::
      (str "connect-src " ++ withOrigin (str "'self'") (originOf keycloakURL)) :: trailingParts))

/-! ### What a browser reads -/

/-- ASCII whitespace. -/
def isBlank (c : UInt8) : Bool := c ∈ [0x09, 0x0A, 0x0C, 0x0D, 0x20]

def words (s : Str) : List Str := (s.splitOnP isBlank).filter fun w => w ≠ []

/-- The name of a directive and its values. -/
abbrev Directive := Str × List Str

def parseDirective (token : Str) : Option Directive :=
  if token.all fun c => c < 0x80 then
    match words token with
    | [] => none
    | name :: values => some (lowerAscii name, values)
  else none

/-- A directive of a name that is there already is ignored. -/
def addDirective (policy : List Directive) (d : Directive) : List Directive :=
  if policy.lookup d.1 = none then policy ++ [d] else policy

/-- The directives of a policy as they stand. -/
def directives (s : Str) : List Directive := (split semicolon s).filterMap parseDirective

def parsePolicy (s : Str) : List Directive := (directives s).foldl addDirective []

/-- The policies of a header value. -/
def parsePolicies (s : Str) : List (List Directive) :=
  ((split comma s).map parsePolicy).filter fun policy => policy ≠ []

/-! ### The first directive of a name counts -/

theorem lookup_addDirective (policy : List Directive) (d : Directive) (name : Str) :
    (addDirective policy d).lookup name = (policy ++ [d]).lookup name := by
  unfold addDirective
  split_ifs with hnew
  · rfl
  · rw [List.lookup_append]
    by_cases hname : name = d.1
    · subst hname
      obtain ⟨values, hvalues⟩ := Option.ne_none_iff_exists'.mp hnew
      rw [hvalues]
      rfl
    · have hother : [d].lookup name = none := by
        rw [List.lookup_eq_none_iff]
        simpa using hname
      rw [hother, Option.or_none]

theorem lookup_foldl_addDirective (policy ds : List Directive) (name : Str) :
    (ds.foldl addDirective policy).lookup name = (policy ++ ds).lookup name := by
  induction ds generalizing policy with
  | nil => rw [List.foldl_nil, List.append_nil]
  | cons d ds ih =>
      rw [List.foldl_cons, ih, List.lookup_append, lookup_addDirective, ← List.lookup_append,
        List.append_assoc]
      rfl

theorem lookup_parsePolicy (s name : Str) :
    (parsePolicy s).lookup name = (directives s).lookup name :=
  lookup_foldl_addDirective [] _ name

/-- Directives of names that are all different are all kept. -/
theorem foldl_addDirective {policy ds : List Directive} (h : ((policy ++ ds).map Prod.fst).Nodup) :
    ds.foldl addDirective policy = policy ++ ds := by
  induction ds generalizing policy with
  | nil => simp
  | cons d ds ih =>
      have hnew : policy.lookup d.1 = none := by
        rw [List.map_append, List.nodup_append] at h
        rw [List.lookup_eq_none_iff]
        intro p hp
        have hne := h.2.2 p.1 (List.mem_map_of_mem hp) d.1 (by simp)
        simpa using Ne.symm hne
      have hadd : addDirective policy d = policy ++ [d] := if_pos hnew
      rw [List.foldl_cons, hadd, ih (by simpa using h), List.append_assoc]
      rfl

/-! ### Words and parts -/

theorem words_append_blank {c : UInt8} (hc : isBlank c = true) (s t : Str) :
    words (s ++ c :: t) = words s ++ words t := by
  unfold words
  rw [List.splitOnP_append_cons _ _ hc, List.filter_append]

theorem words_of_solid {s : Str} (hne : s ≠ []) (h : ∀ c ∈ s, isBlank c = false) :
    words s = [s] := by
  unfold words
  rw [List.splitOnP_eq_singleton h]
  simp [hne]

theorem parseDirective_space (s : Str) : parseDirective (space :: s) = parseDirective s := by
  have hwords : words (space :: s) = words s := words_append_blank (by decide) [] s
  have hascii : ((space :: s).all fun c => c < 0x80) = s.all fun c => c < 0x80 := rfl
  unfold parseDirective
  rw [hwords, hascii]

theorem split_append_left {sep : UInt8} {s : Str} (hs : sep ∉ s) (t : Str) :
    ∃ piece rest, split sep t = piece :: rest ∧ split sep (s ++ t) = (s ++ piece) :: rest := by
  obtain ⟨piece, rest, ht⟩ := List.exists_cons_of_ne_nil (split_ne_nil sep t)
  have hpieces : ∀ p ∈ (s ++ piece) :: rest, sep ∉ p := by
    intro p hp
    rcases List.mem_cons.mp hp with rfl | hp
    · have hpiece := not_mem_of_mem_split (ht ▸ List.mem_cons_self : piece ∈ split sep t)
      simp [hs, hpiece]
    · exact not_mem_of_mem_split (ht ▸ List.mem_cons_of_mem _ hp)
  have hjoin : join sep ((s ++ piece) :: rest) = s ++ t := by
    rw [← join_split sep t, ht]
    cases rest with
    | nil => simp [join]
    | cons q qs => rw [join_cons_cons, join_cons_cons, List.append_assoc]
  exact ⟨piece, rest, ht, by rw [← hjoin, split_join sep (by simp) hpieces]⟩

theorem directives_space (s : Str) : directives (space :: s) = directives s := by
  obtain ⟨piece, rest, hs, hspace⟩ :=
    split_append_left (s := [space]) (by decide : semicolon ∉ [space]) s
  unfold directives
  rw [List.singleton_append] at hspace
  rw [hspace, hs, List.singleton_append, List.filterMap_cons, List.filterMap_cons,
    parseDirective_space]

theorem directives_append (s t : Str) :
    directives (s ++ (str "; " ++ t)) = directives s ++ directives t := by
  have hsep : s ++ (str "; " ++ t) = s ++ semicolon :: space :: t := rfl
  rw [← directives_space t, hsep]
  unfold directives
  rw [split_append_cons, List.filterMap_append]

theorem directives_of_not_mem {s : Str} (h : semicolon ∉ s) :
    directives s = (parseDirective s).toList := by
  unfold directives
  rw [split_of_not_mem _ h]
  cases hs : parseDirective s <;> simp [hs]

theorem intercalate_append {sep : Str} {a b : List Str} (ha : a ≠ []) (hb : b ≠ []) :
    sep.intercalate (a ++ b) = sep.intercalate a ++ (sep ++ sep.intercalate b) := by
  induction a with
  | nil => exact absurd rfl ha
  | cons p ps ih =>
      by_cases hps : ps = []
      · rw [hps, List.singleton_append, List.intercalate_cons_of_ne_nil hb,
          List.intercalate_singleton, List.append_assoc]
      · rw [List.cons_append, List.intercalate_cons_of_ne_nil (by simp [hps]), ih hps,
          List.intercalate_cons_of_ne_nil hps]
        simp

/-- A word of a directive. -/
def Solid (s : Str) : Prop := s ≠ [] ∧ ∀ c ∈ s, 0x21 ≤ c ∧ c ≤ 0x7E

theorem Solid.words {s : Str} (h : Solid s) : words s = [s] := by
  apply words_of_solid h.1
  intro c hc
  have hlow := (h.2 c hc).1
  simp only [isBlank, decide_eq_false_iff_not, List.mem_cons, List.not_mem_nil, or_false, not_or]
  refine ⟨?_, ?_, ?_, ?_, ?_⟩ <;> (intro he; rw [he] at hlow; exact absurd hlow (by decide))

theorem Solid.ascii {s : Str} (h : Solid s) : (s.all fun c => c < 0x80) = true := by
  rw [List.all_eq_true]
  intro c hc
  have hlast : (0x7E : UInt8) < 0x80 := by decide
  have hlt : c < 0x80 := UInt8.lt_of_le_of_lt (h.2 c hc).2 hlast
  exact decide_eq_true hlt

theorem solid_of_all {s : Str} (hne : s ≠ []) (h : (s.all fun c => 0x21 ≤ c && c ≤ 0x7E) = true) :
    Solid s := by
  refine ⟨hne, fun c hc => ?_⟩
  simpa using List.all_eq_true.mp h c hc

/-- A text that begins with a name and a space is a directive of that name, or none. -/
theorem parseDirective_named {name : Str} (hn : Solid name) (s : Str) :
    ∀ d ∈ parseDirective (name ++ space :: s), d.1 = lowerAscii name := by
  intro d hd
  unfold parseDirective at hd
  rw [words_append_blank (by decide), hn.words] at hd
  split_ifs at hd
  · rw [← Option.some.inj hd]
  · cases hd

/-! ### What the policy holds -/

def self : Str := str "'self'"

/-- The directives in front of the first that names the identity provider. -/
def leadingDirectives : List Directive :=
  [(str "default-src", [self]), (str "script-src", [self]),
    (str "style-src", [self, str "'unsafe-inline'", str "https://fonts.googleapis.com"]),
    (str "font-src", [self, str "https://fonts.gstatic.com"]),
    (str "img-src", [self, str "blob:", str "data:"]), (str "media-src", [self, str "blob:"])]

/-- The directives with the origins of the identity provider. -/
def originDirectives (origins : List Str) : List Directive :=
  [(str "frame-src", str "blob:" :: origins), (str "connect-src", self :: origins)]

def trailingDirectives : List Directive :=
  [(str "object-src", [str "'none'"]), (str "base-uri", [self]), (str "form-action", [self])]

/-- The directives that are the same for every identity provider. -/
def fixedDirectives : List Directive := leadingDirectives ++ trailingDirectives

/-- The directives that an origin brings along into the first policy. -/
def smuggled (origin : Str) : List Directive :=
  (split semicolon (origin.takeWhile (· ≠ comma))).tail.filterMap parseDirective

/-- What stands behind the origin is neither replaced nor cut off, unless by its like. -/
def Undisturbed (origin : Str) : Prop :=
  ∀ d ∈ trailingDirectives, (smuggled origin).lookup d.1 = some d.2 ∨
    ((smuggled origin).lookup d.1 = none ∧ comma ∉ origin)

theorem smuggled_of_not_mem {origin : Str} (h : semicolon ∉ origin) : smuggled origin = [] := by
  have htake : semicolon ∉ origin.takeWhile (· ≠ comma) :=
    fun hmem => h ((List.takeWhile_prefix _).subset hmem)
  unfold smuggled
  rw [split_of_not_mem _ htake]
  rfl

/-- An origin without the two separators disturbs nothing. -/
theorem undisturbed_of_not_mem {origin : Str} (hsemi : semicolon ∉ origin)
    (hcomma : comma ∉ origin) :
    Undisturbed origin := by
  intro d _
  rw [smuggled_of_not_mem hsemi]
  exact .inr ⟨rfl, hcomma⟩

theorem directives_leading :
    directives ((str "; ").intercalate leadingParts) = leadingDirectives := by
  decide

theorem directives_trailing :
    directives ((str "; ").intercalate trailingParts) = trailingDirectives := by
  decide

theorem buildAppCSP_eq (keycloakURL : Str) :
    buildAppCSP keycloakURL = (str "; ").intercalate leadingParts ++ (str "; " ++
      ((str "frame-src " ++ withOrigin (str "blob:") (originOf keycloakURL)) ++ (str "; " ++
        ((str "connect-src " ++ withOrigin (str "'self'") (originOf keycloakURL)) ++ (str "; " ++
          (str "; ").intercalate trailingParts))))) := by
  unfold buildAppCSP
  rw [intercalate_append (by decide) (List.cons_ne_nil _ _),
    List.intercalate_cons_of_ne_nil (List.cons_ne_nil _ _),
    List.intercalate_cons_of_ne_nil (by decide)]
  simp only [List.append_assoc]

/-- A source list with an origin: the directive itself, if it is one, and what the origin brings. -/
theorem directives_sources {name source : Str} (hn : Solid name)
    (hsemi : semicolon ∉ name ++ space :: source) (origin : Str) :
    ∃ opening : Option Directive, (∀ d ∈ opening, d.1 = lowerAscii name) ∧
      directives (name ++ space :: (source ++ space :: origin)) =
        opening.toList ++ (split semicolon origin).tail.filterMap parseDirective := by
  have hfront : semicolon ∉ name ++ space :: (source ++ [space]) := by
    have hspace : semicolon ≠ space := by decide
    simp only [List.mem_append, List.mem_cons, List.not_mem_nil, or_false] at hsemi ⊢
    tauto
  obtain ⟨piece, rest, horigin, hsplit⟩ := split_append_left hfront origin
  have htext : name ++ space :: (source ++ space :: origin) =
      name ++ space :: (source ++ [space]) ++ origin := by simp
  have hpiece : name ++ space :: (source ++ [space]) ++ piece =
      name ++ space :: (source ++ space :: piece) := by simp
  refine ⟨_, parseDirective_named hn (source ++ space :: piece), ?_⟩
  unfold directives
  rw [htext, hsplit, horigin, hpiece, List.tail_cons]
  cases hd : parseDirective (name ++ space :: (source ++ space :: piece)) <;> simp [hd]

theorem directives_withOrigin {name source : Str} (hn : Solid name)
    (hsemi : semicolon ∉ name ++ space :: source) (origin : Str) :
    ∃ opening : Option Directive, (∀ d ∈ opening, d.1 = lowerAscii name) ∧
      directives (name ++ space :: withOrigin source origin) =
        opening.toList ++ (split semicolon origin).tail.filterMap parseDirective := by
  unfold withOrigin
  split_ifs with hnil
  · refine ⟨_, parseDirective_named hn source, ?_⟩
    rw [directives_of_not_mem hsemi, hnil]
    simp
  · exact directives_sources hn hsemi origin

theorem not_mem_withOrigin {source origin : Str} {c : UInt8} (hc : c ≠ space) (hs : c ∉ source)
    (ho : c ∉ origin) : c ∉ withOrigin source origin := by
  unfold withOrigin
  split_ifs
  · exact hs
  · simp [hs, hc, ho]

theorem solid_names : Solid (str "frame-src") ∧ Solid (str "blob:") ∧ Solid (str "connect-src") ∧
    Solid (str "'self'") := by
  have hall : ∀ s ∈ [str "frame-src", str "blob:", str "connect-src", str "'self'"],
      s ≠ [] ∧ (s.all fun c => 0x21 ≤ c && c ≤ 0x7E) = true := by decide
  simpa using fun s hs => solid_of_all (hall s hs).1 (hall s hs).2

theorem comma_not_mem {keycloakURL : Str} (h : comma ∉ originOf keycloakURL) :
    comma ∉ buildAppCSP keycloakURL := by
  have hspace : comma ≠ space := by decide
  have hframe := not_mem_withOrigin hspace (by decide : comma ∉ str "blob:") h
  have hconnect := not_mem_withOrigin hspace (by decide : comma ∉ str "'self'") h
  have hconst : comma ∉ (str "; ").intercalate leadingParts ++ (str "; " ++ (str "frame-src " ++
      (str "connect-src " ++ (str "; ").intercalate trailingParts))) := by decide
  rw [buildAppCSP_eq]
  simp only [List.mem_append] at hconst ⊢
  tauto

theorem directives_buildAppCSP (keycloakURL : Str) : directives (buildAppCSP keycloakURL) =
    leadingDirectives ++
      (directives (str "frame-src" ++ space :: withOrigin (str "blob:") (originOf keycloakURL)) ++
      (directives (str "connect-src" ++ space ::
        withOrigin (str "'self'") (originOf keycloakURL)) ++ trailingDirectives)) := by
  rw [buildAppCSP_eq, directives_append, directives_append, directives_append, directives_leading,
    directives_trailing]
  rfl

/-- With a comma in the origin the first policy ends there. -/
theorem split_comma_of_origin {keycloakURL head tail : Str}
    (horigin : originOf keycloakURL = head ++ comma :: tail) (hhead : comma ∉ head) :
    ∃ rest, split comma (buildAppCSP keycloakURL) = ((str "; ").intercalate leadingParts ++
      (str "; " ++ (str "frame-src" ++ space :: (str "blob:" ++ space :: head)))) :: rest := by
  have hsources : withOrigin (str "blob:") (originOf keycloakURL) =
      str "blob:" ++ space :: (head ++ comma :: tail) := by
    rw [horigin]
    exact if_neg (by simp)
  obtain ⟨more, htext⟩ : ∃ more, buildAppCSP keycloakURL = (str "; ").intercalate leadingParts ++
      (str "; " ++ (str "frame-src" ++ space :: (str "blob:" ++ space :: head))) ++
        comma :: more := by
    rw [buildAppCSP_eq, hsources]
    refine ⟨tail ++ (str "; " ++ ((str "connect-src " ++ withOrigin (str "'self'")
      (originOf keycloakURL)) ++ (str "; " ++ (str "; ").intercalate trailingParts))), ?_⟩
    simp only [List.append_assoc, List.cons_append]
    rfl
  have hfirst : comma ∉ (str "; ").intercalate leadingParts ++ (str "; " ++
      (str "frame-src" ++ space :: (str "blob:" ++ space :: head))) := by
    have hconst : comma ∉ (str "; ").intercalate leadingParts ++ (str "; " ++
      (str "frame-src" ++ space :: (str "blob:" ++ [space]))) := by decide
    simp only [List.mem_append, List.mem_cons, List.not_mem_nil, or_false] at hconst ⊢
    tauto
  refine ⟨split comma more, ?_⟩
  rw [htext, split_append_cons, split_of_not_mem comma hfirst]
  rfl

theorem first_piece (keycloakURL : Str) : ∃ s rest, ∃ frame connect : Option Directive,
    split comma (buildAppCSP keycloakURL) = s :: rest ∧
      (∀ d ∈ frame, d.1 = str "frame-src") ∧ (∀ d ∈ connect, d.1 = str "connect-src") ∧
      directives s = leadingDirectives ++ (frame.toList ++ (smuggled (originOf keycloakURL) ++
        if comma ∈ originOf keycloakURL then []
        else connect.toList ++ (smuggled (originOf keycloakURL) ++ trailingDirectives))) := by
  have hblob : semicolon ∉ str "frame-src" ++ space :: str "blob:" := by decide
  have hself : semicolon ∉ str "connect-src" ++ space :: str "'self'" := by decide
  by_cases hcomma : comma ∈ originOf keycloakURL
  · -- the first policy ends within the origin
    obtain ⟨head, tail, horigin, hhead⟩ := List.eq_append_cons_of_mem hcomma
    have hcut : (originOf keycloakURL).takeWhile (· ≠ comma) = head := by
      rw [horigin,
        List.takeWhile_append_of_pos (by simpa using fun c hc => ne_of_mem_of_not_mem hc hhead)]
      simp
    obtain ⟨frame, hframe, hdirectives⟩ := directives_sources solid_names.1 hblob head
    obtain ⟨rest, hpiece⟩ := split_comma_of_origin horigin hhead
    refine ⟨_, rest, frame, none, hpiece, hframe, fun d hd => absurd hd (Option.not_mem_none d), ?_⟩
    rw [directives_append, directives_leading, hdirectives, if_pos hcomma, List.append_nil]
    unfold smuggled
    rw [hcut]
  · have hcut : (originOf keycloakURL).takeWhile (· ≠ comma) = originOf keycloakURL := by
      rw [List.takeWhile_eq_self_iff]
      simpa using fun c hc => ne_of_mem_of_not_mem hc hcomma
    obtain ⟨frame, hframe, hfirst⟩ :=
      directives_withOrigin solid_names.1 hblob (originOf keycloakURL)
    obtain ⟨connect, hconnect, hsecond⟩ :=
      directives_withOrigin solid_names.2.2.1 hself (originOf keycloakURL)
    refine ⟨_, [], frame, connect, split_of_not_mem comma (comma_not_mem hcomma), hframe, hconnect,
      ?_⟩
    rw [directives_buildAppCSP, hfirst, hsecond, if_neg hcomma]
    unfold smuggled
    rw [hcut]
    simp only [List.append_assoc]

theorem first_policy (keycloakURL : Str) : ∃ policy rest, ∃ frame connect : Option Directive,
    parsePolicies (buildAppCSP keycloakURL) = policy :: rest ∧
      (∀ d ∈ frame, d.1 = str "frame-src") ∧ (∀ d ∈ connect, d.1 = str "connect-src") ∧
      ∀ name, policy.lookup name = (leadingDirectives ++ (frame.toList ++
        (smuggled (originOf keycloakURL) ++ if comma ∈ originOf keycloakURL then []
        else connect.toList ++ (smuggled (originOf keycloakURL) ++
          trailingDirectives)))).lookup name := by
  obtain ⟨s, rest, frame, connect, hsplit, hframe, hconnect, hdirectives⟩ := first_piece keycloakURL
  have hlookup : ∀ name, (parsePolicy s).lookup name = (directives s).lookup name :=
    lookup_parsePolicy s
  rw [hdirectives] at hlookup
  have hne : parsePolicy s ≠ [] := by
    intro hnil
    have hdefault := hlookup (str "default-src")
    rw [hnil, List.lookup_append] at hdefault
    cases hdefault
  refine ⟨parsePolicy s, (rest.map parsePolicy).filter fun policy => policy ≠ [], frame, connect,
    ?_, hframe, hconnect, hlookup⟩
  unfold parsePolicies
  rw [hsplit, List.map_cons]
  exact List.filter_cons_of_pos (by simpa using hne)

theorem lookup_toList {d : Option Directive} {name other : Str} (hd : ∀ x ∈ d, x.1 = other)
    (hne : name ≠ other) : d.toList.lookup name = none := by
  rw [List.lookup_eq_none_iff]
  intro x hx
  rw [hd x (Option.mem_toList.mp hx)]
  simpa using hne

/-- In the first policy the directives in front of the origin hold for every URL, and all the fixed
ones exactly if the origin disturbs none of them. -/
theorem fixed_hold_iff (keycloakURL : Str) : ∃ policy rest,
    parsePolicies (buildAppCSP keycloakURL) = policy :: rest ∧
      (∀ d ∈ leadingDirectives, policy.lookup d.1 = some d.2) ∧
      ((∀ d ∈ fixedDirectives, policy.lookup d.1 = some d.2) ↔
        Undisturbed (originOf keycloakURL)) := by
  obtain ⟨policy, rest, frame, connect, hpolicies, hframe, hconnect, hlookup⟩ :=
    first_policy keycloakURL
  have hleading : ∀ d ∈ leadingDirectives, policy.lookup d.1 = some d.2 := by
    have hhere : ∀ d ∈ leadingDirectives, leadingDirectives.lookup d.1 = some d.2 := by decide
    intro d hd
    rw [hlookup, List.lookup_append, hhere d hd, Option.some_or]
  have htrailing : ∀ d ∈ trailingDirectives, policy.lookup d.1 =
      ((smuggled (originOf keycloakURL)).lookup d.1).or
        (if comma ∈ originOf keycloakURL then none else some d.2) := by
    have hothers : ∀ d ∈ trailingDirectives, leadingDirectives.lookup d.1 = none ∧
        d.1 ≠ str "frame-src" ∧ d.1 ≠ str "connect-src" ∧
          trailingDirectives.lookup d.1 = some d.2 := by
      decide
    intro d hd
    obtain ⟨hnone, hnotframe, hnotconnect, hhere⟩ := hothers d hd
    rw [hlookup, List.lookup_append, hnone, Option.none_or, List.lookup_append,
      lookup_toList hframe hnotframe, Option.none_or, List.lookup_append]
    split_ifs
    · rfl
    · rw [List.lookup_append, lookup_toList hconnect hnotconnect, Option.none_or,
        List.lookup_append, hhere, ← Option.or_assoc, Option.or_self]
  refine ⟨policy, rest, hpolicies, hleading, ?_⟩
  constructor
  · intro hall d hd
    have hvalue := hall d (List.mem_append_right _ hd)
    rw [htrailing d hd] at hvalue
    rcases hbrought : (smuggled (originOf keycloakURL)).lookup d.1 with _ | values
    · rw [hbrought, Option.none_or] at hvalue
      split_ifs at hvalue with hcomma
      exact .inr ⟨rfl, hcomma⟩
    · rw [hbrought, Option.some_or] at hvalue
      exact .inl hvalue
  · intro hundisturbed d hd
    rcases List.mem_append.mp hd with hd | hd
    · exact hleading d hd
    · rw [htrailing d hd]
      rcases hundisturbed d hd with hlike | ⟨hnone, hcomma⟩
      · rw [hlike, Option.some_or]
      · rw [hnone, Option.none_or, if_neg hcomma]

/-- The bytes of an origin that means one source. -/
def OneSource (origin : Str) : Prop :=
  ∀ c ∈ origin, 0x21 ≤ c ∧ c ≤ 0x7E ∧ c ≠ semicolon ∧ c ≠ comma

def origins (origin : Str) : List Str := if origin = [] then [] else [origin]

theorem parseDirective_withOrigin {name source origin : Str} (hn : Solid name) (hs : Solid source)
    (ho : OneSource origin) : parseDirective (name ++ space :: withOrigin source origin)
      = some (lowerAscii name, source :: origins origin) := by
  have hblank : isBlank space = true := by decide
  have hspace : (decide (space < 0x80)) = true := by decide
  unfold parseDirective withOrigin origins
  by_cases hnil : origin = []
  · rw [if_pos hnil, if_pos hnil, words_append_blank hblank, hn.words, hs.words, List.all_append,
      List.all_cons, hn.ascii, hs.ascii, hspace]
    rfl
  · have horigin : Solid origin := ⟨hnil, fun c hc => ⟨(ho c hc).1, (ho c hc).2.1⟩⟩
    rw [if_neg hnil, if_neg hnil, words_append_blank hblank, words_append_blank hblank, hn.words,
      hs.words, horigin.words, List.all_append, List.all_cons, List.all_append, List.all_cons,
      hn.ascii, hs.ascii, horigin.ascii, hspace]
    rfl

/-- With an ordinary origin, or none, the header is one policy with every directive as written. -/
theorem whole_policy {keycloakURL : Str} (h : OneSource (originOf keycloakURL)) :
    parsePolicies (buildAppCSP keycloakURL) =
      [leadingDirectives ++ originDirectives (origins (originOf keycloakURL)) ++
        trailingDirectives] := by
  have hcomma : comma ∉ originOf keycloakURL := fun hmem => (h _ hmem).2.2.2 rfl
  have hsemi : semicolon ∉ originOf keycloakURL := fun hmem => (h _ hmem).2.2.1 rfl
  have hframe :
      directives (str "frame-src" ++ space :: withOrigin (str "blob:") (originOf keycloakURL))
      = [(str "frame-src", str "blob:" :: origins (originOf keycloakURL))] := by
    have hnone := not_mem_withOrigin (by decide) (by decide : semicolon ∉ str "blob:") hsemi
    have hname : semicolon ∉ str "frame-src" ++ [space] := by decide
    rw [directives_of_not_mem (by simp only [List.mem_append, List.mem_cons] at hname ⊢; tauto),
      parseDirective_withOrigin solid_names.1 solid_names.2.1 h]
    rfl
  have hconnect :
      directives (str "connect-src" ++ space :: withOrigin (str "'self'") (originOf keycloakURL))
      = [(str "connect-src", self :: origins (originOf keycloakURL))] := by
    have hnone := not_mem_withOrigin (by decide) (by decide : semicolon ∉ str "'self'") hsemi
    have hname : semicolon ∉ str "connect-src" ++ [space] := by decide
    rw [directives_of_not_mem (by simp only [List.mem_append, List.mem_cons] at hname ⊢; tauto),
      parseDirective_withOrigin solid_names.2.2.1 solid_names.2.2.2 h]
    rfl
  have hpolicy : parsePolicy (buildAppCSP keycloakURL) =
      leadingDirectives ++ originDirectives (origins (originOf keycloakURL)) ++
        trailingDirectives := by
    have hnames : (leadingDirectives ++ (originDirectives [] ++ trailingDirectives)).map Prod.fst =
        (leadingDirectives ++ (originDirectives (origins (originOf keycloakURL)) ++
          trailingDirectives)).map Prod.fst := rfl
    have hdistinct : (([] : List Directive) ++ (leadingDirectives ++
        (originDirectives (origins (originOf keycloakURL)) ++ trailingDirectives))).map Prod.fst
          |>.Nodup := by
      rw [List.nil_append, ← hnames]
      decide
    have hall : directives (buildAppCSP keycloakURL) = leadingDirectives ++
        (originDirectives (origins (originOf keycloakURL)) ++ trailingDirectives) := by
      rw [directives_buildAppCSP, hframe, hconnect]
      rfl
    unfold parsePolicy
    rw [hall, foldl_addDirective hdistinct, List.nil_append, List.append_assoc]
  unfold parsePolicies
  rw [split_of_not_mem comma (comma_not_mem hcomma), List.map_singleton, hpolicy]
  rfl

/-- What a browser enforces of the policy's fixed directives, for every URL: always those in front
of the origin, and all of them exactly if the origin disturbs none, as one without separators does.
For an ordinary origin or none the header is the policy as written and nothing else. -/
theorem appPolicy_enforced :
    (∀ keycloakURL, ∃ policy rest, parsePolicies (buildAppCSP keycloakURL) = policy :: rest ∧
      (∀ d ∈ leadingDirectives, policy.lookup d.1 = some d.2) ∧
      ((∀ d ∈ fixedDirectives, policy.lookup d.1 = some d.2) ↔
        Undisturbed (originOf keycloakURL))) ∧
    (∀ origin : Str, semicolon ∉ origin → comma ∉ origin → Undisturbed origin) ∧
    ∀ keycloakURL, OneSource (originOf keycloakURL) → parsePolicies (buildAppCSP keycloakURL) =
      [leadingDirectives ++ originDirectives (origins (originOf keycloakURL)) ++
        trailingDirectives] :=
  ⟨fixed_hold_iff, fun _ hsemi hcomma => undisturbed_of_not_mem hsemi hcomma,
    fun _ h => whole_policy h⟩

/-- A URL whose host has a zone with a directive in it. -/
def smugglingURL : Str := str "http://[::1%25;base-uri%20*;]"

/-- Without an identity provider only the application itself is reached; and a zone can bring a
directive along that takes the place of a fixed one. -/
theorem appPolicy_enforced_none :
    parsePolicies (buildAppCSP []) =
      [leadingDirectives ++ originDirectives [] ++ trailingDirectives] ∧
      ∃ policy rest, parsePolicies (buildAppCSP smugglingURL) = policy :: rest ∧
        ¬∀ d ∈ fixedDirectives, policy.lookup d.1 = some d.2 := by
  constructor
  · have horigin : originOf [] = [] := by decide
    have hsource : OneSource (originOf []) := by
      rw [horigin]
      exact fun c hc => absurd hc List.not_mem_nil
    have hwhole := appPolicy_enforced.2.2 [] hsource
    rwa [horigin] at hwhole
  · obtain ⟨policy, rest, hpolicies, -, hiff⟩ := appPolicy_enforced.1 smugglingURL
    refine ⟨policy, rest, hpolicies, fun hall => ?_⟩
    have hundisturbed := hiff.mp hall (str "base-uri", [self]) (by decide)
    have hbrought : (smuggled (originOf smugglingURL)).lookup (str "base-uri") =
        some [str "*"] := by
      decide +kernel
    rw [hbrought] at hundisturbed
    exact absurd hundisturbed (by decide)

end PierGateway.WebUI
