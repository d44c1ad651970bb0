import PierGateway.Claims
import PierGateway.EffectivePermissions

/-!
# The grammar of group names

A group name is a bucket, a hyphen and a policy, after any number of slashes. The
resolver cuts at the last hyphen, and no policy contains one, so a name is read in
at most one way. Slashes in front are removed twice on the way from a token to a
decision, one by the claim mapper and all of them here; the first removal is
invisible in every reading of the groups.
-/
namespace PierGateway.Acl
open GoStrings Auth

/-! ### One name -/

/-- The policies a group name can end in. -/
def policies : List Str := [str "ro", str "rw", str "wo"]

theorem isNone_lookup_validPolicies {policy : Str} :
    (validPolicies.lookup policy).isNone ↔ policy ∉ policies := by
  rw [Option.isNone_iff_eq_none, List.lookup_eq_none_iff]
  simp [validPolicies, policies]

theorem hyphen_not_mem_of_mem_policies {policy : Str} (h : policy ∈ policies) :
    hyphen ∉ policy := by
  simp only [policies, List.mem_cons, List.not_mem_nil, or_false] at h
  rcases h with rfl | rfl | rfl <;> simp [str, String.utf8EncodeChar, hyphen]

/-- A bucket, a hyphen and a policy: what a name says once its slashes are gone. -/
def Names (name bucket policy : Str) : Prop :=
  name = bucket ++ hyphen :: policy ∧ policy ∈ policies ∧ bucket ≠ []

theorem parseGroup_eq_some_iff {group bucket policy : Str} :
    parseGroup group = some (bucket, policy) ↔ Names (trimLeft slash group) bucket policy := by
  unfold parseGroup Names
  dsimp only
  generalize trimLeft slash group = name
  constructor
  · intro h
    split_ifs at h with hname
    split at h
    · contradiction
    next b p hcut =>
      split_ifs at h with hpol hb
      obtain ⟨rfl, rfl⟩ := Prod.mk.inj (Option.some.inj h)
      rw [isNone_lookup_validPolicies, not_not] at hpol
      exact ⟨(lastCut_eq_some_iff.mp hcut).1, hpol, hb⟩
  · rintro ⟨rfl, hpol, hb⟩
    have hcut := lastCut_append bucket (hyphen_not_mem_of_mem_policies hpol)
    have hvalid := (not_congr isNone_lookup_validPolicies).mpr (not_not.mpr hpol)
    rw [if_neg (by simp), hcut]
    simp only [if_neg hvalid, if_neg hb]

/-- No name is read in two ways, since policies have no hyphen. -/
theorem Names.unique {name bucket policy bucket' policy' : Str} (h : Names name bucket policy)
    (h' : Names name bucket' policy') : bucket' = bucket ∧ policy' = policy := by
  have hcut := lastCut_eq_some_iff.mpr ⟨h.1, hyphen_not_mem_of_mem_policies h.2.1⟩
  have hcut' := lastCut_eq_some_iff.mpr ⟨h'.1, hyphen_not_mem_of_mem_policies h'.2.1⟩
  rw [hcut] at hcut'
  exact ⟨(Prod.mk.inj (Option.some.inj hcut')).1.symm, (Prod.mk.inj (Option.some.inj hcut')).2.symm⟩

theorem parseGroup_eq_none_iff {group : Str} :
    parseGroup group = none ↔ ¬∃ bucket policy, Names (trimLeft slash group) bucket policy := by
  rw [Option.eq_none_iff_forall_ne_some]
  simp only [Prod.forall, ne_eq, parseGroup_eq_some_iff, not_exists]

theorem trimLeft_replicate_append (n : ℕ) {name : Str} (h : name.head? ≠ some slash) :
    trimLeft slash (List.replicate n slash ++ name) = name := by
  unfold trimLeft
  induction n with
  | zero =>
      cases name with
      | nil => rfl
      | cons c name =>
          have hc : c ≠ slash := by simpa using h
          simp [hc]
  | succ n ih => simpa [List.replicate_succ] using ih

/-- Whatever hyphens, slashes or policies the bucket has, slashes in front of it do not matter. -/
theorem parseGroup_replicate_append (n : ℕ) {bucket policy : Str} (hne : bucket ≠ [])
    (hhead : bucket.head? ≠ some slash) (hpol : policy ∈ policies) :
    parseGroup (List.replicate n slash ++ (bucket ++ hyphen :: policy)) =
      some (bucket, policy) := by
  have hhead' : (bucket ++ hyphen :: policy).head? ≠ some slash := by
    rwa [List.head?_append_of_ne_nil bucket hne]
  rw [parseGroup_eq_some_iff, trimLeft_replicate_append n hhead']
  exact ⟨rfl, hpol, hne⟩

/-! ### Slashes stripped before the resolver -/

theorem trimLeft_stripLeadingSlash (s : Str) :
    trimLeft slash (stripLeadingSlash s) = trimLeft slash s := by
  unfold stripLeadingSlash trimPrefix
  split_ifs with h
  · obtain ⟨t, rfl⟩ := List.isPrefixOf_iff_prefix.mp h
    simp [trimLeft]
  · rfl

theorem parseGroup_stripLeadingSlash (group : Str) :
    parseGroup (stripLeadingSlash group) = parseGroup group := by
  unfold parseGroup
  rw [trimLeft_stripLeadingSlash]

theorem groupGrants_map_stripLeadingSlash (groups : List Str) :
    groupGrants (groups.map stripLeadingSlash) = groupGrants groups := by
  unfold groupGrants
  rw [List.filterMap_map]
  congr 1
  funext group
  simp [parseGroup_stripLeadingSlash]

theorem mem_groupGrants_sortStrings (groups : List Str) (e : Str × PolicyGrants) :
    e ∈ groupGrants (sortStrings groups) ↔ e ∈ groupGrants groups :=
  mem_groupGrants_congr (fun _ => (List.perm_insertionSort _ groups).mem_iff) e

/-- Two lists of groups that every reading of the resolver takes for the same. -/
structure SameDecisions (groups groups' : List Str) : Prop where
  access : ∀ bucket method, checkAccess groups' bucket method = checkAccess groups bucket method
  wildcard : wildcardGrant groups' = wildcardGrant groups
  effective : effectiveBuckets groups' = effectiveBuckets groups

theorem SameDecisions.of_grants {groups groups' : List Str}
    (h : ∀ e, e ∈ groupGrants groups' ↔ e ∈ groupGrants groups) : SameDecisions groups groups' :=
  ⟨checkAccess_congr h, wildcardGrant_congr h, effectiveBuckets_congr h⟩

end PierGateway.Acl

namespace PierGateway.Auth
open GoStrings Acl

/-- The names of an array as the token has them. -/
def unstrippedItems (items : List Json) : List Str :=
  items.filterMap fun item =>
    match item with
    | .string s => some s
    | _ => none

/-- `extractGroups` without the stripping. -/
def unstrippedGroups (claims : MapClaims) : List Str :=
  let direct :=
    match claims.lookup (str "groups") with
    | some (.array items) => unstrippedItems items
    | _ => []
  let roles :=
    match claims.lookup (str "realm_access") with
    | some (.object access) =>
        match access.lookup (str "roles") with
        | some (.array items) => unstrippedItems items
        | _ => []
    | _ => []
  direct ++ roles

/-- `toGroupStrings` without the stripping. -/
def unstrippedGroupStrings : Json → List Str
  | .array items => unstrippedItems items
  | .object fields => sortStrings (fields.map Prod.fst).dedup
  | .string (c :: s) => [c :: s]
  | _ => []

theorem stringItems_eq (items : List Json) :
    stringItems items = (unstrippedItems items).map stripLeadingSlash := by
  unfold stringItems unstrippedItems
  rw [List.map_filterMap]
  congr 1
  funext item
  cases item <;> rfl

theorem extractGroups_eq (claims : MapClaims) :
    extractGroups claims = (unstrippedGroups claims).map stripLeadingSlash := by
  have hdirect : ∀ v : Option Json,
      (match v with | some (.array items) => stringItems items | _ => []) =
        (match v with | some (.array items) => unstrippedItems items | _ => []).map
          stripLeadingSlash := by
    intro v
    split
    · exact stringItems_eq _
    · rfl
  unfold extractGroups unstrippedGroups
  simp only [List.map_append]
  rw [← hdirect]
  congr 1
  generalize claims.lookup (str "realm_access") = access
  cases access with
  | none => rfl
  | some access =>
      cases access with
      | object fields => exact hdirect _
      | null | bool | number | string | array => rfl

theorem sameDecisions_extractGroups (claims : MapClaims) :
    SameDecisions (unstrippedGroups claims) (extractGroups claims) := by
  apply SameDecisions.of_grants
  intro e
  rw [extractGroups_eq, groupGrants_map_stripLeadingSlash]

/-- The keys of an object are sorted after stripping, so only their set survives. -/
theorem sameDecisions_toGroupStrings (v : Json) :
    SameDecisions (unstrippedGroupStrings v) (toGroupStrings v) := by
  apply SameDecisions.of_grants
  intro e
  unfold unstrippedGroupStrings
  split
  · rw [toGroupStrings, stringItems_eq, groupGrants_map_stripLeadingSlash]
  · rw [toGroupStrings, mem_groupGrants_sortStrings, mem_groupGrants_sortStrings,
      groupGrants_map_stripLeadingSlash]
  · next c s =>
      have hone := groupGrants_map_stripLeadingSlash [c :: s]
      rw [List.map_singleton] at hone
      rw [toGroupStrings, hone]
  · next h₁ h₂ h₃ => rw [toGroupStrings] <;> assumption

/-- A group name is read exactly by the grammar, in one way; slashes in front never matter,
and stripping one of them beforehand changes no decision. -/
theorem parseGroup_grammar :
    (∀ group bucket policy, parseGroup group = some (bucket, policy) ↔
        Names (trimLeft slash group) bucket policy) ∧
      (∀ name bucket policy bucket' policy', Names name bucket policy →
        Names name bucket' policy' → bucket' = bucket ∧ policy' = policy) ∧
      (∀ group, parseGroup group = none ↔
        ¬∃ bucket policy, Names (trimLeft slash group) bucket policy) ∧
      (∀ (n : ℕ) bucket policy, bucket ≠ [] → bucket.head? ≠ some slash → policy ∈ policies →
        parseGroup (List.replicate n slash ++ (bucket ++ hyphen :: policy)) =
          some (bucket, policy)) ∧
      (∀ claims, SameDecisions (unstrippedGroups claims) (extractGroups claims)) ∧
      ∀ v, SameDecisions (unstrippedGroupStrings v) (toGroupStrings v) := by
  refine ⟨?_, ?_, ?_, ?_, sameDecisions_extractGroups, sameDecisions_toGroupStrings⟩
  · intro group bucket policy
    exact parseGroup_eq_some_iff
  · intro name bucket policy bucket' policy' h h'
    exact h.unique h'
  · intro group
    exact parseGroup_eq_none_iff
  · intro n bucket policy hne hhead hpol
    exact parseGroup_replicate_append n hne hhead hpol

theorem parseGroup_grammar_hyphens :
    parseGroup (str "//" ++ str "-x/--a-ro-wo") = some (str "-x/--a-ro", str "wo") ∧
      ∀ bucket policy, Names (str "-x/--a-ro-wo") bucket policy →
        bucket = str "-x/--a-ro" ∧ policy = str "wo" := by
  have hpol : str "wo" ∈ policies := by simp [policies]
  have hhead : (str "-x/--a-ro").head? ≠ some slash := by simp [str, String.utf8EncodeChar, slash]
  have hnames : Names (str "-x/--a-ro-wo") (str "-x/--a-ro") (str "wo") := ⟨rfl, hpol, by simp⟩
  constructor
  · exact parseGroup_grammar.2.2.2.1 2 _ _ (by simp) hhead hpol
  · intro bucket policy h
    exact parseGroup_grammar.2.1 _ _ _ bucket policy hnames h

end PierGateway.Auth
