import PierGateway.GroupNames

/-!
# What the claim mapper reads from a token

A token's claims are an untyped tree. Here is what it means for a value to stand at
a dotted path of the tree and which names a value of each shape gives; both
extractors are then shown to return exactly these names, the configured one for
every path and the default one for its two fixed places.
-/
namespace PierGateway.Auth
open GoStrings

/-! ### Values at a path -/

/-- Following the path from one value through the fields of objects leads to another. -/
inductive At : List Str → Json → Json → Prop
  | here (v : Json) : At [] v v
  | field {part : Str} {parts : List Str} {fields : List (Str × Json)} {child v : Json} :
      fields.lookup part = some child → At parts child v → At (part :: parts) (.object fields) v

/-- A step of the path is missing, or is taken from a value that is not an object. -/
inductive Breaks : List Str → Json → Prop
  | shape {part : Str} {parts : List Str} {v : Json} :
      (∀ fields, v ≠ .object fields) → Breaks (part :: parts) v
  | missing {part : Str} {parts : List Str} {fields : List (Str × Json)} :
      fields.lookup part = none → Breaks (part :: parts) (.object fields)
  | field {part : Str} {parts : List Str} {fields : List (Str × Json)} {child : Json} :
      fields.lookup part = some child → Breaks parts child → Breaks (part :: parts) (.object fields)

theorem lookupPath_of_at {parts : List Str} {cur v : Json} (h : At parts cur v) :
    lookupPath parts cur = some v := by
  induction h with
  | here v => rfl
  | field hchild _ ih => rw [lookupPath, hchild, Option.bind_some, ih]

theorem lookupPath_of_breaks {parts : List Str} {cur : Json} (h : Breaks parts cur) :
    lookupPath parts cur = none := by
  induction h with
  | @shape part parts v hshape =>
      cases v with
      | object fields => exact absurd rfl (hshape fields)
      | null | bool | number | string | array => rfl
  | missing hnone => rw [lookupPath, hnone, Option.bind_none]
  | field hchild _ ih => rw [lookupPath, hchild, Option.bind_some, ih]

/-- A path leads somewhere or breaks. -/
theorem at_or_breaks (parts : List Str) (cur : Json) :
    (∃ v, At parts cur v) ∨ Breaks parts cur := by
  induction parts generalizing cur with
  | nil => exact .inl ⟨cur, .here cur⟩
  | cons part parts ih =>
      cases cur with
      | object fields =>
          cases hchild : fields.lookup part with
          | none => exact .inr (.missing hchild)
          | some child =>
              rcases ih child with ⟨v, hv⟩ | hbreak
              · exact .inl ⟨v, .field hchild hv⟩
              · exact .inr (.field hchild hbreak)
      | null | bool | number | string | array =>
          exact .inr (.shape fun fields h => nomatch h)

theorem at_iff {parts : List Str} {cur v : Json} :
    At parts cur v ↔ lookupPath parts cur = some v := by
  constructor
  · exact lookupPath_of_at
  · intro h
    rcases at_or_breaks parts cur with ⟨w, hw⟩ | hbreak
    · rw [lookupPath_of_at hw] at h
      exact Option.some.inj h ▸ hw
    · rw [lookupPath_of_breaks hbreak] at h
      exact absurd h (Option.some_ne_none v).symm

/-! ### Names in a value -/

/-- The strings among the elements of an array, in order. -/
inductive StringElements : List Json → List Str → Prop
  | nil : StringElements [] []
  | string {items : List Json} {names : List Str} (s : Str) :
      StringElements items names → StringElements (.string s :: items) (s :: names)
  | other {v : Json} {items : List Json} {names : List Str} :
      (∀ s, v ≠ .string s) → StringElements items names → StringElements (v :: items) names

theorem StringElements.iff {items : List Json} {names : List Str} :
    StringElements items names ↔ unstrippedItems items = names := by
  constructor
  · intro h
    induction h with
    | nil => rfl
    | string s _ ih => rw [← ih]; rfl
    | @other v items names hv _ ih =>
        rw [← ih]
        cases v with
        | string s => exact absurd rfl (hv s)
        | null | bool | number | array | object => rfl
  · rintro rfl
    induction items with
    | nil => exact .nil
    | cons v items ih =>
        cases v with
        | string s => exact .string s ih
        | null | bool | number | array | object => exact .other (fun s h => nomatch h) ih

/-- The group names a value gives, each without one leading slash: the strings of an array,
the keys of an object in the order of the stripped names, a string that is not empty. -/
inductive Gives : Json → List Str → Prop
  | array {items : List Json} {names : List Str} :
      StringElements items names → Gives (.array items) (names.map stripLeadingSlash)
  | object {fields : List (Str × Json)} {keys names : List Str} :
      keys.Nodup → (∀ key, key ∈ keys ↔ (fields.lookup key).isSome) →
      names.Perm (keys.map stripLeadingSlash) → names.Pairwise (· ≤ ·) →
      Gives (.object fields) names
  | string {s : Str} : s ≠ [] → Gives (.string s) [stripLeadingSlash s]
  | empty : Gives (.string []) []
  | null : Gives .null []
  | bool (b : Bool) : Gives (.bool b) []
  | number (text : Str) : Gives (.number text) []

theorem isSome_lookup_iff {fields : List (Str × Json)} {key : Str} :
    (fields.lookup key).isSome ↔ key ∈ (fields.map Prod.fst).dedup := by
  rw [List.mem_dedup, Option.isSome_iff_ne_none, ne_eq, List.lookup_eq_none_iff, List.mem_map]
  simp [eq_comm (a := key)]

/-- Sorting is determined by what is sorted. -/
theorem eq_sortStrings_iff {l names : List Str} :
    sortStrings l = names ↔ names.Perm l ∧ names.Pairwise (· ≤ ·) := by
  have htotal : Std.Total fun a b : Str => a ≤ b := ⟨List.le_total⟩
  have htrans : IsTrans Str fun a b => a ≤ b := ⟨fun _ _ _ => List.le_trans⟩
  have hantisymm : Std.Antisymm fun a b : Str => a ≤ b := ⟨fun _ _ => List.le_antisymm⟩
  have hperm := List.perm_insertionSort (fun a b : Str => a ≤ b) l
  have hsorted := List.pairwise_insertionSort (fun a b : Str => a ≤ b) l
  constructor
  · rintro rfl
    exact ⟨hperm, hsorted⟩
  · rintro ⟨hperm', hsorted'⟩
    exact (hperm.trans hperm'.symm).eq_of_pairwise' hsorted hsorted'

theorem Gives.iff {v : Json} {names : List Str} : Gives v names ↔ toGroupStrings v = names := by
  constructor
  · intro h
    cases h with
    | array hitems => rw [toGroupStrings, stringItems_eq, StringElements.iff.mp hitems]
    | @object fields keys _ hnodup hkeys hperm hsorted =>
        have hsame : (fields.map Prod.fst).dedup.Perm keys :=
          (List.perm_ext_iff_of_nodup (List.nodup_dedup _) hnodup).mpr fun key => by
            rw [hkeys, isSome_lookup_iff]
        rw [toGroupStrings, eq_sortStrings_iff]
        exact ⟨hperm.trans (hsame.map stripLeadingSlash).symm, hsorted⟩
    | @string s hs =>
        cases s with
        | nil => exact absurd rfl hs
        | cons c s => rfl
    | empty | null | bool | number => rfl
  · rintro rfl
    cases v with
    | array items =>
        rw [toGroupStrings, stringItems_eq]
        exact .array (StringElements.iff.mpr rfl)
    | object fields =>
        obtain ⟨hperm, hsorted⟩ := eq_sortStrings_iff.mp (rfl : toGroupStrings (.object fields) = _)
        exact .object (List.nodup_dedup _) (fun _ => isSome_lookup_iff.symm) hperm hsorted
    | string s =>
        cases s with
        | nil => exact .empty
        | cons c s => exact .string (List.cons_ne_nil c s)
    | null => exact .null
    | bool b => exact .bool b
    | number text => exact .number text

/-! ### The two extractors -/

/-- The string elements of an array at a path, none when no array stands there. -/
inductive ArrayAt (parts : List Str) (claims : MapClaims) : List Str → Prop
  | array {items : List Json} {names : List Str} :
      At parts (.object claims) (.array items) → StringElements items names →
      ArrayAt parts claims names
  | other : (∀ items, ¬At parts (.object claims) (.array items)) → ArrayAt parts claims []

/-- An array stands at the path, or nothing does. -/
def ArrayOrAbsent (parts : List Str) (claims : MapClaims) : Prop :=
  ∀ v, At parts (.object claims) v → ∃ items, v = .array items

/-- The unstripped names of an array, when there is one. -/
def arrayNames : Option Json → List Str
  | some (.array items) => unstrippedItems items
  | _ => []

theorem ArrayAt.intro (parts : List Str) (claims : MapClaims) :
    ArrayAt parts claims (arrayNames (lookupPath parts (.object claims))) := by
  cases hv : lookupPath parts (.object claims) with
  | none =>
      refine .other fun items h => ?_
      rw [at_iff, hv] at h
      exact absurd h (Option.some_ne_none _).symm
  | some v =>
      cases v with
      | array items => exact .array (at_iff.mpr hv) (StringElements.iff.mpr rfl)
      | null | bool | number | string | object =>
          refine .other fun items h => ?_
          rw [at_iff, hv] at h
          exact nomatch Option.some.inj h

theorem unstrippedGroups_eq (claims : MapClaims) :
    unstrippedGroups claims = arrayNames (lookupPath [str "groups"] (.object claims)) ++
      arrayNames (lookupPath [str "realm_access", str "roles"] (.object claims)) := by
  have hone : ∀ (part : Str) (fields : List (Str × Json)),
      lookupPath [part] (.object fields) = fields.lookup part := by
    intro part fields
    rw [lookupPath]
    cases fields.lookup part <;> rfl
  have hnested : lookupPath [str "realm_access", str "roles"] (.object claims) =
      (claims.lookup (str "realm_access")).bind (lookupPath [str "roles"]) := rfl
  rw [hone, hnested]
  unfold unstrippedGroups
  dsimp only
  congr 1
  cases claims.lookup (str "realm_access") with
  | none => rfl
  | some access =>
      cases access with
      | object fields =>
          rw [Option.bind_some, hone]
          rfl
      | null | bool | number | string | array => rfl

/-- At an array or nowhere, the configured extractor returns what the default one takes there. -/
theorem groups_arrayOrAbsent {m : ClaimMapper} {claims : MapClaims} (hpath : m.groupsClaim ≠ [])
    (h : ArrayOrAbsent (split dot m.groupsClaim) claims) :
    m.groups claims = (arrayNames (lookupPath (split dot m.groupsClaim) (.object claims))).map
      stripLeadingSlash := by
  unfold ClaimMapper.groups lookupClaim
  rw [if_neg hpath]
  cases hv : lookupPath (split dot m.groupsClaim) (.object claims) with
  | none => rfl
  | some v =>
      obtain ⟨items, rfl⟩ := h v (at_iff.mpr hv)
      exact stringItems_eq items

theorem default_paths : split dot (str "groups") = [str "groups"] ∧
    split dot (str "realm_access.roles") = [str "realm_access", str "roles"] := by
  decide

/-- A configured path gives the names of the value it leads to and nothing when it breaks; the
default gives the strings of the arrays at its two places, in this order. -/
theorem groups_spec (m : ClaimMapper) (claims : MapClaims) :
    (m.groupsClaim ≠ [] →
      (∀ v, At (split dot m.groupsClaim) (.object claims) v →
        ∀ names, m.groups claims = names ↔ Gives v names) ∧
      (Breaks (split dot m.groupsClaim) (.object claims) → m.groups claims = [])) ∧
    (m.groupsClaim = [] →
      (∃ direct roles, ArrayAt [str "groups"] claims direct ∧
        ArrayAt [str "realm_access", str "roles"] claims roles ∧
        m.groups claims = (direct ++ roles).map stripLeadingSlash) ∧
      (ArrayOrAbsent [str "groups"] claims →
        ArrayOrAbsent [str "realm_access", str "roles"] claims →
        m.groups claims = { m with groupsClaim := str "groups" }.groups claims ++
          { m with groupsClaim := str "realm_access.roles" }.groups claims)) := by
  constructor
  · intro hpath
    unfold ClaimMapper.groups lookupClaim
    rw [if_neg hpath]
    constructor
    · intro v hv names
      rw [lookupPath_of_at hv, Gives.iff]
    · intro hbreak
      rw [lookupPath_of_breaks hbreak]
  · intro hpath
    have hgroups : m.groups claims =
        (arrayNames (lookupPath [str "groups"] (.object claims))).map stripLeadingSlash ++
          (arrayNames (lookupPath [str "realm_access", str "roles"] (.object claims))).map
            stripLeadingSlash := by
      unfold ClaimMapper.groups
      rw [if_pos hpath, extractGroups_eq, unstrippedGroups_eq, List.map_append]
    constructor
    · refine ⟨_, _, ArrayAt.intro _ claims, ArrayAt.intro _ claims, ?_⟩
      rw [hgroups, List.map_append]
    · intro hdirect hroles
      rw [← default_paths.1] at hdirect
      rw [← default_paths.2] at hroles
      rw [groups_arrayOrAbsent (m := { m with groupsClaim := str "groups" }) (by simp) hdirect,
        groups_arrayOrAbsent (m := { m with groupsClaim := str "realm_access.roles" }) (by simp)
          hroles, hgroups]
      dsimp only
      rw [default_paths.1, default_paths.2]

/-- A token with names of both kinds, a foreign element and a slash. -/
def mixedClaims : MapClaims :=
  [(str "groups", .array [.string (str "/a-ro"), .number (str "7"), .string (str "b-rw")]),
    (str "realm_access", .object [(str "roles", .array [.string (str "c-wo")])])]

theorem groups_spec_mixed :
    ({ groupsClaim := str "groups" } : ClaimMapper).groups mixedClaims = [str "a-ro", str "b-rw"] ∧
      ({ groupsClaim := str "realm_access.x" } : ClaimMapper).groups mixedClaims = [] ∧
      ({} : ClaimMapper).groups mixedClaims =
        ({ groupsClaim := str "groups" } : ClaimMapper).groups mixedClaims ++
          ({ groupsClaim := str "realm_access.roles" } : ClaimMapper).groups mixedClaims := by
  have htext : [str "/a-ro", str "b-rw"].map stripLeadingSlash = [str "a-ro", str "b-rw"] ∧
      split dot (str "realm_access.x") = [str "realm_access", str "x"] := by
    decide
  have hother : (str "realm_access" == str "groups") = false := by simp
  have hother' : (str "x" == str "roles") = false := by simp
  have hgroups : At [str "groups"] (.object mixedClaims)
      (.array [.string (str "/a-ro"), .number (str "7"), .string (str "b-rw")]) :=
    .field (by simp [mixedClaims]) (.here _)
  have haccess : mixedClaims.lookup (str "realm_access") =
      some (.object [(str "roles", .array [.string (str "c-wo")])]) := by
    simp [mixedClaims, List.lookup_cons, hother]
  have hroles : At [str "realm_access", str "roles"] (.object mixedClaims)
      (.array [.string (str "c-wo")]) :=
    .field haccess (.field (by simp) (.here _))
  refine ⟨?_, ?_, ?_⟩
  · refine (((groups_spec _ _).1 (by simp)).1 _ (default_paths.1.symm ▸ hgroups) _).mpr ?_
    rw [← htext.1]
    exact .array (.string _ (.other (fun s h => nomatch h) (.string _ .nil)))
  · refine ((groups_spec _ _).1 (by simp)).2 ?_
    rw [htext.2]
    exact .field haccess (.missing (by simp [List.lookup_cons, hother']))
  · refine ((groups_spec {} _).2 rfl).2 ?_ ?_
    · intro v hv
      rw [at_iff, lookupPath_of_at hgroups] at hv
      exact ⟨_, (Option.some.inj hv).symm⟩
    · intro v hv
      rw [at_iff, lookupPath_of_at hroles] at hv
      exact ⟨_, (Option.some.inj hv).symm⟩

end PierGateway.Auth
