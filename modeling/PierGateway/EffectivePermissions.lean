import PierGateway.KeyedMerge
import PierGateway.Resolver

/-!
# The three readings of a group list

A list of groups is a list of grants keyed by bucket, and grants join. The access
check asks for one grant that is enough, `effectiveBuckets` merges the grants by bucket
and `wildcardGrant` those of the wildcard; all three read the same joins, so they
agree and only the set of groups matters.
-/
namespace PierGateway.Acl
open GoStrings KeyedMerge

/-! ### Grants join -/

instance : Max PolicyGrants :=
  ⟨fun g h => ⟨g.read || h.read, g.write || h.write, g.delete || h.delete⟩⟩

instance : SemilatticeSup PolicyGrants :=
  SemilatticeSup.mk'
    (fun _ _ => PolicyGrants.mk.injEq .. ▸ ⟨Bool.or_comm .., Bool.or_comm .., Bool.or_comm ..⟩)
    (fun _ _ _ => PolicyGrants.mk.injEq .. ▸ ⟨Bool.or_assoc .., Bool.or_assoc .., Bool.or_assoc ..⟩)
    (fun _ => PolicyGrants.mk.injEq .. ▸ ⟨Bool.or_self .., Bool.or_self .., Bool.or_self ..⟩)

instance : OrderBot PolicyGrants where
  bot := {}
  bot_le g := sup_eq_right.mp (by cases g; rfl)

theorem methodGranted_sup (g h : PolicyGrants) (method : Str) :
    methodGranted (g ⊔ h) method = (methodGranted g method || methodGranted h method) := by
  unfold methodGranted
  split_ifs <;> rfl

theorem methodGranted_bot (method : Str) : methodGranted ⊥ method = false := by
  unfold methodGranted
  split_ifs <;> rfl

theorem methodGranted_total (l : List (Str × PolicyGrants)) (bucket method : Str) :
    methodGranted (total l bucket) method = true ↔
      ∃ g, (bucket, g) ∈ l ∧ methodGranted g method = true := by
  induction l with
  | nil =>
      have hnil : total ([] : List (Str × PolicyGrants)) bucket = ⊥ := rfl
      simp [hnil, methodGranted_bot]
  | cons e l ih =>
      obtain ⟨b, g⟩ := e
      unfold total
      split_ifs with hb
      · obtain rfl : b = bucket := hb
        rw [methodGranted_sup, Bool.or_eq_true, ih]
        simp
      · have hne : bucket ≠ b := fun he => hb he.symm
        rw [ih]
        simp [hne]

def BucketPermission.grants (p : BucketPermission) : PolicyGrants := ⟨p.read, p.write, p.delete⟩

/-- The grants of a list of groups, each with the bucket it names. -/
def groupGrants (groups : List Str) : List (Str × PolicyGrants) :=
  groups.filterMap fun group => (parseGroup group).map fun p => (p.1, grantsOf p.2)

def namedGrants (groups : List Str) : List (Str × PolicyGrants) :=
  (groupGrants groups).filter fun e => e.1 ≠ wildcardBucket

theorem mem_groupGrants {groups : List Str} {bucket : Str} {g : PolicyGrants} :
    (bucket, g) ∈ groupGrants groups ↔
      ∃ group ∈ groups, ∃ policy, parseGroup group = some (bucket, policy) ∧
          grantsOf policy = g := by
  unfold groupGrants
  rw [List.mem_filterMap]
  simp only [Option.map_eq_some_iff, Prod.exists, Prod.mk.injEq]
  constructor
  · rintro ⟨group, hmem, b, policy, hp, rfl, rfl⟩
    exact ⟨group, hmem, policy, hp, rfl⟩
  · rintro ⟨group, hmem, policy, hp, rfl⟩
    exact ⟨group, hmem, bucket, policy, hp, rfl, rfl⟩

theorem mem_groupGrants_congr {groups groups' : List Str}
    (h : ∀ group, group ∈ groups' ↔ group ∈ groups) (e : Str × PolicyGrants) :
    e ∈ groupGrants groups' ↔ e ∈ groupGrants groups := by
  unfold groupGrants
  simp only [List.mem_filterMap, h]

theorem mem_namedGrants {groups : List Str} {e : Str × PolicyGrants} :
    e ∈ namedGrants groups ↔ e ∈ groupGrants groups ∧ e.1 ≠ wildcardBucket := by
  simp [namedGrants]

theorem groupGrants_append (groups : List Str) (group : Str) :
    groupGrants (groups ++ [group]) = groupGrants groups ++ groupGrants [group] :=
  List.filterMap_append

/-- The wildcard is not among the named grants, and nothing else is lost. -/
theorem total_namedGrants (groups : List Str) {bucket : Str} (hb : bucket ≠ wildcardBucket) :
    total (namedGrants groups) bucket = total (groupGrants groups) bucket := by
  apply le_antisymm
  · exact total_le_iff.mpr fun g hg => le_total (mem_namedGrants.mp hg).1
  · exact total_le_iff.mpr fun g hg => le_total (mem_namedGrants.mpr ⟨hg, hb⟩)

theorem checkAccess_eq (groups : List Str) (bucket method : Str) :
    checkAccess groups bucket method =
      methodGranted (total (groupGrants groups) bucket ⊔ total (groupGrants groups) wildcardBucket)
        method := by
  rw [Bool.eq_iff_iff, methodGranted_sup, Bool.or_eq_true, methodGranted_total, methodGranted_total,
    checkAccess_iff]
  simp only [mem_groupGrants]
  constructor
  · rintro ⟨group, hmem, b, policy, hp, rfl | rfl, hm⟩
    · exact .inl ⟨_, ⟨group, hmem, policy, hp, rfl⟩, hm⟩
    · exact .inr ⟨_, ⟨group, hmem, policy, hp, rfl⟩, hm⟩
  · rintro (⟨g, ⟨group, hmem, policy, hp, rfl⟩, hm⟩ | ⟨g, ⟨group, hmem, policy, hp, rfl⟩, hm⟩)
    · exact ⟨group, hmem, _, policy, hp, .inl rfl, hm⟩
    · exact ⟨group, hmem, _, policy, hp, .inr rfl, hm⟩

/-! ### The wildcard -/

/-- The loop of `wildcardGrant` joins what the wildcard groups grant. -/
theorem wildcardGrant_eq (groups : List Str) :
    ((wildcardGrant groups).1.grants = total (groupGrants groups) wildcardBucket ∧
        (wildcardGrant groups).1.name = []) ∧
      ((wildcardGrant groups).2 = true ↔ wildcardBucket ∈ (groupGrants groups).map Prod.fst) := by
  induction groups using List.reverseRecOn with
  | nil =>
      have hfound : (wildcardGrant []).2 = false := rfl
      exact ⟨⟨rfl, rfl⟩, by simp [hfound, groupGrants]⟩
  | append_singleton groups group ih =>
      have hstep : wildcardGrant (groups ++ [group]) =
          wildcardStep (wildcardGrant groups) group := by
        simp [wildcardGrant]
      obtain ⟨⟨hgrants, hname⟩, hfound⟩ := ih
      rw [hstep, groupGrants_append]
      unfold wildcardStep
      cases hp : parseGroup group with
      | none =>
          have hnone : groupGrants [group] = [] := by simp [groupGrants, hp]
          rw [hnone, List.append_nil]
          exact ⟨⟨hgrants, hname⟩, hfound⟩
      | some p =>
          obtain ⟨bucket, policy⟩ := p
          have hone : groupGrants [group] = [(bucket, grantsOf policy)] := by simp [groupGrants, hp]
          rw [hone, total_append_singleton, List.map_append, List.mem_append]
          dsimp only
          split_ifs with hb
          · refine ⟨⟨?_, hname⟩, by simp [hb]⟩
            have happly : ((wildcardGrant groups).1.apply (grantsOf policy)).grants =
                (wildcardGrant groups).1.grants ⊔ grantsOf policy := rfl
            rw [happly, hgrants]
          · refine ⟨⟨hgrants, hname⟩, ?_⟩
            rw [hfound]
            simp [Ne.symm hb]

/-! ### The named buckets -/

def BucketPermission.entry (p : BucketPermission) : Str × PolicyGrants := (p.name, p.grants)

theorem BucketPermission.entry_injective : Function.Injective BucketPermission.entry := by
  intro p q h
  obtain ⟨n, r, w, d⟩ := p
  obtain ⟨n', r', w', d'⟩ := q
  simpa [BucketPermission.entry, BucketPermission.grants] using h

theorem map_entry_applyTo (bucket : Str) (g : PolicyGrants) (ps : List BucketPermission) :
    (applyTo bucket g ps).map BucketPermission.entry =
      merge bucket g (ps.map BucketPermission.entry) := by
  induction ps with
  | nil =>
      have hnew : ((({ name := bucket } : BucketPermission).apply g).entry) = (bucket, ⊥ ⊔ g) := rfl
      rw [applyTo, List.map_singleton, hnew, bot_sup_eq]
      rfl
  | cons p ps ih =>
      unfold applyTo
      rw [List.map_cons, merge]
      by_cases hp : p.name = bucket
      · have hentry : p.entry.1 = bucket := hp
        have happly : (p.apply g).entry = (bucket, p.entry.2 ⊔ g) := by
          rw [← hp]
          rfl
        rw [if_pos hp, if_pos hentry, List.map_cons, happly]
      · have hentry : p.entry.1 ≠ bucket := hp
        rw [if_neg hp, if_neg hentry, List.map_cons, ih]

/-- The loop of `effectiveBuckets` merges the named grants. -/
theorem map_entry_foldl_effectiveStep (groups : List Str) :
    (groups.foldl effectiveStep []).map BucketPermission.entry = mergeAll (namedGrants groups) := by
  induction groups using List.reverseRecOn with
  | nil => rfl
  | append_singleton groups group ih =>
      have hnamed : namedGrants (groups ++ [group]) =
          namedGrants groups ++ namedGrants [group] := by
        unfold namedGrants
        rw [groupGrants_append, List.filter_append]
      rw [List.foldl_append, hnamed]
      unfold mergeAll at ih ⊢
      rw [List.foldl_append, ← ih, List.foldl_cons, List.foldl_nil]
      unfold effectiveStep
      cases hp : parseGroup group with
      | none => simp [namedGrants, groupGrants, hp]
      | some p =>
          obtain ⟨bucket, policy⟩ := p
          dsimp only
          split_ifs with hb
          · simp [namedGrants, groupGrants, hp, hb]
          · simp [namedGrants, groupGrants, hp, hb, map_entry_applyTo]

theorem map_entry_effectiveBuckets (groups : List Str) :
    List.Perm ((effectiveBuckets groups).map BucketPermission.entry)
      (mergeAll (namedGrants groups)) := by
  rw [← map_entry_foldl_effectiveStep]
  exact (List.perm_insertionSort _ _).map _

theorem mem_effectiveBuckets {groups : List Str} {p : BucketPermission} :
    p ∈ effectiveBuckets groups ↔
      p.name ∈ (namedGrants groups).map Prod.fst ∧
        p.grants = total (namedGrants groups) p.name := by
  rw [← (merged_mergeAll (namedGrants groups)).mem_iff,
    ← (map_entry_effectiveBuckets groups).mem_iff]
  exact (List.mem_map_of_injective BucketPermission.entry_injective).symm

theorem exists_effectiveBuckets_iff {groups : List Str} {bucket : Str} :
    (∃ p ∈ effectiveBuckets groups, p.name = bucket) ↔
      bucket ∈ (namedGrants groups).map Prod.fst := by
  constructor
  · rintro ⟨p, hp, rfl⟩
    exact (mem_effectiveBuckets.mp hp).1
  · intro h
    let g := total (namedGrants groups) bucket
    let p : BucketPermission :=
      { name := bucket, read := g.read, write := g.write, delete := g.delete }
    exact ⟨p, mem_effectiveBuckets.mpr ⟨h, rfl⟩, rfl⟩

theorem mem_keys_namedGrants {groups : List Str} {bucket : Str} :
    bucket ∈ (namedGrants groups).map Prod.fst ↔
      bucket ≠ wildcardBucket ∧ ∃ group ∈ groups, ∃ policy,
        parseGroup group = some (bucket, policy) := by
  rw [List.mem_map]
  constructor
  · rintro ⟨⟨b, g⟩, he, rfl⟩
    obtain ⟨hmem, hb⟩ := mem_namedGrants.mp he
    obtain ⟨group, hgroup, policy, hp, -⟩ := mem_groupGrants.mp hmem
    exact ⟨hb, group, hgroup, policy, hp⟩
  · rintro ⟨hb, group, hgroup, policy, hp⟩
    exact ⟨_, mem_namedGrants.mpr ⟨mem_groupGrants.mpr ⟨group, hgroup, policy, hp, rfl⟩, hb⟩, rfl⟩

theorem effectiveBuckets_strictMono (groups : List Str) :
    (effectiveBuckets groups).Pairwise fun p q => p.name < q.name := by
  have hnodup : ((groups.foldl effectiveStep []).map BucketPermission.name).Nodup := by
    have hkeys := (merged_mergeAll (namedGrants groups)).nodup
    rw [← map_entry_foldl_effectiveStep, List.map_map] at hkeys
    exact hkeys
  exact pairwise_lt_insertionSort BucketPermission.name hnodup

/-! ### The readings agree -/

/-- The grants of the entry with this name, if there is one. -/
def namedPart (groups : List Str) (bucket : Str) : PolicyGrants :=
  ((effectiveBuckets groups).find? fun p => p.name = bucket).elim {} BucketPermission.grants

/-- The grants of the wildcard, if there is one. -/
def wildcardPart (groups : List Str) : PolicyGrants :=
  if (wildcardGrant groups).2 then (wildcardGrant groups).1.grants else {}

theorem namedPart_eq (groups : List Str) (bucket : Str) :
    namedPart groups bucket = total (namedGrants groups) bucket := by
  unfold namedPart
  cases hfind : (effectiveBuckets groups).find? fun p => p.name = bucket with
  | none =>
      have hnone : ∀ g, (bucket, g) ∉ namedGrants groups := by
        intro g hg
        obtain ⟨p, hp, hname⟩ := exists_effectiveBuckets_iff.mpr (List.mem_map.mpr ⟨_, hg, rfl⟩)
        exact List.find?_eq_none.mp hfind p hp (by simpa using hname)
      rw [total_eq_bot hnone]
      rfl
  | some p =>
      have hname : p.name = bucket := by simpa using List.find?_some hfind
      have hgrants := (mem_effectiveBuckets.mp (List.mem_of_find?_eq_some hfind)).2
      rw [hname] at hgrants
      exact hgrants

theorem wildcardPart_eq (groups : List Str) :
    wildcardPart groups = total (groupGrants groups) wildcardBucket := by
  obtain ⟨⟨hgrants, -⟩, hfound⟩ := wildcardGrant_eq groups
  unfold wildcardPart
  split_ifs with h
  · exact hgrants
  · have hnone : ∀ g, (wildcardBucket, g) ∉ groupGrants groups := fun g hg =>
      h (hfound.mpr (List.mem_map.mpr ⟨_, hg, rfl⟩))
    rw [total_eq_bot hnone]
    rfl

theorem checkAccess_eq_parts (groups : List Str) (bucket method : Str) :
    checkAccess groups bucket method =
      methodGranted (namedPart groups bucket ⊔ wildcardPart groups) method := by
  rw [checkAccess_eq, namedPart_eq, wildcardPart_eq]
  by_cases hb : bucket = wildcardBucket
  · have hnone : ∀ g, (bucket, g) ∉ namedGrants groups := fun g hg => (mem_namedGrants.mp hg).2 hb
    rw [total_eq_bot hnone, hb, sup_idem, bot_sup_eq]
  · rw [total_namedGrants groups hb]

section
variable {groups groups' : List Str} (h : ∀ e, e ∈ groupGrants groups' ↔ e ∈ groupGrants groups)

include h

theorem effectiveBuckets_congr : effectiveBuckets groups' = effectiveBuckets groups := by
  have hnamed : ∀ e, e ∈ namedGrants groups' ↔ e ∈ namedGrants groups := by
    intro e
    rw [mem_namedGrants, mem_namedGrants, h]
  have hirrefl : Std.Irrefl fun p q : BucketPermission => p.name < q.name :=
    ⟨fun p => List.lt_irrefl p.name⟩
  refine List.Pairwise.eq_of_mem_iff (effectiveBuckets_strictMono groups')
    (effectiveBuckets_strictMono groups) ?_
  intro p
  rw [mem_effectiveBuckets, mem_effectiveBuckets, total_congr hnamed]
  simp only [List.mem_map, hnamed]

theorem wildcardGrant_congr : wildcardGrant groups' = wildcardGrant groups := by
  obtain ⟨⟨hgrants, hname⟩, hfound⟩ := wildcardGrant_eq groups
  obtain ⟨⟨hgrants', hname'⟩, hfound'⟩ := wildcardGrant_eq groups'
  have hentry : (wildcardGrant groups').1.entry = (wildcardGrant groups).1.entry := by
    unfold BucketPermission.entry
    rw [hgrants, hgrants', hname, hname', total_congr h]
  have hflag : (wildcardGrant groups').2 = (wildcardGrant groups).2 := by
    rw [Bool.eq_iff_iff, hfound, hfound']
    simp only [List.mem_map, h]
  exact Prod.ext (BucketPermission.entry_injective hentry) hflag

theorem checkAccess_congr (bucket method : Str) :
    checkAccess groups' bucket method = checkAccess groups bucket method := by
  rw [checkAccess_eq, checkAccess_eq, total_congr h, total_congr h]

end

/-- The access check is the union of the entry of the bucket and the wildcard; the entries
are the named buckets in strictly increasing order; and only the set of groups counts. -/
theorem readings_agree (groups : List Str) :
    (∀ bucket method, checkAccess groups bucket method =
        methodGranted (namedPart groups bucket ⊔ wildcardPart groups) method) ∧
      (effectiveBuckets groups).Pairwise (fun p q => p.name < q.name) ∧
      (∀ bucket, (∃ p ∈ effectiveBuckets groups, p.name = bucket) ↔
        bucket ≠ wildcardBucket ∧ ∃ group ∈ groups, ∃ policy,
          parseGroup group = some (bucket, policy)) ∧
      ∀ groups', (∀ group, group ∈ groups' ↔ group ∈ groups) →
        effectiveBuckets groups' = effectiveBuckets groups ∧
          wildcardGrant groups' = wildcardGrant groups ∧
          ∀ bucket method, checkAccess groups' bucket method =
              checkAccess groups bucket method := by
  refine ⟨checkAccess_eq_parts groups, effectiveBuckets_strictMono groups, ?_, ?_⟩
  · intro bucket
    rw [exists_effectiveBuckets_iff, mem_keys_namedGrants]
  · intro groups' h
    have hgrants := mem_groupGrants_congr h
    exact ⟨effectiveBuckets_congr hgrants, wildcardGrant_congr hgrants, checkAccess_congr hgrants⟩

theorem readings_agree_repeated :
    effectiveBuckets [str "b-rw", str "a-ro", str "b-rw"] =
      effectiveBuckets [str "a-ro", str "b-rw"] :=
  ((readings_agree [str "a-ro", str "b-rw"]).2.2.2 [str "b-rw", str "a-ro", str "b-rw"]
    (by intro group; simp only [List.mem_cons, List.not_mem_nil]; tauto)).1

example : namedPart [str "a-ro", str "b-rw", str "a-wo", str "*-ro"] (str "a") =
    { read := true, write := true } := by decide

end PierGateway.Acl
