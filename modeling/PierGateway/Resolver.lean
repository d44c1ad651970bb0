import PierGateway.NetUrl
import PierGateway.GoUnicode

/-!
# The access resolver

Groups are names of the form `<bucket>-<policy>`; the resolver decides from a list
of them whether a method is allowed on a bucket, and separately whether a request
administers storage and is refused to everyone. The first decision has a meaning
of its own, `Grants`, which says for one group what it allows; the loop is shown
to look for a group that grants.
-/
namespace PierGateway.Acl
open GoStrings GoUnicode NetUrl

structure BucketPermission where
  name : Str := []
  read : Bool := false
  write : Bool := false
  delete : Bool := false
deriving DecidableEq, Repr

def wildcardBucket : Str := str "*"

structure PolicyGrants where
  read : Bool := false
  write : Bool := false
  delete : Bool := false
deriving DecidableEq, Repr

def validPolicies : List (Str × PolicyGrants) :=
  [(str "ro", { read := true }),
    (str "rw", { read := true, write := true, delete := true }),
    (str "wo", { write := true })]

/-- `validPolicies[policy]`, the zero value for an unknown policy. -/
def grantsOf (policy : Str) : PolicyGrants := (validPolicies.lookup policy).getD {}

def parseGroup (group : Str) : Option (Str × Str) :=
  let group := trimLeft slash group
  if group = [] then none
  else
    match lastCut hyphen group with
    | none => none
    | some (bucket, potentialPolicy) =>
        if (validPolicies.lookup potentialPolicy).isNone then none
        else if bucket = [] then none
        else some (bucket, potentialPolicy)

def methodGranted (g : PolicyGrants) (method : Str) : Bool :=
  if method = str "GET" ∨ method = str "HEAD" ∨ method = str "OPTIONS" then g.read
  else if method = str "PUT" ∨ method = str "POST" then g.write
  else if method = str "DELETE" then g.delete
  else false

def checkAccess : List Str → Str → Str → Bool
  | [], _, _ => false
  | group :: groups, bucket, method =>
      match parseGroup group with
      | none => checkAccess groups bucket method
      | some (groupBucket, policy) =>
          if groupBucket ≠ bucket ∧ groupBucket ≠ wildcardBucket then
            checkAccess groups bucket method
          else if methodGranted (grantsOf policy) method then true
          else checkAccess groups bucket method

def adminSubResources : List Str :=
  [str "acl", str "policy", str "versioning", str "tagging", str "lifecycle", str "cors",
    str "website", str "notification", str "encryption", str "replication", str "logging",
    str "requestpayment", str "accelerate", str "object-lock", str "lock", str "retention",
    str "legal-hold", str "inventory", str "analytics", str "metrics", str "select", str "restore",
    str "torrent", str "publicaccessblock", str "ownershipcontrols", str "intelligent-tiering",
    str "uploads", str "uploadid", str "partnumber"]

def isAdminOperation (method path : Str) : Bool :=
  match urlParse path with
  | none => true
  | some u =>
      if (queryNames u.rawQuery).any fun param => toLower param ∈ adminSubResources then true
      else
        let pathOnly := if u.path = [] then [slash] else u.path
        let parts := split slash (trim slash pathOnly)
        if parts.length = 1 then
          decide (method = str "PUT" ∨ method = str "DELETE" ∨ method = str "POST")
        else false

def BucketPermission.apply (p : BucketPermission) (g : PolicyGrants) : BucketPermission :=
  { p with read := p.read || g.read, write := p.write || g.write, delete := p.delete || g.delete }

/-- The loop of `WildcardGrant`, with the permission and the `found` flag as they stand. -/
def wildcardStep (s : BucketPermission × Bool) (group : Str) : BucketPermission × Bool :=
  match parseGroup group with
  | some (bucket, policy) =>
      if bucket = wildcardBucket then (s.1.apply (grantsOf policy), true) else s
  | none => s

def wildcardGrant (groups : List Str) : BucketPermission × Bool :=
  groups.foldl wildcardStep ({}, false)

/-- The map entry of one bucket, created on first use. -/
def applyTo (bucket : Str) (g : PolicyGrants) : List BucketPermission → List BucketPermission
  | [] => [({ name := bucket } : BucketPermission).apply g]
  | p :: ps => if p.name = bucket then p.apply g :: ps else p :: applyTo bucket g ps

def effectiveStep (buckets : List BucketPermission) (group : Str) : List BucketPermission :=
  match parseGroup group with
  | some (bucket, policy) =>
      if bucket = wildcardBucket then buckets else applyTo bucket (grantsOf policy) buckets
  | none => buckets

def effectiveBuckets (groups : List Str) : List BucketPermission :=
  (groups.foldl effectiveStep []).insertionSort fun a b => a.name ≤ b.name

/-! ### What the access check decides -/

/-- One group allows a method on a bucket. -/
def Grants (group bucket method : Str) : Prop :=
  ∃ groupBucket policy, parseGroup group = some (groupBucket, policy) ∧
    (groupBucket = bucket ∨ groupBucket = wildcardBucket) ∧
    methodGranted (grantsOf policy) method = true

theorem checkAccess_iff (groups : List Str) (bucket method : Str) :
    checkAccess groups bucket method = true ↔ ∃ group ∈ groups, Grants group bucket method := by
  induction groups with
  | nil => simp [checkAccess]
  | cons group groups ih =>
      rw [List.exists_mem_cons_iff, ← ih, checkAccess, Grants]
      cases hg : parseGroup group with
      | none => simp
      | some g =>
          obtain ⟨groupBucket, policy⟩ := g
          dsimp only
          by_cases hb : groupBucket = bucket ∨ groupBucket = wildcardBucket
          · have hskip : ¬(groupBucket ≠ bucket ∧ groupBucket ≠ wildcardBucket) := by
              intro h
              exact hb.elim h.1 h.2
            rw [if_neg hskip]
            by_cases hm : methodGranted (grantsOf policy) method = true
            · simp [hm, hb]
            · simp [hm]
          · have hskip : groupBucket ≠ bucket ∧ groupBucket ≠ wildcardBucket := not_or.mp hb
            rw [if_pos hskip]
            constructor
            · intro h
              exact .inr h
            · intro h
              rcases h with ⟨b, p, he, hbucket, -⟩ | h
              · obtain ⟨rfl, rfl⟩ := Prod.mk.inj (Option.some.inj he)
                exact absurd hbucket hb
              · exact h

/-- A group grants on a bucket other than its own only through the wildcard. -/
theorem Grants.other {group bucket bucket' method : Str} (h : Grants group bucket method)
    (h' : ¬Grants group bucket' method) :
    ∃ policy, parseGroup group = some (bucket, policy) := by
  obtain ⟨b, p, hp, hb, hm⟩ := h
  rcases hb with rfl | rfl
  · exact ⟨p, hp⟩
  · exact absurd ⟨_, p, hp, .inr rfl, hm⟩ h'

/-! ### What the administration check decides -/

/-- A query carries an administration sub-resource. -/
def AdminQuery (q : Str) : Prop := ∃ n ∈ queryNames q, toLower n ∈ adminSubResources

instance (q : Str) : Decidable (AdminQuery q) :=
  inferInstanceAs (Decidable (∃ n ∈ queryNames q, toLower n ∈ adminSubResources))

/-- The methods that create, remove or write. -/
def StateChanging (method : Str) : Prop :=
  method = str "PUT" ∨ method = str "DELETE" ∨ method = str "POST"

instance (method : Str) : Decidable (StateChanging method) :=
  inferInstanceAs (Decidable (_ ∨ _))

/-- The path names at most a bucket. -/
def BucketLevel (path : Str) : Prop :=
  (split slash (trim slash (if path = [] then [slash] else path))).length = 1

instance (path : Str) : Decidable (BucketLevel path) := inferInstanceAs (Decidable (_ = _))

/-- A request passes the administration check exactly when its text parses, its query
carries no sub-resource and it does not change a bucket as a whole. -/
theorem isAdminOperation_eq_false_iff (method path : Str) :
    isAdminOperation method path = false ↔
      ∃ u, urlParse path = some u ∧ ¬AdminQuery u.rawQuery ∧
        ¬(BucketLevel u.path ∧ StateChanging method) := by
  unfold isAdminOperation
  cases hu : urlParse path with
  | none => simp
  | some u =>
      have hq : ((queryNames u.rawQuery).any fun param => toLower param ∈ adminSubResources) =
          true ↔
          AdminQuery u.rawQuery := by
        simp [AdminQuery]
      simp only [Option.some.injEq, exists_eq_left']
      by_cases ha : AdminQuery u.rawQuery
      · simp [hq.mpr ha, ha]
      · have hf := (not_congr hq).mpr ha
        rw [if_neg hf]
        by_cases hl : BucketLevel u.path
        · have hl' := hl
          unfold BucketLevel at hl'
          simp [ha, hl, hl', StateChanging]
        · have hl' := hl
          unfold BucketLevel at hl'
          simp [ha, hl, hl']

end PierGateway.Acl
