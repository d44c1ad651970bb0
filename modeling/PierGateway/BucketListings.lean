import PierGateway.Api
import PierGateway.EffectivePermissions
import PierGateway.S3Handler

/-!
# The two listings of buckets

The web interface lists the named buckets of a user and, for the holder of a wildcard,
those of the backend, with the rights on each; the proxy lists the buckets of the
backend that a user can see. Both are compared with the access check.
-/
namespace PierGateway.WebUI
open GoStrings NetUrl HttpMessages Interaction Acl KeyedMerge

/-! ### Merging named and listed buckets -/

/-- Every bucket of the map is in the order once, under its own name. -/
structure Merge.Sound (m : Merge) : Prop where
  nodup : m.order.Nodup
  mem_order : ∀ name, name ∈ m.order ↔ name ∈ m.perms
  name_eq : ∀ name p, m.perms.lookup name = some p → p.name = name

theorem Merge.sound_empty : ({} : Merge).Sound :=
  ⟨List.nodup_nil, fun _ => by simp [Finmap.notMem_empty], by simp⟩

theorem Merge.Sound.addNamed {m : Merge} (h : m.Sound) {p : BucketPermission}
    (hp : p.name ∉ m.perms) :
    (m.addNamed p).Sound := by
  constructor
  · exact h.nodup.append (List.nodup_singleton _) (by simpa [h.mem_order] using hp)
  · intro name
    simp only [Merge.addNamed, List.mem_append, h.mem_order, List.mem_singleton, Finmap.mem_insert]
    exact or_comm
  · intro name q hq
    unfold Merge.addNamed at hq
    by_cases hn : name = p.name
    · subst hn
      rw [Finmap.lookup_insert] at hq
      rw [Option.some.inj hq]
    · rw [Finmap.lookup_insert_of_ne _ hn] at hq
      exact h.name_eq name q hq

theorem Merge.Sound.addListed {m : Merge} (h : m.Sound) (wild : BucketPermission)
    (name : Option Str) : (m.addListed wild name).Sound := by
  cases name with
  | none => exact h
  | some name =>
      have hname : ((m.perms.lookup name).getD { name := name }).name = name := by
        cases hl : m.perms.lookup name with
        | none => rfl
        | some p => exact h.name_eq name p hl
      unfold Merge.addListed
      constructor
      · dsimp only
        split_ifs with hmem
        · exact h.nodup
        · exact h.nodup.append (List.nodup_singleton _) (by simpa [h.mem_order] using hmem)
      · intro n
        dsimp only
        split_ifs with hmem
        · rw [h.mem_order, Finmap.mem_insert]
          constructor
          · exact .inr
          · rintro (rfl | hn)
            · exact hmem
            · exact hn
        · rw [List.mem_append, h.mem_order, List.mem_singleton, Finmap.mem_insert]
          exact or_comm
      · intro n q hq
        by_cases hn : n = name
        · subst hn
          rw [Finmap.lookup_insert] at hq
          rw [← Option.some.inj hq]
          exact hname
        · rw [Finmap.lookup_insert_of_ne _ hn] at hq
          exact h.name_eq n q hq

/-- The rights filed under a name, if it is there. -/
def Merge.rights (m : Merge) (name : Str) : Option PolicyGrants :=
  (m.perms.lookup name).map BucketPermission.grants

theorem Merge.rights_addNamed (m : Merge) (p : BucketPermission) (name : Str) :
    (m.addNamed p).rights name = if name = p.name then some p.grants else m.rights name := by
  unfold Merge.rights Merge.addNamed
  split_ifs with hn
  · rw [hn, Finmap.lookup_insert]
    rfl
  · rw [Finmap.lookup_insert_of_ne _ hn]

theorem Merge.rights_addListed (m : Merge) (wild : BucketPermission) (n : Option Str) (name : Str) :
    (m.addListed wild n).rights name =
      if n = some name then some ((m.rights name).getD ⊥ ⊔ wild.grants) else m.rights name := by
  cases n with
  | none => rfl
  | some n =>
      unfold Merge.rights Merge.addListed
      by_cases hn : name = n
      · subst hn
        rw [if_pos rfl, Finmap.lookup_insert]
        cases m.perms.lookup name <;> rfl
      · rw [if_neg (by simpa using Ne.symm hn), Finmap.lookup_insert_of_ne _ hn]

/-- The wildcard is joined to every listed bucket, however often it is listed. -/
theorem Merge.rights_foldl_addListed (m : Merge) (wild : BucketPermission)
    (names : List (Option Str))
    (name : Str) :
    (names.foldl (Merge.addListed wild) m).rights name =
      if some name ∈ names then some ((m.rights name).getD ⊥ ⊔ wild.grants) else m.rights name := by
  induction names using List.reverseRecOn with
  | nil => simp
  | append_singleton names n ih =>
      rw [List.foldl_append, List.foldl_cons, List.foldl_nil, Merge.rights_addListed, ih]
      by_cases hn : n = some name
      · have hmem : some name ∈ names ++ [n] := by simp [hn]
        rw [if_pos hn, if_pos hmem]
        split_ifs
        · rw [Option.getD_some, sup_assoc, sup_idem]
        · rfl
      · have hmem : some name ∈ names ++ [n] ↔ some name ∈ names := by
          simp [Ne.symm hn]
        rw [if_neg hn]
        simp only [hmem]

theorem Merge.Sound.foldl_addListed {m : Merge} (h : m.Sound) (wild : BucketPermission)
    (names : List (Option Str)) : (names.foldl (Merge.addListed wild) m).Sound := by
  induction names generalizing m with
  | nil => exact h
  | cons n names ih => exact ih (h.addListed wild n)

theorem foldl_addNamed {ps : List BucketPermission} (hnd : (ps.map BucketPermission.name).Nodup)
    {m : Merge} (h : m.Sound) (hnew : ∀ p ∈ ps, p.name ∉ m.perms) :
    (ps.foldl Merge.addNamed m).Sound ∧ ∀ name, (ps.foldl Merge.addNamed m).rights name =
      ((ps.find? fun p => p.name = name).map BucketPermission.grants).or (m.rights name) := by
  induction ps generalizing m with
  | nil => exact ⟨h, fun name => rfl⟩
  | cons p ps ih =>
      obtain ⟨hp, hps⟩ := List.nodup_cons.mp hnd
      have hm := h.addNamed (hnew p List.mem_cons_self)
      have hrest : ∀ q ∈ ps, q.name ∉ (m.addNamed p).perms := by
        intro q hq
        have hne : q.name ≠ p.name := fun he => hp (he ▸ List.mem_map_of_mem hq)
        simp only [Merge.addNamed, Finmap.mem_insert, not_or]
        exact ⟨hne, hnew q (List.mem_cons_of_mem _ hq)⟩
      obtain ⟨hsound, hrights⟩ := ih hps hm hrest
      refine ⟨hsound, fun name => ?_⟩
      rw [List.foldl_cons, hrights name, Merge.rights_addNamed, List.find?_cons]
      by_cases hn : p.name = name
      · have hnone : (ps.find? fun q => q.name = name) = none := by
          rw [List.find?_eq_none]
          intro q hq he
          exact hp (by rw [hn, ← of_decide_eq_true he]; exact List.mem_map_of_mem hq)
        rw [hnone]
        simp [hn]
      · simp [hn, Ne.symm hn]

/-- The merge of the loops, for the reported buckets if there is a backend. -/
def API.reported (a : API) (names : List (Option Str)) : List (Option Str) :=
  if a.hasBackend then names else []

theorem namedBuckets_spec (groups : List Str) :
    (namedBuckets groups).Sound ∧ ∀ name, (namedBuckets groups).rights name =
      ((effectiveBuckets groups).find? fun p => p.name = name).map BucketPermission.grants := by
  have hnd : ((effectiveBuckets groups).map BucketPermission.name).Nodup := by
    refine List.pairwise_map.mpr ((effectiveBuckets_strictMono groups).imp fun hlt he => ?_)
    rw [he] at hlt
    exact List.lt_irrefl _ hlt
  obtain ⟨hsound, hrights⟩ := foldl_addNamed hnd Merge.sound_empty
    fun _ _ => Finmap.notMem_empty
  refine ⟨hsound, fun name => (hrights name).trans ?_⟩
  have hempty : ({} : Merge).rights name = none := rfl
  rw [hempty, Option.or_none]

/-! ### The answer of the web interface -/

def flagsOf (g : PolicyGrants) : PermissionFlags := ⟨g.read, g.write, g.delete⟩

/-- The buckets of the answer, in order and with their rights. -/
theorem Merge.Sound.response {m : Merge} (h : m.Sound) :
    (m.response.Pairwise fun x y => x.name < y.name) ∧
      ∀ x, x ∈ m.response ↔ ∃ g, m.rights x.name = some g ∧ x.permissions = flagsOf g := by
  have hrow : ∀ name ∈ m.order, ∃ p, m.perms.lookup name = some p ∧ p.name = name := by
    intro name hname
    have hmem := (h.mem_order name).mp hname
    obtain ⟨p, hp⟩ := Option.isSome_iff_exists.mp (Finmap.lookup_isSome.mpr hmem)
    exact ⟨p, hp, h.name_eq name p hp⟩
  have hperm : List.Perm (sortStrings m.order) m.order := List.perm_insertionSort _ _
  have hsorted : (sortStrings m.order).Pairwise fun a b => a < b :=
    pairwise_lt_insertionSort id (by simpa using h.nodup)
  constructor
  · refine List.pairwise_map.mpr (hsorted.imp_of_mem fun ha hb hlt => ?_)
    obtain ⟨p, hp, hpn⟩ := hrow _ (hperm.mem_iff.mp ha)
    obtain ⟨q, hq, hqn⟩ := hrow _ (hperm.mem_iff.mp hb)
    simpa only [hp, hq, Option.getD_some, hpn, hqn] using hlt
  · intro x
    unfold Merge.response
    rw [List.mem_map]
    constructor
    · rintro ⟨name, hname, rfl⟩
      obtain ⟨p, hp, hpn⟩ := hrow name (hperm.mem_iff.mp hname)
      have hbp : (m.perms.lookup name).getD {} = p := by
        rw [hp]
        rfl
      have hrights : m.rights name = some p.grants := by
        unfold Merge.rights
        rw [hp]
        rfl
      have hshown : ((m.perms.lookup name).getD {}).name = name := by rw [hbp, hpn]
      refine ⟨p.grants, (congrArg m.rights hshown).trans hrights, ?_⟩
      rw [hbp]
      rfl
    · rintro ⟨g, hg, hflags⟩
      obtain ⟨p, hp, rfl⟩ := Option.map_eq_some_iff.mp hg
      have hname : x.name ∈ m.order :=
        (h.mem_order _).mpr (Finmap.lookup_isSome.mp (by rw [hp]; rfl))
      refine ⟨x.name, hperm.mem_iff.mpr hname, ?_⟩
      have hpn := h.name_eq _ _ hp
      obtain ⟨name, flags⟩ := x
      simp only at hp hpn hflags
      simp only [hp, Option.getD_some, hpn, hflags]
      rfl

/-- What the handler merges for these reported buckets. -/
def shownMerge (groups : List Str) (reported : List (Option Str)) : Merge :=
  if (wildcardGrant groups).2 then
    reported.foldl (Merge.addListed (wildcardGrant groups).1) (namedBuckets groups)
  else namedBuckets groups

theorem eval_handleListBuckets (a : API) (r : UIRequest) {reply : ∀ op, Reply op}
    {names : List (Option Str)} (hr : reply .listBuckets = .ok names) :
    (a.handleListBuckets r).eval reply =
      writeJSON 200 (.buckets (shownMerge (getGroups r) (a.reported names)).response) := by
  unfold API.handleListBuckets shownMerge API.reported
  dsimp only
  cases hfound : (wildcardGrant (getGroups r)).2 with
  | false => simp
  | true =>
      cases hback : a.hasBackend with
      | false => simp
      | true => simp [Prog.eval, hr]

theorem sound_shownMerge (groups : List Str) (reported : List (Option Str)) :
    (shownMerge groups reported).Sound := by
  have hnamed := (namedBuckets_spec groups).1
  unfold shownMerge
  split_ifs
  · exact hnamed.foldl_addListed _ _
  · exact hnamed

/-- A bucket is shown when it is named, or reported to the holder of a wildcard, and only a
reported one shows the rights of the wildcard. -/
theorem rights_shownMerge (groups : List Str) (reported : List (Option Str)) (name : Str) :
    (shownMerge groups reported).rights name =
      if (wildcardGrant groups).2 = true ∧ some name ∈ reported then
        some (namedPart groups name ⊔ wildcardPart groups)
      else if ∃ p ∈ effectiveBuckets groups, p.name = name then some (namedPart groups name)
      else none := by
  have hnamed := (namedBuckets_spec groups).2 name
  have hpart : ((namedBuckets groups).rights name).getD ⊥ = namedPart groups name := by
    rw [hnamed]
    unfold namedPart
    cases (effectiveBuckets groups).find? fun p => p.name = name <;> rfl
  have hrights : (namedBuckets groups).rights name =
      if ∃ p ∈ effectiveBuckets groups, p.name = name then some (namedPart groups name)
      else none := by
    rw [hnamed]
    unfold namedPart
    cases hfind : (effectiveBuckets groups).find? fun p => p.name = name with
    | none =>
        have hnone : ¬∃ p ∈ effectiveBuckets groups, p.name = name := by
          rintro ⟨p, hp, hn⟩
          exact List.find?_eq_none.mp hfind p hp (by simpa using hn)
        rw [if_neg hnone]
        rfl
    | some p =>
        have hsome : ∃ p ∈ effectiveBuckets groups, p.name = name :=
          ⟨p, List.mem_of_find?_eq_some hfind, by simpa using List.find?_some hfind⟩
        rw [if_pos hsome]
        rfl
  unfold shownMerge
  cases hfound : (wildcardGrant groups).2 with
  | false =>
      rw [if_neg (by simp), if_neg (by simp)]
      exact hrights
  | true =>
      have hwild : wildcardPart groups = (wildcardGrant groups).1.grants := by
        unfold wildcardPart
        rw [if_pos hfound]
      rw [if_pos rfl, Merge.rights_foldl_addListed, hpart, hwild, hrights]
      simp only [true_and]

/-! ### Shown and enforced rights -/

/-- What a listing promises to the user of these groups. -/
structure ShowsEnforced (groups : List Str) (reported : List (Option Str))
    (shown : List BucketResponse) : Prop where
  increasing : shown.Pairwise fun x y => x.name < y.name
  named : ∀ p ∈ effectiveBuckets groups, ∃ x ∈ shown, x.name = p.name
  listed : (wildcardGrant groups).2 = true → ∀ name, some name ∈ reported →
    ∃ x ∈ shown, x.name = name
  enforced : ∀ x ∈ shown, x.permissions =
    ⟨checkAccess groups x.name (str "GET"), checkAccess groups x.name (str "PUT"),
      checkAccess groups x.name (str "DELETE")⟩

theorem enforced_eq (groups : List Str) (name : Str) :
    (⟨checkAccess groups name (str "GET"), checkAccess groups name (str "PUT"),
      checkAccess groups name (str "DELETE")⟩ : PermissionFlags) =
      flagsOf (namedPart groups name ⊔ wildcardPart groups) := by
  have hget : ∀ g, methodGranted g (str "GET") = g.read := by simp [methodGranted]
  have hput : ∀ g, methodGranted g (str "PUT") = g.write := by simp [methodGranted]
  have hdelete : ∀ g, methodGranted g (str "DELETE") = g.delete := by simp [methodGranted]
  rw [checkAccess_eq_parts, checkAccess_eq_parts, checkAccess_eq_parts, hget, hput, hdelete]
  rfl

theorem flagsOf_injective : Function.Injective flagsOf := by
  intro g g' h
  obtain ⟨r, w, d⟩ := g
  obtain ⟨r', w', d'⟩ := g'
  simpa [flagsOf] using h

theorem namedPart_of_mem {groups : List Str} {p : BucketPermission}
    (hp : p ∈ effectiveBuckets groups) :
    namedPart groups p.name = p.grants := by
  rw [namedPart_eq]
  exact (mem_effectiveBuckets.mp hp).2.symm

section
variable (groups : List Str) (reported : List (Option Str))

theorem exists_shown_iff (name : Str) :
    (∃ x ∈ (shownMerge groups reported).response, x.name = name) ↔
      ((wildcardGrant groups).2 = true ∧ some name ∈ reported) ∨
        ∃ p ∈ effectiveBuckets groups, p.name = name := by
  have hmem := (sound_shownMerge groups reported).response.2
  have hrights := rights_shownMerge groups reported name
  constructor
  · rintro ⟨x, hx, rfl⟩
    obtain ⟨g, hg, -⟩ := (hmem x).mp hx
    by_contra hnone
    rw [not_or] at hnone
    rw [hrights, if_neg hnone.1, if_neg hnone.2] at hg
    cases hg
  · intro h
    have hsome : ∃ g, (shownMerge groups reported).rights name = some g := by
      rw [hrights]
      split_ifs with h₁ h₂
      · exact ⟨_, rfl⟩
      · exact ⟨_, rfl⟩
      · exact absurd h (not_or.mpr ⟨h₁, h₂⟩)
    obtain ⟨g, hg⟩ := hsome
    exact ⟨⟨name, flagsOf g⟩, (hmem _).mpr ⟨g, hg, rfl⟩, rfl⟩

theorem shown_permissions {x : BucketResponse} (hx : x ∈ (shownMerge groups reported).response) :
    x.permissions = flagsOf (namedPart groups x.name ⊔
      if (wildcardGrant groups).2 = true ∧ some x.name ∈ reported then wildcardPart groups
        else ⊥) := by
  obtain ⟨g, hg, hflags⟩ := ((sound_shownMerge groups reported).response.2 x).mp hx
  rw [rights_shownMerge] at hg
  rw [hflags]
  split_ifs at hg ⊢ with h₁ h₂
  · rw [← Option.some.inj hg]
  · rw [← Option.some.inj hg, sup_bot_eq]

end

/-- The listing shows what is enforced exactly when every named bucket that the backend does
not report has the rights of the wildcard by its own name. -/
theorem listing_enforced_iff (a : API) (r : UIRequest) {reply : ∀ op, Reply op}
    {names : List (Option Str)} (hr : reply .listBuckets = .ok names) :
    ∃ shown, (a.handleListBuckets r).eval reply = writeJSON 200 (.buckets shown) ∧
      (ShowsEnforced (getGroups r) (a.reported names) shown ↔
        ∀ p ∈ effectiveBuckets (getGroups r), some p.name ∉ a.reported names →
          wildcardPart (getGroups r) ≤ p.grants) := by
  refine ⟨_, eval_handleListBuckets a r hr, ?_⟩
  generalize getGroups r = groups
  generalize a.reported names = reported
  constructor
  · intro h p hp hnot
    obtain ⟨x, hx, hname⟩ := (exists_shown_iff groups reported p.name).mpr (.inr ⟨p, hp, rfl⟩)
    have hshown := shown_permissions groups reported hx
    have henforced := h.enforced x hx
    rw [enforced_eq, hshown, hname, if_neg fun hc => hnot hc.2, sup_bot_eq,
      namedPart_of_mem hp] at henforced
    exact sup_eq_left.mp (flagsOf_injective henforced).symm
  · intro h
    constructor
    · exact (sound_shownMerge groups reported).response.1
    · intro p hp
      exact (exists_shown_iff groups reported p.name).mpr (.inr ⟨p, hp, rfl⟩)
    · intro hwild name hname
      exact (exists_shown_iff groups reported name).mpr (.inl ⟨hwild, hname⟩)
    · intro x hx
      rw [enforced_eq, shown_permissions groups reported hx]
      split_ifs with hc
      · rfl
      · rcases (exists_shown_iff groups reported x.name).mp ⟨x, hx, rfl⟩ with hl | ⟨p, hp, hname⟩
        · exact absurd hl hc
        · -- a named bucket that is not reported, or no wildcard at all
          have hle : wildcardPart groups ≤ namedPart groups x.name := by
            by_cases hrep : some x.name ∈ reported
            · have hnone : wildcardPart groups = ⊥ := if_neg fun hw => hc ⟨hw, hrep⟩
              rw [hnone]
              exact bot_le
            · rw [← hname, namedPart_of_mem hp]
              exact h p hp (hname ▸ hrep)
          rw [sup_bot_eq, sup_eq_left.mpr hle]

/-- A reply to every call, with these buckets in the backend. -/
def withBuckets (names : List (Option Str)) : ∀ op, Reply op
  | .listBuckets => .ok names
  | .listObjects .. | .getObject .. | .headObject .. | .putObject .. | .deleteObject .. => .error []
  | .statsEnter .. => .wait 0
  | .statsWait .. | .allow .. => true
  | .statsRead .. => none
  | .statsFinish .. => ()
  | .randomBytes .. | .exchangeCode .. => .error []

/-- A reader of everything who may write to an archive of the same storage. -/
def archivist : UIRequest where
  method := str "GET"
  url := { path := str "/api/v1/buckets" }
  header := .empty
  identity := some { claims := [], username := str "a", groups := [str "*-ro", str "archive-wo"] }

theorem listing_enforced_iff_archivist :
    ∃ shown, (API.handleListBuckets { hasBackend := true } archivist).eval
        (withBuckets [some (str "alpha"), none, some (str "archive")]) =
          writeJSON 200 (.buckets shown) ∧
      (ShowsEnforced (getGroups archivist)
          (API.reported { hasBackend := true } [some (str "alpha"), none,
            some (str "archive")]) shown ↔
        ∀ p ∈ effectiveBuckets (getGroups archivist),
          some p.name ∉ API.reported { hasBackend := true }
            [some (str "alpha"), none, some (str "archive")] →
          wildcardPart (getGroups archivist) ≤ p.grants) :=
  listing_enforced_iff { hasBackend := true } archivist rfl

/-- The archive is not reported, so its reading is not shown although it is granted. -/
theorem listing_not_always_enforced :
    ¬∀ (a : API) (r : UIRequest) (reply : ∀ op, Reply op) (names : List (Option Str)),
      reply .listBuckets = .ok names → ∀ shown,
        (a.handleListBuckets r).eval reply = writeJSON 200 (.buckets shown) →
          ShowsEnforced (getGroups r) (a.reported names) shown := by
  intro hall
  have h := hall { hasBackend := true } archivist (withBuckets [some (str "alpha")]) _ rfl _
    (eval_handleListBuckets _ _ rfl)
  have hrow : (⟨str "archive", ⟨false, true, false⟩⟩ : BucketResponse) ∈
      (shownMerge (getGroups archivist)
        (API.reported { hasBackend := true } [some (str "alpha")])).response := by
    decide
  have henforced := h.enforced _ hrow
  have hread : checkAccess (getGroups archivist) (str "archive") (str "GET") = true := by decide
  dsimp only at henforced
  rw [hread] at henforced
  cases henforced

/-! ### The listing of the proxy -/

theorem exists_method_of_parse {group bucket policy : Str}
    (h : parseGroup group = some (bucket, policy)) :
    ∃ m, methodGranted (grantsOf policy) m = true := by
  have hvalid : (validPolicies.lookup policy).isSome := by
    unfold parseGroup at h
    dsimp only at h
    split_ifs at h
    cases hcut : lastCut hyphen (trimLeft slash group) with
    | none =>
        rw [hcut] at h
        cases h
    | some p =>
        obtain ⟨b, q⟩ := p
        rw [hcut] at h
        dsimp only at h
        split_ifs at h with hnone
        obtain ⟨-, rfl⟩ := Prod.mk.inj (Option.some.inj h)
        simpa using hnone
  obtain ⟨g, hg⟩ := Option.isSome_iff_exists.mp hvalid
  have hall : ∀ p ∈ validPolicies, methodGranted p.2 (str "GET") = true ∨
      methodGranted p.2 (str "PUT") = true := by decide
  have hgrants : grantsOf policy = g := by
    unfold grantsOf
    rw [hg]
    rfl
  have hmem : (policy, g) ∈ validPolicies := by
    obtain ⟨l₁, l₂, hl, -⟩ := List.lookup_eq_some_iff.mp hg
    rw [hl]
    simp
  rw [hgrants]
  rcases hall _ hmem with hm | hm
  · exact ⟨_, hm⟩
  · exact ⟨_, hm⟩

theorem exists_checkAccess_iff (groups : List Str) (bucket : Str) :
    (∃ m, checkAccess groups bucket m = true) ↔
      (wildcardGrant groups).2 = true ∨ ∃ p ∈ effectiveBuckets groups, p.name = bucket := by
  rw [(wildcardGrant_eq groups).2, exists_effectiveBuckets_iff, mem_keys_namedGrants]
  simp only [checkAccess_iff, List.mem_map]
  constructor
  · rintro ⟨m, group, hmem, b, policy, hp, hb, hm⟩
    by_cases hwild : b = wildcardBucket
    · exact .inl ⟨_, mem_groupGrants.mpr ⟨group, hmem, policy, hp, rfl⟩, hwild⟩
    · obtain rfl : b = bucket := hb.resolve_right hwild
      exact .inr ⟨hwild, group, hmem, policy, hp⟩
  · rintro (⟨⟨b, g⟩, he, rfl⟩ | ⟨-, group, hmem, policy, hp⟩)
    · obtain ⟨group, hmem, policy, hp, -⟩ := mem_groupGrants.mp he
      obtain ⟨m, hm⟩ := exists_method_of_parse hp
      exact ⟨m, group, hmem, _, policy, hp, .inr rfl, hm⟩
    · obtain ⟨m, hm⟩ := exists_method_of_parse hp
      exact ⟨m, group, hmem, _, policy, hp, .inl rfl, hm⟩

open Classical in
theorem visibleBuckets_eq (groups : List Str) (names : List (Option Str)) :
    Proxy.visibleBuckets groups names =
      (names.filterMap id).filter fun b => ∃ m, checkAccess groups b m = true := by
  unfold Proxy.visibleBuckets
  dsimp only
  rw [List.filter_filterMap]
  apply List.filterMap_congr
  intro name _
  cases name with
  | none => rfl
  | some b =>
      have hiff : ((wildcardGrant groups).2 = true ∨ b ∈ (effectiveBuckets groups).map (·.name)) ↔
          ∃ m, checkAccess groups b m = true := by
        rw [exists_checkAccess_iff, List.mem_map]
      simp only [id_eq, Option.filter_some, decide_eq_true_iff, hiff]

open Classical in
/-- The proxy lists the reported buckets on which some method is allowed, and these are the
reported ones among those that the web interface lists. -/
theorem listings_agree (backend : Proxy.S3Backend) {names : List (Option Str)}
    (hb : backend.listBuckets = .ok names) (a : API) (ha : a.hasBackend = true) (r : UIRequest)
    {reply : ∀ op, Reply op} (hr : reply .listBuckets = .ok names) :
    ∃ listed shown,
      Proxy.handleListBuckets (some backend) (getGroups r) =
        { status := 200
          header := Header.empty.set (str "Content-Type") (str "application/json")
          body := Json.line (.array (listed.map fun b => .object [(str "name", .string b)])) } ∧
      (listed = (names.filterMap id).filter fun b => ∃ m, checkAccess (getGroups r) b m = true) ∧
      (a.handleListBuckets r).eval reply = writeJSON 200 (.buckets shown) ∧
      ∀ b, b ∈ listed ↔ some b ∈ names ∧ ∃ x ∈ shown, x.name = b := by
  have hreported : a.reported names = names := if_pos ha
  refine ⟨_, _, ?_, visibleBuckets_eq (getGroups r) names, eval_handleListBuckets a r hr, ?_⟩
  · unfold Proxy.handleListBuckets
    dsimp only
    rw [hb]
  · intro b
    rw [hreported, exists_shown_iff, visibleBuckets_eq, List.mem_filter, List.mem_filterMap,
      decide_eq_true_iff, exists_checkAccess_iff]
    constructor
    · rintro ⟨⟨n, hn, rfl⟩, hv⟩
      exact ⟨hn, hv.imp_left fun hw => ⟨hw, hn⟩⟩
    · rintro ⟨hn, hv⟩
      exact ⟨⟨_, hn, rfl⟩, hv.imp_left And.left⟩

/-- A storage backend with these buckets. -/
def backendWith (names : List (Option Str)) : Proxy.S3Backend where
  listBuckets := .ok names
  endpoint := []
  region := []
  credentials := .error []

theorem listings_agree_archivist :
    ∃ (listed : List Str) (shown : List BucketResponse),
      Proxy.handleListBuckets (some (backendWith [some (str "alpha"), none]))
        (getGroups archivist) =
        { status := 200
          header := Header.empty.set (str "Content-Type") (str "application/json")
          body := Json.line (.array (listed.map fun b => .object [(str "name", .string b)])) } ∧
      (API.handleListBuckets { hasBackend := true } archivist).eval
        (withBuckets [some (str "alpha"), none]) = writeJSON 200 (.buckets shown) ∧
      ∀ b, b ∈ listed ↔ some b ∈ [some (str "alpha"), none] ∧ ∃ x ∈ shown, x.name = b := by
  have hreply : withBuckets [some (str "alpha"), none] .listBuckets =
      .ok [some (str "alpha"), none] := rfl
  obtain ⟨listed, shown, hbody, -, hshown, hiff⟩ :=
    listings_agree (backendWith [some (str "alpha"), none]) rfl { hasBackend := true } rfl archivist
      hreply
  exact ⟨listed, shown, hbody, hshown, hiff⟩

end PierGateway.WebUI
