import PierGateway.Authorization
import PierGateway.PathTargets

/-!
# The bucket a storage call addresses

The storage client writes bucket and key into a path, and what it addresses is the
first segment of that path once it is decoded and free of dot segments. A bucket name
or key of the web interface may hold slashes and dot segments, because the router
unescapes a wildcard after it has matched it. The bucket that was authorised is the
one that is addressed exactly when its name is one segment and the key does not climb
out of it.
-/
namespace PierGateway.WebUI
open GoStrings NetUrl HttpMessages Auth Acl Interaction DotSegments SigV4 PercentEncoding Proxy
open ServeMux (findHandler Match Dispatch)

/-- The path of a call in path style, on the wire. -/
def wirePath (bucket : Str) : Option Str → Str
  | none => slash :: uriEncode bucket
  | some key => slash :: uriEncode bucket ++ slash :: escapePath key

/-- The same path decoded. -/
def plainPath (bucket : Str) : Option Str → Str
  | none => slash :: bucket
  | some key => slash :: bucket ++ slash :: key

theorem unescape_wirePath (bucket : Str) (key : Option Str) :
    unescape .path (wirePath bucket key) = some (plainPath bucket key) := by
  have hu : unreserved percent = false := by decide +kernel
  have hslash : ∀ s, unescape .path (slash :: s) = (unescape .path s).map (slash :: ·) :=
    UrlLaws.unescape_cons_slash
  cases key with
  | none =>
      have h := unescape_percentEncode hu bucket
      rw [wirePath, hslash, uriEncode_eq, h]
      rfl
  | some key =>
      have h := unescape_percentEncode_append hu bucket (slash :: escapePath key)
      rw [wirePath, List.cons_append, hslash, uriEncode_eq, h, hslash, unescape_escapePath]
      simp [plainPath]

/-- Storage reads the bucket back off the path of the call. -/
def Addresses (bucket : Str) (key : Option Str) : Prop :=
  ∃ path, unescape .path (wirePath bucket key) = some path ∧
    pathBucket (removeDotSegments path) = bucket

def keySegments : Option Str → List Str
  | none => []
  | some key => split slash key

/-- The bucket is one segment, and the segments of the key do not lead elsewhere. -/
def StaysInBucket (target : Str × Option Str) : Prop :=
  slash ∉ target.1 ∧ KeepsTarget target.1 (target.1 :: keySegments target.2) False

theorem segments_plainPath (bucket : Str) (key : Option Str) :
    segments (plainPath bucket key) = split slash bucket ++ keySegments key := by
  cases key with
  | none => simp [plainPath, segments_cons_slash, keySegments]
  | some key =>
      rw [plainPath, List.cons_append, segments_cons_slash, split_append_cons]
      rfl

theorem addresses_iff {bucket : Str} (hne : bucket ≠ []) (key : Option Str) :
    Addresses bucket key ↔ StaysInBucket (bucket, key) := by
  have hhead : (plainPath bucket key).head? = some slash := by
    cases key <;> rfl
  have htargets := targets_removeDotSegments_iff hhead hne False
  have hpath : Addresses bucket key ↔
      Targets (removeDotSegments (plainPath bucket key)) bucket False := by
    unfold Addresses Targets
    rw [unescape_wirePath]
    simp
  rw [hpath, htargets, segments_plainPath]
  unfold StaysInBucket
  dsimp only
  constructor
  · intro h
    have hkept := h
    obtain ⟨pre, post, hsegs, -⟩ := hkept
    have hmem : bucket ∈ split slash bucket ++ keySegments key := by simp [hsegs]
    have hslash : slash ∉ bucket := by
      rcases List.mem_append.mp hmem with hb | hk
      · exact not_mem_of_mem_split hb
      · cases key with
        | none => cases hk
        | some key => exact not_mem_of_mem_split hk
    rw [split_of_not_mem slash hslash] at h
    exact ⟨hslash, h⟩
  · intro h
    rw [split_of_not_mem slash h.1]
    exact h.2

/-- The request of an arrival was dispatched by the router to its endpoint, with its wildcards. -/
def Arrival.Dispatched (a : Arrival) : Prop :=
  ∃ m : Match (Option Endpoint), findHandler uiRoutes a.request.toRequest = .serve m ∧
    m.handler = some a.endpoint ∧ a.request.pathValues = m.pathValues

/-- Every call of every request, in any interleaving, is on the bucket that was authorised
for the caller, and addresses it exactly when bucket and key of the request stay in it. -/
theorem call_addresses_iff {cfg : UIConfig} {outside : Outside} {now : Time}
    {c : Config Op Reply Arrival Answer World} {i : ℕ} {a : Arrival} {p : Prog Op Reply Answer}
    {op : Op} {bucket : Str} {key : Option Str}
    (hc : (uiSystem cfg outside).Reachable { now := now } c) (hi : c.threads i = some (a, p))
    (hop : p.nextCall = some op) (haddr : op.address = some (bucket, key)) :
    (∃ m, op.scope = some (bucket, m) ∧ Cleared cfg a bucket m) ∧
      (Addresses bucket key ↔ StaysInBucket (a.endpoint.target a.request)) := by
  have hcall := ((uiSystem_holds cfg hc).threads i a p hi).nextCall hop
  obtain ⟨htarget, hne⟩ := hcall.address _ haddr
  constructor
  · obtain ⟨m, hm⟩ := Op.scope_of_address haddr
    exact ⟨m, hm, hcall.access bucket m hm⟩
  · rw [← htarget]
    exact addresses_iff hne key

theorem call_addresses_iff_removeArrival :
    (∃ m, (Op.deleteObject (str "team/reports") (str "old")).scope = some (str "team/reports", m) ∧
        Cleared openAPI removeArrival (str "team/reports") m) ∧
      (Addresses (str "team/reports") (some (str "old")) ↔
        StaysInBucket (removeArrival.endpoint.target removeArrival.request)) := by
  obtain ⟨c, hc, hi⟩ := openSystem.exists_reachable_start { now := 0 } removeArrival
  exact call_addresses_iff hc hi removeArrival_nextCall rfl

theorem removeArrival_dispatched : removeArrival.Dispatched := by
  refine ⟨⟨⟨str "DELETE", keyedSegments (str "objects")⟩, some .deleteObject,
    [str "team/reports", str "old"]⟩, ?_, rfl, ?_⟩
  · rw [uiRoutes_eq]
    decide +kernel
  · decide +kernel

/-- The delete is authorised on one bucket and addresses another. -/
theorem call_may_leave_bucket :
    ¬∀ (cfg : UIConfig) (outside : Outside) (now : Time) (c : Config Op Reply Arrival Answer World)
      (i : ℕ) (a : Arrival) (p : Prog Op Reply Answer) (op : Op) (bucket : Str) (key : Option Str),
      (uiSystem cfg outside).Reachable { now := now } c → c.threads i = some (a, p) → a.Dispatched →
      p.nextCall = some op → op.address = some (bucket, key) → Addresses bucket key := by
  intro hall
  obtain ⟨c, hc, hi⟩ := openSystem.exists_reachable_start { now := 0 } removeArrival
  have haddresses :=
    hall _ _ _ c 0 _ _ _ _ _ hc hi removeArrival_dispatched removeArrival_nextCall rfl
  have hne : str "team/reports" ≠ [] := by decide +kernel
  have hslash : slash ∈ str "team/reports" := by decide +kernel
  exact ((addresses_iff hne _).mp haddresses).1 hslash

end PierGateway.WebUI
