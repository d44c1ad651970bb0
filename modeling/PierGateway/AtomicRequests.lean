import PierGateway.ObjectIntegrity
import PierGateway.Serial

/-!
# Requests take effect at once

A request for an object, a listing or its caller's name makes at most one call to what it shares
with others. So whatever requests are interleaved with it, all is as if it had been served alone at
one moment between its arrival and its answer. The totals of a bucket, whose walk makes many
calls, and the login routes, which share nothing but the limiter, are left as they are.
-/
namespace PierGateway.WebUI
open GoStrings HttpMessages Auth Acl Interaction Prog

/-- The requests that make one call at most. -/
def OneCall (a : Arrival) : Prop := a.endpoint.throttled = false ∧ a.endpoint ≠ .stats

section
variable {cfg : UIConfig}

theorem short_checked {bad : Prop} [Decidable bad] {granted ready : Bool}
    {refused forbidden : Answer} {op : Op}
    {next : Reply op → Prog Op Reply Answer} (h : ∀ x, ∃ answer, next x = .done answer) :
    Short (if bad then .done refused
      else if !granted then .done forbidden
      else if !ready then .done backendUnavailable
      else .call op next) := by
  split_ifs
  · exact .done _
  · exact .done _
  · exact .done _
  · exact .call op next h

theorem short_handleListBuckets (api : API) (r : UIRequest) : Short (api.handleListBuckets r) := by
  unfold API.handleListBuckets
  dsimp only
  split_ifs
  · refine .call Op.listBuckets _ fun out => ?_
    cases out with
    | error err => exact ⟨_, rfl⟩
    | ok names => exact ⟨_, rfl⟩
  · exact .done _

theorem short_inner {e : Endpoint} (he : e.throttled = false) (hstats : e ≠ .stats)
    (r : UIRequest) :
    Short (cfg.inner e r) := by
  cases e with
  | me => exact .done _
  | buckets => exact short_handleListBuckets cfg.api r
  | stats => exact absurd rfl hstats
  | listObjects | objectMeta | getObject | putObject | deleteObject =>
      refine short_checked fun out => ?_
      cases out with
      | error err => exact ⟨_, rfl⟩
      | ok result => exact ⟨_, rfl⟩
  | _ => cases he

theorem short_handler (a : Arrival) (ha : OneCall a) :
    Short (cfg.handler a.verifier a.endpoint a.request) := by
  unfold UIConfig.handler
  rw [if_neg (by simp [ha.1])]
  rcases authMiddleware_cases a.verifier cfg.mapper (cfg.inner a.endpoint) a.request with
    ⟨answer, hdone⟩ | ⟨claims, -, -, heq⟩
  · rw [hdone]
    exact .done answer
  · rw [heq]
    exact short_inner ha.1 ha.2 _

section
variable {β : Type} {serves : Serves β} {names : Outside} {s : Stored β}
  {c d : Config Op Reply Arrival Answer (Stored β)}

/-- Any run of the interface is as good as a run in which each request of one call is served alone
at one moment: at any two times the storage and the cache are the same, and so are the answers, and
what has not arrived by the first time is served after all that was answered by then. -/
theorem requests_atomic (hc : (storedSystem cfg serves names).Reachable s c)
    (hd : Relation.ReflTransGen (storedSystem cfg serves names).Step c d) :
    ∃ c' d', Relation.ReflTransGen ((storedSystem cfg serves names).AtomicStep OneCall)
      (System.initial s) c' ∧
      Relation.ReflTransGen ((storedSystem cfg serves names).AtomicStep OneCall) c' d' ∧
      (storedSystem cfg serves names).Reachable s d' ∧ (c'.state = c.state ∧ d'.state = d.state) ∧
      (∀ i a answer, c.threads i = some (a, .done answer) → c'.threads i = some (a, .done answer)) ∧
      (∀ i a answer, d.threads i = some (a, .done answer) → d'.threads i = some (a, .done answer)) ∧
      ∀ i, c.threads i = none → c'.threads i = none := by
  have hshort : ∀ a, OneCall a → ((storedSystem cfg serves names).start a).Short := short_handler
  obtain ⟨c', hc', hgood⟩ := (System.asGood_initial s).run hshort hc
  obtain ⟨d', hd', hgood'⟩ := hgood.run hshort hd
  have hrun : (storedSystem cfg serves names).Reachable s d' :=
    System.reachable_of_atomic (hc'.trans hd')
  exact ⟨c', d', hc', hd', hrun, ⟨hgood.state, hgood'.state⟩, fun _ _ _ => hgood.result,
    fun _ _ _ => hgood'.result, fun _ => hgood.absent⟩

end

end

/-- The upload of which a reader got the object while both were on their way. -/
theorem requests_atomic_reports :
    ∃ (d' : Config Op Reply Arrival Answer (Stored (Str → Option StoredObject))) (answer : Answer),
      Relation.ReflTransGen (plainSystem.AtomicStep OneCall)
        (System.initial ⟨{ now := 0 }, fun _ _ => none⟩) d' ∧
        d'.threads 1 = some (downloadArrival, .done answer) := by
  obtain ⟨d, answer, body, hd, -, hi, -⟩ := downloaded_after_upload
  obtain ⟨c', d', hc', hd', -, -, -, hanswers, -⟩ := requests_atomic .refl hd
  exact ⟨d', answer, hc'.trans hd', hanswers 1 _ _ hi⟩

end PierGateway.WebUI
