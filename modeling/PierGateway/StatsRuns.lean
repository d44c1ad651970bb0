import PierGateway.BucketStats
import PierGateway.Histories

/-!
# Runs of the totals handler

Any number of requests for bucket totals run over the cache, one call at a time. The
calls of a request say how far it has come: it was served from the cache, waits for a
walk, has read the cache again, walks the bucket or has ended its walk.
-/
namespace PierGateway.WebUI
open GoStrings Interaction Acl

/-- A call with its reply. -/
abbrev Call := Σ op, Reply op

abbrev History := List (Event Op Reply World)

/-- The requests of the totals handler. -/
def statsSystem (a : API) (outside : Outside) : System Op Reply UIRequest Answer World where
  start := a.handleBucketStats
  handle := Handle outside
  drift := World.Drifts

/-! ### How far a request has come -/

def afterRead : Option BucketStatsResponse → Prog Op Reply Answer
  | some resp => .done (writeJSON 200 (.stats resp))
  | none => .done statsFailed

def statsCanceled : Answer := writeError 503 (str "canceled") (str "request canceled")

def afterWait (bucket : Str) (woken : Bool) : Prog Op Reply Answer :=
  if woken then .call (.statsRead bucket) afterRead else .done statsCanceled

def answerOfWalk : Except Str BucketStatsResponse → Answer
  | .error _ => statsFailed
  | .ok resp => writeJSON 200 (.stats resp)

def finishWalk (bucket : Str) (ch : ℕ) (result : Except Str BucketStatsResponse) :
    Prog Op Reply Answer :=
  .call (.statsFinish bucket ch result.toOption) fun _ => .done (answerOfWalk result)

/-- What a request with access has called, and what is left of it. -/
inductive Stage (a : API) (bucket : Str) : List Call → Prog Op Reply Answer → Prop
  | fresh : Stage a bucket [] (a.answerStats bucket)
  | cached (resp : BucketStatsResponse) :
      Stage a bucket [⟨.statsEnter bucket, Entered.cached resp⟩]
        (.done (writeJSON 200 (.stats resp)))
  | waiting (ch : ℕ) :
      Stage a bucket [⟨.statsEnter bucket, Entered.wait ch⟩]
        (.call (.statsWait ch) (afterWait bucket))
  | gone (ch : ℕ) :
      Stage a bucket [⟨.statsEnter bucket, Entered.wait ch⟩, ⟨.statsWait ch, false⟩]
        (.done statsCanceled)
  | woken (ch : ℕ) :
      Stage a bucket [⟨.statsEnter bucket, Entered.wait ch⟩, ⟨.statsWait ch, true⟩]
        (.call (.statsRead bucket) afterRead)
  | reread (ch : ℕ) (entry : Option BucketStatsResponse) :
      Stage a bucket
        [⟨.statsEnter bucket, Entered.wait ch⟩, ⟨.statsWait ch, true⟩, ⟨.statsRead bucket, entry⟩]
        (afterRead entry)
  | walking (ch : ℕ) {l : List Call} {w : Prog Op Reply (Except Str BucketStatsResponse)}
      (h : (a.computeBucketStats bucket).After l w) :
      Stage a bucket (⟨.statsEnter bucket, Entered.walk ch⟩ :: l) (w.bind (finishWalk bucket ch))
  | finished (ch : ℕ) {l : List Call} {result : Except Str BucketStatsResponse}
      (h : (a.computeBucketStats bucket).After l (.done result)) :
      Stage a bucket
        (⟨.statsEnter bucket, Entered.walk ch⟩ ::
          (l ++ [⟨.statsFinish bucket ch result.toOption, ()⟩]))
        (.done (answerOfWalk result))

def afterEnter (a : API) (bucket : Str) : Entered → Prog Op Reply Answer
  | .cached resp => .done (writeJSON 200 (.stats resp))
  | .wait ch => .call (.statsWait ch) (afterWait bucket)
  | .walk ch => (a.computeBucketStats bucket).bind (finishWalk bucket ch)

theorem answerStats_eq (a : API) (bucket : Str) :
    a.answerStats bucket = .call (.statsEnter bucket) (afterEnter a bucket) := by
  unfold API.answerStats
  congr 1
  funext entered
  cases entered with
  | cached resp => rfl
  | wait ch => rfl
  | walk ch =>
      dsimp only [afterEnter]
      congr 1
      funext result
      cases result <;> rfl

theorem stage_of_after {a : API} {bucket : Str} {l : List Call} {q : Prog Op Reply Answer}
    (h : (a.answerStats bucket).After l q) : Stage a bucket l q := by
  rw [answerStats_eq] at h
  rcases Prog.after_call h with ⟨rfl, rfl⟩ | ⟨entered, l', rfl, hentered⟩
  · rw [← answerStats_eq]
    exact .fresh
  · cases entered with
    | cached resp =>
        obtain ⟨rfl, rfl⟩ := Prog.after_done hentered
        exact .cached resp
    | wait ch =>
        rcases Prog.after_call hentered with ⟨rfl, rfl⟩ | ⟨woken, l', rfl, hwoken⟩
        · exact .waiting ch
        · cases woken with
          | false =>
              obtain ⟨rfl, rfl⟩ := Prog.after_done hwoken
              exact .gone ch
          | true =>
              rcases Prog.after_call hwoken with ⟨rfl, rfl⟩ | ⟨entry, l', rfl, hread⟩
              · exact .woken ch
              · cases entry with
                | none =>
                    obtain ⟨rfl, rfl⟩ := Prog.after_done hread
                    exact .reread ch none
                | some resp =>
                    obtain ⟨rfl, rfl⟩ := Prog.after_done hread
                    exact .reread ch (some resp)
    | walk ch =>
        rcases Prog.after_bind hentered with ⟨w, hw, rfl⟩ | ⟨l₁, l₂, result, rfl, hw, hfinish⟩
        · exact .walking ch hw
        · rcases Prog.after_call hfinish with ⟨rfl, rfl⟩ | ⟨u, l', rfl, hdone⟩
          · rw [List.append_nil]
            exact .walking ch hw
          · obtain ⟨rfl, rfl⟩ := Prog.after_done hdone
            exact .finished ch hw

theorem safe_computeBucketStats (a : API) (bucket : Str) :
    (a.computeBucketStats bucket).Safe
      (fun op => ∃ token, op = .listObjects bucket [] [] token statsPageSize) (fun _ _ => True)
      (fun result => ∀ totals ∈ result.toOption, totals.bucket = bucket) := by
  have hwalk : (a.computeBucketStats bucket).Safe
      (fun op => ∃ token, op = .listObjects bucket [] [] token statsPageSize) (fun _ _ => True) _ :=
    safe_walkPages (fun token => ⟨token, rfl⟩) statsMaxPages [] rfl
  exact hwalk.mono (fun _ hop => hop) fun _ hresult => hresult.1

theorem calls_of_walk {a : API} {bucket : Str} {l : List Call}
    {w : Prog Op Reply (Except Str BucketStatsResponse)}
    (h : (a.computeBucketStats bucket).After l w) :
    ∀ c ∈ l, ∃ token, c.1 = .listObjects bucket [] [] token statsPageSize :=
  ((safe_computeBucketStats a bucket).after (fun _ _ => trivial) h).1

theorem totals_bucket {a : API} {bucket : Str} {l : List Call} {resp : BucketStatsResponse}
    (h : (a.computeBucketStats bucket).After l (.done (.ok resp))) : resp.bucket = bucket :=
  ((safe_computeBucketStats a bucket).after (fun _ _ => trivial) h).2 resp rfl

theorem Stage.nextCall {a : API} {bucket : Str} {l : List Call} {op : Op}
    {next : Reply op → Prog Op Reply Answer} (h : Stage a bucket l (.call op next)) :
    (l = [] ∧ op = .statsEnter bucket) ∨
      (∃ ch, l = [⟨.statsEnter bucket, Entered.wait ch⟩] ∧ op = .statsWait ch) ∨
      (∃ ch, l = [⟨.statsEnter bucket, Entered.wait ch⟩, ⟨.statsWait ch, true⟩] ∧
        op = .statsRead bucket) ∨
      (∃ token, op = .listObjects bucket [] [] token statsPageSize) ∨
      ∃ ch l' result, l = ⟨.statsEnter bucket, Entered.walk ch⟩ :: l' ∧
        (a.computeBucketStats bucket).After l' (.done result) ∧
        op = .statsFinish bucket ch result.toOption := by
  generalize hq : Prog.call op next = q at h
  cases h with
  | fresh =>
      rw [answerStats_eq] at hq
      cases hq
      exact .inl ⟨rfl, rfl⟩
  | cached resp => cases hq
  | waiting ch =>
      cases hq
      exact .inr (.inl ⟨ch, rfl, rfl⟩)
  | gone ch => cases hq
  | woken ch =>
      cases hq
      exact .inr (.inr (.inl ⟨ch, rfl, rfl⟩))
  | reread ch entry => cases entry <;> cases hq
  | @walking ch l w hw =>
      cases w with
      | done result =>
          cases hq
          exact .inr (.inr (.inr (.inr ⟨ch, l, result, rfl, hw, rfl⟩)))
      | call op' next' =>
          cases hq
          have hrest := ((safe_computeBucketStats a bucket).after (fun _ _ => trivial) hw).2
          exact .inr (.inr (.inr (.inl hrest.1)))
  | finished ch hw => cases hq

/-- A request that has ended a walk is done, and the walk is the one it registered. -/
theorem Stage.finished_of_mem {a : API} {bucket b : Str} {l : List Call} {p : Prog Op Reply Answer}
    {ch : ℕ} {filed : Option BucketStatsResponse} (h : Stage a bucket l p)
    (hmem : (⟨.statsFinish b ch filed, ()⟩ : Call) ∈ l) :
    b = bucket ∧ ∃ l' result, filed = result.toOption ∧
      l = ⟨.statsEnter b, Entered.walk ch⟩ :: (l' ++ [⟨.statsFinish b ch filed, ()⟩]) ∧
      (a.computeBucketStats b).After l' (.done result) := by
  have hlist : ∀ {l' : List Call} {w : Prog Op Reply (Except Str BucketStatsResponse)},
      (a.computeBucketStats bucket).After l' w → (⟨.statsFinish b ch filed, ()⟩ : Call) ∉ l' := by
    intro l' w hw hc
    obtain ⟨token, htoken⟩ := calls_of_walk hw _ hc
    cases htoken
  cases h with
  | fresh => exact absurd hmem List.not_mem_nil
  | cached resp | waiting ch' | gone ch' | woken ch' | reread ch' entry => simp at hmem
  | walking ch' hw =>
      rcases List.mem_cons.mp hmem with he | hmem
      · exact absurd (congrArg Sigma.fst he) (by simp)
      · exact absurd hmem (hlist hw)
  | @finished ch' l' result hw =>
      rcases List.mem_cons.mp hmem with he | hmem
      · exact absurd (congrArg Sigma.fst he) (by simp)
      · rcases List.mem_append.mp hmem with hmem | hmem
        · exact absurd hmem (hlist hw)
        · cases List.mem_singleton.mp hmem
          exact ⟨rfl, l', result, rfl, rfl, hw⟩

/-- The three ways a request comes to answer with totals. -/
theorem Stage.answer {a : API} {bucket : Str} {l : List Call} {answer : Answer}
    (h : Stage a bucket l (.done answer)) (hok : answer.status = 200) :
    ∃ resp, answer = writeJSON 200 (.stats resp) ∧
      (l = [⟨.statsEnter bucket, Entered.cached resp⟩] ∨
        (∃ ch, l = [⟨.statsEnter bucket, Entered.wait ch⟩, ⟨.statsWait ch, true⟩,
          ⟨.statsRead bucket, some resp⟩]) ∨
        ∃ ch l', l = ⟨.statsEnter bucket, Entered.walk ch⟩ ::
            (l' ++ [⟨.statsFinish bucket ch (some resp), ()⟩]) ∧
          (a.computeBucketStats bucket).After l' (.done (.ok resp))) := by
  generalize hq : Prog.done answer = q at h
  cases h with
  | fresh => cases hq
  | cached resp =>
      cases hq
      exact ⟨resp, rfl, .inl rfl⟩
  | waiting ch | woken ch => cases hq
  | gone ch =>
      cases hq
      exact absurd hok (by decide)
  | reread ch entry =>
      cases entry with
      | none =>
          cases hq
          exact absurd hok (by decide)
      | some resp =>
          cases hq
          exact ⟨resp, rfl, .inr (.inl ⟨ch, rfl⟩)⟩
  | @walking ch l w hw => cases w <;> cases hq
  | @finished ch l' result hw =>
      cases hq
      cases result with
      | error err =>
          have hstatus : (answerOfWalk (.error err)).status = 502 := rfl
          rw [hstatus] at hok
          cases hok
      | ok resp => exact ⟨resp, rfl, .inr (.inr ⟨ch, l', rfl, hw⟩)⟩

/-! ### Requests in a run -/

/-- The request names a bucket its user may read, and there is a storage backend. -/
def Admits (a : API) (r : UIRequest) : Prop :=
  bucketFromRequest r ≠ [] ∧
    checkAccess (getGroups r) (bucketFromRequest r) (str "GET") = true ∧ a.hasBackend = true

theorem handleBucketStats_cases (a : API) (r : UIRequest) :
    (Admits a r ∧ a.handleBucketStats r = a.answerStats (bucketFromRequest r)) ∨
      (¬Admits a r ∧ ∃ answer, a.handleBucketStats r = .done answer ∧ answer.status ≠ 200) := by
  by_cases h : Admits a r
  · exact .inl ⟨h, handleBucketStats_of_access h.1 h.2.1 h.2.2⟩
  · refine .inr ⟨h, ?_⟩
    unfold API.handleBucketStats
    dsimp only
    split_ifs with hb hc ha
    · exact ⟨_, rfl, by decide⟩
    · exact ⟨_, rfl, by decide⟩
    · exact ⟨_, rfl, by decide⟩
    · exact absurd ⟨hb, by simpa using hc, by simpa using ha⟩ h

theorem start_of_admits {a : API} {outside : Outside} {r : UIRequest} (hadm : Admits a r) :
    (statsSystem a outside).start r = .call (.statsEnter (bucketFromRequest r))
      (afterEnter a (bucketFromRequest r)) :=
  (handleBucketStats_of_access hadm.1 hadm.2.1 hadm.2.2).trans (answerStats_eq ..)

/-- A request in a run is in one of the stages, or it was turned away and has called nothing. -/
theorem stage_of_run {a : API} {outside : Outside} {w₀ : World} {h : History}
    {c : Config Op Reply UIRequest Answer World} (hr : (statsSystem a outside).Run w₀ h c) {i : ℕ}
    {r : UIRequest} {p : Prog Op Reply Answer} (hi : c.threads i = some (r, p)) :
    (Admits a r ∧ Stage a (bucketFromRequest r) (callsOf h i) p) ∨
      (¬Admits a r ∧ callsOf h i = [] ∧ ∃ answer, p = .done answer ∧ answer.status ≠ 200) := by
  have hafter : (a.handleBucketStats r).After (callsOf h i) p := (hr.thread i).2 r p hi
  rcases handleBucketStats_cases a r with ⟨hadmits, heq⟩ | ⟨hdenied, answer, heq, hstatus⟩
  · rw [heq] at hafter
    exact .inl ⟨hadmits, stage_of_after hafter⟩
  · rw [heq] at hafter
    obtain ⟨hcalls, rfl⟩ := Prog.after_done hafter
    exact .inr ⟨hdenied, hcalls, answer, rfl, hstatus⟩

theorem stage_of_call {a : API} {outside : Outside} {w₀ : World} {h : History}
    {c : Config Op Reply UIRequest Answer World} (hr : (statsSystem a outside).Run w₀ h c) {i : ℕ}
    {r : UIRequest} {op : Op} {next : Reply op → Prog Op Reply Answer}
    (hi : c.threads i = some (r, .call op next)) :
    Stage a (bucketFromRequest r) (callsOf h i) (.call op next) := by
  rcases stage_of_run hr hi with ⟨-, hstage⟩ | ⟨-, -, answer, hp, -⟩
  · exact hstage
  · cases hp

/-! ### What a call does -/

section
variable {outside : Outside} {i : ℕ} {w w' : World}

theorem Handle.of_enter {bucket : Str} {x : Entered}
    (h : Handle outside i w (.statsEnter bucket) x w') :
    x = (w.cache.enter w.now bucket).1 ∧
      w' = { w with cache := (w.cache.enter w.now bucket).2 } := by
  cases h with
  | enter => exact ⟨rfl, rfl⟩
  | storage hop => simp [Op.scope] at hop

theorem Handle.of_wait {ch : ℕ} {x : Bool} (h : Handle outside i w (.statsWait ch) x w') :
    w' = w ∧ (x = true → ch ∈ w.cache.closed) ∧ (x = false → i ∈ w.cancelled) := by
  cases h with
  | woken hch => exact ⟨rfl, fun _ => hch, fun hx => absurd hx (by decide)⟩
  | gone _ hi => exact ⟨rfl, fun hx => absurd hx (by decide), fun _ => hi⟩
  | storage hop => simp [Op.scope] at hop

theorem Handle.of_read {bucket : Str} {x : Option BucketStatsResponse}
    (h : Handle outside i w (.statsRead bucket) x w') : x = w.cache.read bucket ∧ w' = w := by
  cases h with
  | read => exact ⟨rfl, rfl⟩
  | storage hop => simp [Op.scope] at hop

theorem Handle.of_finish {bucket : Str} {ch : ℕ} {result : Option BucketStatsResponse} {x : Unit}
    (h : Handle outside i w (.statsFinish bucket ch result) x w') :
    w' = { w with cache := w.cache.finish w.now bucket ch result } := by
  cases h with
  | finish => rfl
  | storage hop => simp [Op.scope] at hop

theorem Handle.of_listObjects {bucket keyPrefix delimiter token : Str} {maxKeys : ℤ}
    {x : Except Str ListObjectsOutput}
    (h : Handle outside i w (.listObjects bucket keyPrefix delimiter token maxKeys) x w') :
    w' = w ∧ outside (i ∈ w.cancelled)
      (.listObjects bucket keyPrefix delimiter token maxKeys) x := by
  cases h with
  | storage _ hout => exact ⟨rfl, hout⟩

theorem Handle.enter_walk {bucket : Str}
    (hstale : w.cache.freshEntry w.now bucket = none)
    (hfree : w.cache.pending.lookup bucket = none) :
    Handle outside i w (.statsEnter bucket) (.walk w.cache.channels)
      { w with cache :=
        { w.cache with
          pending := w.cache.pending.insert bucket w.cache.channels
          channels := w.cache.channels + 1 } } := by
  have henter : Handle outside i w (.statsEnter bucket) _ _ := .enter bucket
  unfold StatsCache.enter at henter
  rwa [hstale, hfree] at henter

theorem Handle.enter_wait {bucket : Str} {ch : ℕ}
    (hstale : w.cache.freshEntry w.now bucket = none)
    (hch : w.cache.pending.lookup bucket = some ch) :
    Handle outside i w (.statsEnter bucket) (.wait ch) w := by
  have henter : Handle outside i w (.statsEnter bucket) _ _ := .enter bucket
  unfold StatsCache.enter at henter
  rwa [hstale, hch] at henter

end

theorem first_page (a : API) (bucket : Str) (ch : ℕ) :
    ∃ next, (a.computeBucketStats bucket).bind (finishWalk bucket ch) =
        .call (.listObjects bucket [] [] [] statsPageSize) next ∧
      (∀ err, next (.error err) = finishWalk bucket ch (.error err)) ∧
      next (.ok {}) = finishWalk bucket ch
        (.ok { bucket := bucket, quotaBytes := a.quotaFor bucket }) :=
  ⟨_, rfl, fun _ => rfl, rfl⟩

end PierGateway.WebUI
