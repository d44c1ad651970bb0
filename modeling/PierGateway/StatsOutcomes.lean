import PierGateway.StatsInvariant

/-!
# What requests for totals are answered

A request that waits for the walk of another is woken in every run, so it can always
come to an answer. The answer is not always the one its own client earns: the walk
ends with the context of the request that makes it, and a request that waited finds
either nothing or whatever entry was there before, as old as it may be. For both, the
exact condition is on what had been walked when the request read again.
-/
namespace PierGateway.WebUI
open GoStrings Interaction Acl

/-! ### No request waits for ever -/

/-- The calls that are answered at once. -/
def Prompt (op : Op) : Prop :=
  (∃ bucket, op = .statsRead bucket) ∨ (∃ bucket ch result, op = .statsFinish bucket ch result) ∨
    ∃ bucket token, op = .listObjects bucket [] [] token statsPageSize

theorem safe_walking {a : API} {bucket : Str} {ch : ℕ} {l : List Call}
    {w : Prog Op Reply (Except Str BucketStatsResponse)}
    (hw : (a.computeBucketStats bucket).After l w) :
    (w.bind (finishWalk bucket ch)).Safe Prompt (fun _ _ => True) fun _ => True := by
  have hrest := ((safe_computeBucketStats a bucket).after (fun _ _ => trivial) hw).2
  have hprompt : w.Safe Prompt (fun _ _ => True) _ := hrest.mono
    (fun op hop => .inr (.inr ⟨bucket, hop⟩)) fun _ hresult => hresult
  exact hprompt.bind fun result _ => ⟨.inr (.inl ⟨bucket, ch, _, rfl⟩), fun _ _ => trivial⟩

theorem safe_afterRead (bucket : Str) :
    (afterWait bucket true).Safe Prompt (fun _ _ => True) fun _ => True := by
  refine ⟨.inl ⟨bucket, rfl⟩, fun entry _ => ?_⟩
  cases entry <;> trivial

theorem Stage.walking_of_mem {a : API} {bucket b : Str} {l : List Call} {p : Prog Op Reply Answer}
    {ch : ℕ} (h : Stage a bucket l p) (hmem : (⟨.statsEnter b, Entered.walk ch⟩ : Call) ∈ l)
    (hopen : ∀ result, (⟨.statsFinish b ch result, ()⟩ : Call) ∉ l) :
    ∃ l' w, (a.computeBucketStats bucket).After l' w ∧ p = w.bind (finishWalk bucket ch) := by
  have hlist : ∀ {l' : List Call} {w : Prog Op Reply (Except Str BucketStatsResponse)},
      (a.computeBucketStats bucket).After l' w →
        (⟨.statsEnter b, Entered.walk ch⟩ : Call) ∉ l' := by
    intro l' w hw hc
    obtain ⟨token, htoken⟩ := calls_of_walk hw _ hc
    cases htoken
  cases h with
  | fresh => exact absurd hmem List.not_mem_nil
  | cached resp | waiting ch' | gone ch' | woken ch' | reread ch' entry => simp at hmem
  | @walking ch' l' w hw =>
      rcases List.mem_cons.mp hmem with he | hmem
      · cases he
        exact ⟨l', w, hw, rfl⟩
      · exact absurd hmem (hlist hw)
  | @finished ch' l' result hw =>
      rcases List.mem_cons.mp hmem with he | hmem
      · cases he
        exact absurd (by simp) (hopen result.toOption)
      · rcases List.mem_append.mp hmem with hmem | hmem
        · exact absurd hmem (hlist hw)
        · exact absurd (congrArg Sigma.fst (List.mem_singleton.mp hmem)) (by simp)

section
variable {a : API} {outside : Outside} {w₀ : World} {h : History}
  {c : Config Op Reply UIRequest Answer World}

theorem prog_of_walking (hr : (statsSystem a outside).Run w₀ h c) {i : ℕ} {b : Str} {ch : ℕ}
    (hi : Walking h i b ch) :
    ∃ r l w, (a.computeBucketStats (bucketFromRequest r)).After l w ∧
      c.threads i = some (r, w.bind (finishWalk (bucketFromRequest r) ch)) := by
  cases hthread : c.threads i with
  | none =>
      have hmem := hi.1
      rw [(hr.thread i).1 hthread] at hmem
      exact absurd hmem List.not_mem_nil
  | some thread =>
      rcases stage_of_run hr (p := thread.2) hthread with ⟨-, hstage⟩ | ⟨-, hnil, -⟩
      · obtain ⟨l, w, hw, hp⟩ := hstage.walking_of_mem hi.1 hi.2
        exact ⟨thread.1, l, w, hw, by rw [← hp]⟩
      · have hmem := hi.1
        rw [hnil] at hmem
        exact absurd hmem List.not_mem_nil

/-- The storage backend answers every listing of a walk. -/
def Answers (outside : Outside) : Prop :=
  ∀ gone bucket token, ∃ x, outside gone (.listObjects bucket [] [] token statsPageSize) x

/-- A request that waits for nobody can be run to its end. -/
theorem exists_done_of_prompt (hout : Answers outside) (hr : (statsSystem a outside).Run w₀ h c)
    {i : ℕ} {r : UIRequest} {p : Prog Op Reply Answer} (hi : c.threads i = some (r, p))
    (hp : p.Safe Prompt (fun _ _ => True) fun _ => True) :
    ∃ h' c' answer, (statsSystem a outside).Run w₀ (h ++ h') c' ∧
      c'.threads i = some (r, .done answer) ∧ c'.state.cancelled = c.state.cancelled ∧
      ∀ j, j ≠ i → c'.threads j = c.threads j ∧ callsOf h' j = [] := by
  refine hr.exists_done (f := World.cancelled) (fun w op hop => ?_) hp hi
  rcases hop with ⟨bucket, rfl⟩ | ⟨bucket, ch, result, rfl⟩ | ⟨bucket, token, rfl⟩
  · exact ⟨_, _, trivial, .read bucket, rfl⟩
  · exact ⟨_, _, trivial, .finish bucket ch result, rfl⟩
  · obtain ⟨x, hx⟩ := hout (i ∈ w.cancelled) bucket token
    exact ⟨x, w, trivial, .storage (.inr rfl) hx, rfl⟩

/-- The run goes on to one in which the request is answered and no other client has gone. -/
def CanBeAnswered (a : API) (outside : Outside) (w₀ : World) (h : History)
    (c : Config Op Reply UIRequest Answer World) (i : ℕ) (r : UIRequest) : Prop :=
  ∃ h' c' answer, (statsSystem a outside).Run w₀ (h ++ h') c' ∧
    c'.threads i = some (r, .done answer) ∧ c'.state.cancelled = c.state.cancelled

theorem canBeAnswered_of_prompt (hout : Answers outside)
    (hr : (statsSystem a outside).Run w₀ h c) {i : ℕ} {r : UIRequest} {p : Prog Op Reply Answer}
    (hi : c.threads i = some (r, p)) (hp : p.Safe Prompt (fun _ _ => True) fun _ => True) :
    CanBeAnswered a outside w₀ h c i r := by
  obtain ⟨h', c', answer, hr', hdone, hcancelled, -⟩ := exists_done_of_prompt hout hr hi hp
  exact ⟨h', c', answer, hr', hdone, hcancelled⟩

theorem CanBeAnswered.of_append {h' : History} {c' : Config Op Reply UIRequest Answer World} {i : ℕ}
    {r : UIRequest} (hcan : CanBeAnswered a outside w₀ (h ++ h') c' i r)
    (hc : c'.state.cancelled = c.state.cancelled) : CanBeAnswered a outside w₀ h c i r := by
  obtain ⟨h'', c'', answer, hr, hdone, hcancelled⟩ := hcan
  rw [List.append_assoc] at hr
  exact ⟨h' ++ h'', c'', answer, hr, hdone, hcancelled.trans hc⟩

theorem canBeAnswered_of_closed (hout : Answers outside)
    (hr : (statsSystem a outside).Run w₀ h c) {i : ℕ} {r : UIRequest} {ch : ℕ}
    (hi : c.threads i = some (r, .call (.statsWait ch) (afterWait (bucketFromRequest r))))
    (hch : ch ∈ c.state.cache.closed) : CanBeAnswered a outside w₀ h c i r := by
  have hstep := hr.call i r (.statsWait ch) (afterWait _) true c.state hi (.woken hch)
  have hcan := canBeAnswered_of_prompt hout hstep (Function.update_self ..)
    (safe_afterRead (bucketFromRequest r))
  exact hcan.of_append rfl

theorem canBeAnswered_of_waiting (hout : Answers outside) (h₀ : w₀.cache = {})
    (hr : (statsSystem a outside).Run w₀ h c) {i : ℕ} {r : UIRequest} {ch : ℕ}
    (hi : c.threads i = some (r, .call (.statsWait ch) (afterWait (bucketFromRequest r))))
    (hcalls : callsOf h i = [⟨.statsEnter (bucketFromRequest r), Entered.wait ch⟩]) :
    CanBeAnswered a outside w₀ h c i r := by
  have hwaits : Waits h i (bucketFromRequest r) ch := by
    unfold Waits
    rw [hcalls]
    exact List.mem_singleton.mpr rfl
  have hslots := slots_of_run hr h₀
  rcases hslots.waiter i _ ch hwaits with hpending | hclosed
  · obtain ⟨j, hj⟩ := (hslots.pending_iff _ ch).mp hpending
    have hij : i ≠ j := by
      intro he
      have hmem := hj.1
      rw [← he, hcalls] at hmem
      simp at hmem
    obtain ⟨rj, l, w, hw, hthread⟩ := prog_of_walking hr hj
    obtain ⟨h', c', answer, hr', hdone, hcancelled, hothers⟩ :=
      exists_done_of_prompt hout hr hthread (safe_walking hw)
    have hslots' := slots_of_run hr' h₀
    have hwaits' : Waits (h ++ h') i (bucketFromRequest r) ch := by
      unfold Waits
      rw [callsOf_append]
      exact List.mem_append_left _ hwaits
    have hclosed : ch ∈ c'.state.cache.closed := by
      rcases hslots'.waiter i _ ch hwaits' with hpending' | hclosed
      · obtain ⟨k, hk⟩ := (hslots'.pending_iff _ ch).mp hpending'
        by_cases hkj : k = j
        · subst hkj
          obtain ⟨r', l', w', -, hthread'⟩ := prog_of_walking hr' hk
          rw [hdone] at hthread'
          cases w' <;> cases hthread'
        · have hk' : Walking h k (bucketFromRequest r) ch := by
            unfold Walking at hk ⊢
            rwa [callsOf_append, (hothers k hkj).2, List.append_nil] at hk
          exact absurd (hslots.one_walk _ k ch j ch hk' hj).1 hkj
      · exact hclosed
    have hi' := (hothers i hij).1.trans hi
    exact (canBeAnswered_of_closed hout hr' hi' hclosed).of_append hcancelled
  · exact canBeAnswered_of_closed hout hr hi hclosed

theorem canBeAnswered (hout : Answers outside) (h₀ : w₀.cache = {})
    (hr : (statsSystem a outside).Run w₀ h c) {i : ℕ} {r : UIRequest} {p : Prog Op Reply Answer}
    (hi : c.threads i = some (r, p)) : CanBeAnswered a outside w₀ h c i r := by
  have hdone : ∀ answer, c.threads i = some (r, .done answer) →
      CanBeAnswered a outside w₀ h c i r := fun answer hi =>
    canBeAnswered_of_prompt hout hr hi trivial
  rcases stage_of_run hr hi with ⟨-, hstage⟩ | ⟨-, -, answer, rfl, -⟩
  · generalize hl : callsOf h i = l at hstage
    cases hstage with
    | fresh =>
        rw [answerStats_eq] at hi
        have hstep := hr.call i r _ _ _ _ hi (.enter (bucketFromRequest r))
        have hcalls := callsOf_snoc_self h i c.state (.statsEnter (bucketFromRequest r))
          (c.state.cache.enter c.state.now (bucketFromRequest r)).1
        rw [hl, List.nil_append] at hcalls
        generalize (c.state.cache.enter c.state.now (bucketFromRequest r)).1 =
          entered at hstep hcalls
        cases entered with
        | cached resp =>
            exact (canBeAnswered_of_prompt hout hstep
              (Function.update_self ..) trivial).of_append rfl
        | wait ch =>
            exact (canBeAnswered_of_waiting hout h₀ hstep
              (Function.update_self ..) hcalls).of_append
              rfl
        | walk ch =>
            exact (canBeAnswered_of_prompt hout hstep (Function.update_self ..)
              (safe_walking (.nil _))).of_append rfl
    | cached resp => exact hdone _ hi
    | waiting ch => exact canBeAnswered_of_waiting hout h₀ hr hi hl
    | gone ch => exact hdone _ hi
    | woken ch => exact canBeAnswered_of_prompt hout hr hi (safe_afterRead _)
    | reread ch entry => cases entry <;> exact hdone _ hi
    | walking ch hw => exact canBeAnswered_of_prompt hout hr hi (safe_walking hw)
    | finished ch hw => exact hdone _ hi
  · exact hdone answer hi

/-! ### A walk that fails -/

/-- A client that goes away ends its walk with nothing, and the request that waited for the walk is
left with the entry there was before. -/
theorem exists_failed_walk {r : UIRequest} (hadm : Admits a r) {err : Str}
    (hfail : ∀ gone, gone →
      outside gone (.listObjects (bucketFromRequest r) [] [] [] statsPageSize) (.error err))
    (hr : (statsSystem a outside).Run w₀ h c) {i j : ℕ} (hij : i ≠ j) (hi : c.threads i = none)
    (hj : c.threads j = none)
    (hstale : c.state.cache.freshEntry c.state.now (bucketFromRequest r) = none)
    (hfree : c.state.cache.pending.lookup (bucketFromRequest r) = none) :
    ∃ h' w c', (statsSystem a outside).Run w₀
        (h' ++ [⟨j, w, .statsRead (bucketFromRequest r), w.cache.read (bucketFromRequest r)⟩]) c' ∧
      w.now = c.state.now ∧ w.cache.entries = c.state.cache.entries ∧
      c'.threads i = some (r, .done statsFailed) ∧
      c'.threads j = some (r, afterRead (c.state.cache.read (bucketFromRequest r))) ∧
      c'.state.cancelled = insert i c.state.cancelled := by
  have hji := hij.symm
  -- the one that walks, and the one that waits for it
  have hr₁ := hr.first_call hi (start_of_admits hadm) (Handle.enter_walk hstale hfree)
  have hr₂ := hr₁.first_call ((Function.update_of_ne hji ..).trans hj) (start_of_admits hadm)
    (Handle.enter_wait hstale (Finmap.lookup_insert _))
  -- the client of the first goes away, and its walk fails
  have hr₃ := hr₂.drift ⟨_, _, insert i c.state.cancelled⟩
    ⟨rfl, le_refl _, Finset.subset_insert ..⟩
  obtain ⟨next, hwalk, hnext, -⟩ := first_page a (bucketFromRequest r) c.state.cache.channels
  have hr₄ := hr₃.call i r _ next (.error err) _ (by simpa [hij, afterEnter] using hwalk)
    (.storage (.inr rfl) (hfail _ (Finset.mem_insert_self ..)))
  have hr₅ := hr₄.next_call (x := ()) (hnext err) (.finish ..)
  -- the other is woken and reads again
  have hr₆ :=
    hr₅.call j r (.statsWait c.state.cache.channels) (afterWait (bucketFromRequest r)) true _
    (by simp [hji, afterEnter]) (.woken (Finset.mem_insert_self ..))
  have hr₇ := hr₆.next_call (x := c.state.cache.read (bucketFromRequest r)) rfl (.read _)
  refine ⟨_, _, _, hr₇, rfl, rfl, ?_, Function.update_self .., rfl⟩
  simp [hij, answerOfWalk]

/-! ### Another client that goes away -/

theorem cancelled_of_run (hr : (statsSystem a outside).Run w₀ h c) :
    ∀ e ∈ h, e.before.cancelled ⊆ c.state.cancelled := by
  refine hr.before (R := fun w w' => w.cancelled ⊆ w'.cancelled) ?_ ?_ ?_
  · intro w w' w'' h₁ h₂
    exact h₁.trans h₂
  · intro i w op x w' hx
    exact (Handle.entries hx).2.1.subset
  · intro w w' hd
    exact hd.2.2

/-- The storage backend fails a listing only when the client of the request is gone. -/
def FailsOnlyGone (outside : Outside) : Prop :=
  ∀ gone bucket token err,
    outside gone (.listObjects bucket [] [] token statsPageSize) (.error err) → gone

theorem walk_succeeds (hout : FailsOnlyGone outside) (hr : (statsSystem a outside).Run w₀ h c)
    {i : ℕ} (hstays : i ∉ c.state.cancelled) {bucket : Str} {l : List Call}
    {result : Except Str BucketStatsResponse} (hl : l ⊆ callsOf h i)
    (hwalk : (a.computeBucketStats bucket).After l (.done result)) :
    ∃ totals, result = .ok totals := by
  have hsafe : (a.computeBucketStats bucket).Safe (fun _ => True)
      (fun op x => (⟨op, x⟩ : Call) ∈ callsOf h i) _ :=
    safe_walkPages (fun _ => trivial) statsMaxPages [] rfl
  refine (hsafe.after (fun call hc => hl hc) hwalk).2.2 fun token err hmem => ?_
  obtain ⟨h₁, w, h₂, hh⟩ := System.Run.exists_split hmem
  rw [hh] at hr
  obtain ⟨c₁, -, -, owner, next, w', -, hx⟩ := hr.split
  have hgone := hout _ _ _ _ (Handle.of_listObjects hx).2
  have hsub := cancelled_of_run hr _ (List.mem_append_right _ List.mem_cons_self)
  exact hstays (hsub hgone)

theorem read_not_mem_walk {bucket : Str} {ch : ℕ} {l : List Call}
    {w : Prog Op Reply (Except Str BucketStatsResponse)} {filed x : Option BucketStatsResponse}
    (hwalk : (a.computeBucketStats bucket).After l w) :
    (⟨.statsRead bucket, x⟩ : Call) ∉ (⟨.statsEnter bucket, Entered.walk ch⟩ : Call) ::
      (l ++ [⟨.statsFinish bucket ch filed, ()⟩]) := by
  intro hmem
  rcases List.mem_cons.mp hmem with he | hmem
  · exact absurd (congrArg Sigma.fst he) (by simp)
  · rcases List.mem_append.mp hmem with hmem | hmem
    · obtain ⟨token, htoken⟩ := calls_of_walk hwalk _ hmem
      cases htoken
    · exact absurd (congrArg Sigma.fst (List.mem_singleton.mp hmem)) (by simp)

/-- Totals that a request which waited answers with were walked before it read again. -/
theorem ended_of_ok (hr : (statsSystem a outside).Run w₀ h c) (h₀ : w₀.cache = {}) {i : ℕ}
    {bucket : Str} {answer : Answer} (hstage : Stage a bucket (callsOf h i) (.done answer))
    (hok : answer.status = 200) {h₁ h₂ : History} {w : World} {x : Option BucketStatsResponse}
    (hh : h = h₁ ++ ⟨i, w, .statsRead bucket, x⟩ :: h₂) :
    ∃ resp t, Ended h₁ bucket resp t := by
  have hmem : (⟨.statsRead bucket, x⟩ : Call) ∈ callsOf h i := by
    rw [hh]
    exact mem_callsOf.mpr ⟨w, by simp⟩
  rw [hh] at hr
  obtain ⟨hread, hentries⟩ := read_of_run hr h₀
  obtain ⟨resp, -, hcalls | ⟨ch, hcalls⟩ | ⟨ch, l, hcalls, hwalk⟩⟩ := hstage.answer hok
  · rw [hcalls] at hmem
    simp at hmem
  · rw [hcalls] at hmem
    have hx : x = some resp := by simpa using hmem
    obtain ⟨e, he, -⟩ := StatsCache.read_eq_some.mp (hread.symm.trans hx)
    exact ⟨e.resp, e.fetched, (hentries.stored _ e he).2⟩
  · rw [hcalls] at hmem
    exact absurd hmem (read_not_mem_walk hwalk)

/-- A request whose client stays answers with totals when there were some to be read again. -/
theorem ok_of_ended (hout : FailsOnlyGone outside) (hr : (statsSystem a outside).Run w₀ h c)
    (h₀ : w₀.cache = {}) {i : ℕ} (hstays : i ∉ c.state.cancelled) {bucket : Str} {answer : Answer}
    (hstage : Stage a bucket (callsOf h i) (.done answer))
    (hended : ∀ h₁ w x h₂, h = h₁ ++ ⟨i, w, .statsRead bucket, x⟩ :: h₂ →
      ∃ resp t, Ended h₁ bucket resp t) : answer.status = 200 := by
  generalize hl : callsOf h i = l at hstage
  generalize hq : Prog.done answer = q at hstage
  cases hstage with
  | fresh => cases hq
  | cached resp =>
      cases hq
      rfl
  | waiting ch | woken ch => cases hq
  | gone ch =>
      have hmem : (⟨.statsWait ch, false⟩ : Call) ∈ callsOf h i := by
        rw [hl]
        simp
      obtain ⟨h₁, w, h₂, hh⟩ := System.Run.exists_split hmem
      rw [hh] at hr
      obtain ⟨c₁, -, -, owner, next, w', -, hx⟩ := hr.split
      have hgone := (Handle.of_wait hx).2.2 rfl
      have hsub := cancelled_of_run hr _ (List.mem_append_right _ List.mem_cons_self)
      exact absurd (hsub hgone) hstays
  | reread ch entry =>
      have hmem : (⟨.statsRead bucket, entry⟩ : Call) ∈ callsOf h i := by
        rw [hl]
        simp
      obtain ⟨h₁, w, h₂, hh⟩ := System.Run.exists_split hmem
      obtain ⟨resp, t, ht⟩ := hended h₁ w entry h₂ hh
      rw [hh] at hr
      obtain ⟨hread, hentries⟩ := read_of_run hr h₀
      obtain ⟨-, e, he, -⟩ := hentries.latest _ resp t ht
      have hsome := StatsCache.read_eq_some.mpr ⟨e, he, (hentries.stored _ e he).1, rfl⟩
      rw [← hread] at hsome
      subst hsome
      cases hq
      rfl
  | @walking ch l w hw => cases w <;> cases hq
  | @finished ch l' result hwalk =>
      have hsub : l' ⊆ callsOf h i := by
        rw [hl]
        exact fun call hcall => List.mem_cons_of_mem _ (List.mem_append_left _ hcall)
      obtain ⟨totals, rfl⟩ := walk_succeeds hout hr hstays hsub hwalk
      cases hq
      rfl

/-- A request of a user with access whose client stays can always come to an answer, and the
answer has status 200 exactly when it names a bucket of which some walk had succeeded whenever the
request reads again after it has waited. -/
theorem answered_ok_iff (hout : FailsOnlyGone outside) {now : Time}
    (hr : (statsSystem a outside).Run { now := now } h c) (ha : a.hasBackend = true) {i : ℕ}
    {r : UIRequest} (hc : checkAccess (getGroups r) (bucketFromRequest r) (str "GET") = true)
    {p : Prog Op Reply Answer} (hi : c.threads i = some (r, p)) (hstays : i ∉ c.state.cancelled) :
    (Answers outside → CanBeAnswered a outside { now := now } h c i r) ∧
      ∀ answer, p = .done answer →
        (answer.status = 200 ↔ bucketFromRequest r ≠ [] ∧
          ∀ h₁ w x h₂, h = h₁ ++ ⟨i, w, .statsRead (bucketFromRequest r), x⟩ :: h₂ →
            ∃ resp t, Ended h₁ (bucketFromRequest r) resp t) := by
  refine ⟨fun hanswers => canBeAnswered hanswers rfl hr hi, fun answer hp => ?_⟩
  subst hp
  rcases stage_of_run hr hi with ⟨hadmits, hstage⟩ | ⟨hdenied, -, answer', hdone, hne⟩
  · constructor
    · intro hok
      exact ⟨hadmits.1, fun h₁ w x h₂ hh => ended_of_ok hr rfl hstage hok hh⟩
    · intro hcond
      exact ok_of_ended hout hr rfl hstays hstage hcond.2
  · cases hdone
    exact ⟨fun hok => absurd hok hne, fun hcond => absurd ⟨hcond.1, hc, ha⟩ hdenied⟩

end

theorem failsOnlyGone_goneFails : FailsOnlyGone goneFails := fun _ _ _ _ hgone => hgone

theorem exists_gone_reader :
    ∃ h c, (statsSystem { hasBackend := true } goneFails).Run { now := 0 } h c ∧
      c.threads 1 = some (reader, .done statsFailed) ∧ 1 ∉ c.state.cancelled := by
  have hr₀ : (statsSystem { hasBackend := true } goneFails).Run { now := 0 } [] _ := .init
  obtain ⟨h', w, c, hr, -, -, -, hthread, hcancelled⟩ :=
    exists_failed_walk reader_admits (goneFails_error _ []) hr₀ (i := 0) (j := 1) (by decide) rfl
      rfl rfl rfl
  refine ⟨_, c, hr, hthread, ?_⟩
  rw [hcancelled]
  decide

theorem answered_ok_iff_reader :
    ∃ h c, (Answers goneFails →
        CanBeAnswered { hasBackend := true } goneFails { now := 0 } h c 1 reader) ∧
      (statsFailed.status = 200 ↔ bucketFromRequest reader ≠ [] ∧
        ∀ h₁ w x h₂, h = h₁ ++ ⟨1, w, .statsRead (bucketFromRequest reader), x⟩ :: h₂ →
          ∃ resp t, Ended h₁ (bucketFromRequest reader) resp t) := by
  obtain ⟨h, c, hr, hthread, hstays⟩ := exists_gone_reader
  have hboth := answered_ok_iff failsOnlyGone_goneFails hr rfl reader_admits.2.1 hthread hstays
  exact ⟨h, c, hboth.1, hboth.2 _ rfl⟩

/-- A request can be answered with an error because another client has gone. -/
theorem another_client_fails_request :
    ¬∀ (a : API) (outside : Outside), FailsOnlyGone outside → ∀ now h c,
      (statsSystem a outside).Run { now := now } h c → ∀ i r answer, Admits a r →
        c.threads i = some (r, .done answer) → i ∉ c.state.cancelled → answer.status = 200 := by
  intro hall
  obtain ⟨h, c, hr, hthread, hstays⟩ := exists_gone_reader
  exact absurd (hall _ _ failsOnlyGone_goneFails 0 h c hr 1 reader _ reader_admits hthread hstays)
    (by decide)

section
variable {a : API} {outside : Outside} {w₀ : World} {h : History}
  {c : Config Op Reply UIRequest Answer World}

/-! ### Totals that are too old -/

/-- The call hands out totals that the cache holds. -/
def HandsOut (bucket : Str) (resp : BucketStatsResponse) (call : Call) : Prop :=
  call = ⟨.statsEnter bucket, Entered.cached resp⟩ ∨ call = ⟨.statsRead bucket, some resp⟩

/-- The totals are of a walk the request itself has ended, or of one that had ended less than the
lifetime of an entry before the request took them out of the cache. -/
def ServedFresh (h : History) (i : ℕ) (bucket : Str) (resp : BucketStatsResponse) : Prop :=
  (∃ ch, (⟨.statsFinish bucket ch (some resp), ()⟩ : Call) ∈ callsOf h i) ∨
    ∃ h₁ w op x h₂, h = h₁ ++ ⟨i, w, op, x⟩ :: h₂ ∧ HandsOut bucket resp ⟨op, x⟩ ∧
      ∃ t, Ended h₁ bucket resp t ∧ w.now - t < statsCacheTTL

/-- Whenever the request reads again, a walk of the bucket had succeeded less than the lifetime of
an entry ago. -/
def RereadsFresh (h : History) (i : ℕ) (bucket : Str) : Prop :=
  ∀ h₁ w x h₂, h = h₁ ++ ⟨i, w, .statsRead bucket, x⟩ :: h₂ →
    ∃ resp t, Ended h₁ bucket resp t ∧ w.now - t < statsCacheTTL

theorem calls_before_read {i : ℕ} {bucket : Str} {ch : ℕ} {entry x : Option BucketStatsResponse}
    {h₁ h₂ : History} {w : World}
    (hcalls : callsOf (h₁ ++ ⟨i, w, .statsRead bucket, x⟩ :: h₂) i =
      [⟨.statsEnter bucket, Entered.wait ch⟩, ⟨.statsWait ch, true⟩, ⟨.statsRead bucket, entry⟩]) :
    (callsOf h₁ i).length = 2 := by
  have hsplit : callsOf (h₁ ++ ⟨i, w, .statsRead bucket, x⟩ :: h₂) i =
      callsOf h₁ i ++ (⟨.statsRead bucket, x⟩ :: callsOf h₂ i) := by
    rw [callsOf_append]
    simp [callsOf]
  rw [hsplit] at hcalls
  generalize callsOf h₁ i = l at hcalls
  generalize callsOf h₂ i = l' at hcalls
  rcases l with - | ⟨c₁, - | ⟨c₂, - | ⟨c₃, l⟩⟩⟩
  · simp at hcalls
  · simp at hcalls
  · rfl
  · simp at hcalls

theorem servedFresh_reread_iff (hr : (statsSystem a outside).Run w₀ h c) (h₀ : w₀.cache = {})
    {i : ℕ} {bucket : Str} {resp : BucketStatsResponse} {ch : ℕ}
    (hcalls : callsOf h i = [⟨.statsEnter bucket, Entered.wait ch⟩, ⟨.statsWait ch, true⟩,
      ⟨.statsRead bucket, some resp⟩]) :
    ServedFresh h i bucket resp ↔ RereadsFresh h i bucket := by
  constructor
  · intro hfresh h₁ w x h₂ hh
    rcases hfresh with ⟨ch', hmem⟩ | ⟨h₁', w', op, x', h₂', hh', hhands, t, ht, hage⟩
    · rw [hcalls] at hmem
      simp at hmem
    · rcases hhands with he | he
      · have hmem : (⟨op, x'⟩ : Call) ∈ callsOf h i := by
          rw [hh']
          exact mem_callsOf.mpr ⟨w', by simp⟩
        rw [he, hcalls] at hmem
        simp at hmem
      · cases he
        have hlen := calls_before_read (hh ▸ hcalls)
        have hlen' := calls_before_read (hh' ▸ hcalls)
        obtain ⟨rfl, he⟩ := split_unique (hh'.symm.trans hh) rfl (hlen'.trans hlen.symm)
        cases he
        exact ⟨resp, t, ht, hage⟩
  · intro hrereads
    have hmem : (⟨.statsRead bucket, some resp⟩ : Call) ∈ callsOf h i := by
      rw [hcalls]
      simp
    obtain ⟨h₁, w, h₂, hh⟩ := System.Run.exists_split hmem
    obtain ⟨resp', t, ht, hage⟩ := hrereads h₁ w _ h₂ hh
    have hr' := hr
    rw [hh] at hr'
    obtain ⟨hread, hentries⟩ := read_of_run hr' h₀
    obtain ⟨e, he, -, rfl⟩ := StatsCache.read_eq_some.mp hread.symm
    obtain ⟨-, e', he', hlater⟩ := hentries.latest bucket resp' t ht
    rw [he] at he'
    obtain rfl := Option.some.inj he'
    refine .inr ⟨h₁, w, _, _, h₂, hh, .inr rfl, e.fetched, (hentries.stored bucket e he).2, ?_⟩
    exact lt_of_le_of_lt (sub_le_sub_left hlater w.now) hage

/-- Totals in an answer are fresh exactly when some walk of the bucket was fresh whenever the
request read again after it had waited. -/
theorem servedFresh_iff {now : Time} (hr : (statsSystem a outside).Run { now := now } h c) {i : ℕ}
    {r : UIRequest} {answer : Answer} (hi : c.threads i = some (r, .done answer))
    (hok : answer.status = 200) :
    ∃ resp, answer = writeJSON 200 (.stats resp) ∧
      (ServedFresh h i (bucketFromRequest r) resp ↔ RereadsFresh h i (bucketFromRequest r)) := by
  rcases stage_of_run hr hi with ⟨-, hstage⟩ | ⟨-, -, answer', hdone, hne⟩
  · have hquiet : (∀ x, (⟨.statsRead (bucketFromRequest r), x⟩ : Call) ∉ callsOf h i) →
        RereadsFresh h i (bucketFromRequest r) := by
      intro hnone h₁ w x h₂ hh
      refine absurd ?_ (hnone x)
      rw [hh]
      exact mem_callsOf.mpr ⟨w, by simp⟩
    obtain ⟨resp, hanswer, hcalls | ⟨ch, hcalls⟩ | ⟨ch, l, hcalls, hwalk⟩⟩ := hstage.answer hok
    · refine ⟨resp, hanswer, iff_of_true ?_ (hquiet fun x => by simp [hcalls])⟩
      have hmem : (⟨.statsEnter (bucketFromRequest r), Entered.cached resp⟩ : Call) ∈
          callsOf h i := by
        rw [hcalls]
        exact List.mem_singleton.mpr rfl
      obtain ⟨h₁, w, h₂, hh⟩ := System.Run.exists_split hmem
      have hr' := hr
      rw [hh] at hr'
      exact .inr ⟨h₁, w, _, _, h₂, hh, .inl rfl, cached_of_run hr' rfl⟩
    · exact ⟨resp, hanswer, servedFresh_reread_iff hr rfl hcalls⟩
    · refine ⟨resp, hanswer, iff_of_true (.inl ⟨ch, ?_⟩) (hquiet fun x => ?_)⟩
      · rw [hcalls]
        simp
      · rw [hcalls]
        exact read_not_mem_walk hwalk
  · cases hdone
    exact absurd hok hne

end

theorem servedFresh_iff_reader :
    ∃ h resp answer, answer = writeJSON 200 (.stats resp) ∧
      (ServedFresh h 0 (bucketFromRequest reader) resp ↔
        RereadsFresh h 0 (bucketFromRequest reader)) := by
  obtain ⟨h, c, hr, hthread, -⟩ := exists_walked reader_admits (goneFails_ok _) 0
  obtain ⟨resp, hanswer, hiff⟩ := servedFresh_iff hr hthread rfl
  exact ⟨h, resp, _, hanswer, hiff⟩

/-- Totals can be older than the lifetime of an entry, while the request that walked fails. -/
theorem stale_totals_served :
    ¬∀ (a : API) (outside : Outside) now h c, (statsSystem a outside).Run { now := now } h c →
      ∀ i r answer, c.threads i = some (r, .done answer) → answer.status = 200 →
        ∃ resp, answer = writeJSON 200 (.stats resp) ∧
          ServedFresh h i (bucketFromRequest r) resp := by
  intro hall
  obtain ⟨h, c, hr, -, hothers, hnow₀, hfree, hentry⟩ :=
    exists_walked reader_admits (goneFails_ok _) 0
  -- the entry expires, and then a walk fails while another request waits for it
  have hpast : (0 : Time) ≤ statsCacheTTL := by decide
  have hlater := hr.drift ⟨c.state.cache, statsCacheTTL, c.state.cancelled⟩
    ⟨rfl, hnow₀.le.trans hpast, Finset.Subset.refl _⟩
  have hstale : c.state.cache.freshEntry statsCacheTTL (bucketFromRequest reader) = none := by
    unfold StatsCache.freshEntry
    rw [hentry]
    decide
  obtain ⟨h', w, c', hr', hnow, hentries, -, hthread, -⟩ :=
    exists_failed_walk reader_admits (goneFails_error _ []) hlater (i := 1) (j := 2)
      (by decide) (hothers 1 (by decide)) (hothers 2 (by decide)) hstale hfree
  have hread := StatsCache.read_eq_some.mpr ⟨_, hentry, rfl, rfl⟩
  dsimp only at hthread hnow hentries
  rw [hread] at hthread
  obtain ⟨resp, hanswer, hfresh⟩ := hall _ _ _ _ _ hr' 2 reader _ hthread rfl
  obtain ⟨resp', hanswer', hiff⟩ := servedFresh_iff hr' hthread rfl
  have hsame : resp = resp' := by
    have hpayload := congrArg Answer.payload (hanswer.symm.trans hanswer')
    exact Payload.stats.inj hpayload
  subst hsame
  obtain ⟨resp', t, hended, hage⟩ := hiff.mp hfresh h' w _ [] rfl
  obtain ⟨-, e, he, hle⟩ := (read_of_run hr' rfl).2.latest _ resp' t hended
  rw [hentries, hentry] at he
  obtain rfl := Option.some.inj he
  rw [hnow] at hage
  have hlt : statsCacheTTL - 0 < statsCacheTTL := lt_of_le_of_lt (sub_le_sub_left hle _) hage
  exact absurd hlt (by decide)

end PierGateway.WebUI
